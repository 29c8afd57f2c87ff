import UpAndDownESP.Lib.Mealy

/-- Reading a string item by item. An item says at most one thing; `none` means that
the string ends before its first item does. -/
structure Reader (ι V : Type*) where
  read : List ι → Option (Option V × List ι)
  shorter : ∀ {is v rest}, read is = some (v, rest) → rest.length < is.length
  stable : ∀ {is v rest} (js : List ι), read is = some (v, rest) → read (is ++ js) = some (v, rest ++ js)

namespace Reader

variable {ι V : Type*} (R : Reader ι V)

/-- All that a string says. -/
def decode (is : List ι) : List V :=
  match h : R.read is with
  | none => []
  | some (v, rest) =>
    have := R.shorter h
    v.toList ++ decode rest
termination_by is.length

/-- The unfinished item at the end of a string. -/
def leftover (is : List ι) : List ι :=
  match h : R.read is with
  | none => is
  | some (_, rest) =>
    have := R.shorter h
    leftover rest
termination_by is.length

theorem decode_none {is : List ι} (h : R.read is = none) : R.decode is = [] := by
  rw [decode]
  split
  · rfl
  · rename_i hsome
    rw [h] at hsome
    cases hsome

theorem decode_some {is rest : List ι} {v : Option V} (h : R.read is = some (v, rest)) :
    R.decode is = v.toList ++ R.decode rest := by
  rw [decode]
  split
  · rename_i hnone
    rw [h] at hnone
    cases hnone
  · rename_i hsome
    rw [h] at hsome
    cases hsome
    rfl

theorem leftover_none {is : List ι} (h : R.read is = none) : R.leftover is = is := by
  rw [leftover]
  split
  · rfl
  · rename_i hsome
    rw [h] at hsome
    cases hsome

theorem leftover_some {is rest : List ι} {v : Option V} (h : R.read is = some (v, rest)) :
    R.leftover is = R.leftover rest := by
  rw [leftover]
  split
  · rename_i hnone
    rw [h] at hnone
    cases hnone
  · rename_i hsome
    rw [h] at hsome
    cases hsome
    rfl

/-- Strings are read item by item: by its length. -/
theorem induct {P : List ι → Prop} (cut : ∀ is, R.read is = none → P is)
    (item : ∀ is v rest, R.read is = some (v, rest) → P rest → P is) (is : List ι) : P is := by
  induction h : is.length using Nat.strongRecOn generalizing is with
  | ind n ih =>
    cases hr : R.read is with
    | none => exact cut is hr
    | some r =>
      obtain ⟨v, rest⟩ := r
      apply item is v rest hr
      apply ih rest.length _ rest rfl
      rw [← h]
      exact R.shorter hr

/-- What has been read stays read; the unfinished item is taken up again. -/
theorem decode_append (is js : List ι) :
    R.decode (is ++ js) = R.decode is ++ R.decode (R.leftover is ++ js) := by
  induction is using R.induct with
  | cut is h => rw [R.decode_none h, R.leftover_none h, List.nil_append]
  | item is v rest h ih =>
    rw [R.decode_some h, R.leftover_some h, R.decode_some (R.stable js h), ih, List.append_assoc]

variable {σ ω : Type*} (step : σ → ι → σ × Option ω)

/-- A machine that from an idle state reads one item to its end and is idle again,
and hands up nothing within an item, decodes every string. -/
theorem run_decodes (Idle : σ → Prop) (view : ω → V)
    (hcut : ∀ s is, Idle s → R.read is = none → (Mealy.run step s is).2 = [])
    (hitem : ∀ s is v rest, Idle s → R.read is = some (v, rest) →
      ∃ used, is = used ++ rest ∧ Idle (Mealy.run step s used).1 ∧
        (Mealy.run step s used).2.map view = v.toList)
    {s : σ} (hs : Idle s) (is : List ι) : (Mealy.run step s is).2.map view = R.decode is := by
  induction is using R.induct generalizing s with
  | cut is h => rw [hcut s is hs h, R.decode_none h, List.map_nil]
  | item is v rest h ih =>
    obtain ⟨used, rfl, hidle, hsaid⟩ := hitem s is v rest hs h
    rw [Mealy.run_append, R.decode_some h]
    simp only [List.map_append]
    rw [hsaid, ih hidle]

end Reader
