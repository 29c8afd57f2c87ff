import UpAndDownESP.Lib.Slots
import UpAndDownESP.TinyFrame.Listeners

namespace UpAndDownESP.Proofs.Table

variable {L T σ : Type}

/-- What a pending ID listener is waiting for and whom it will call. -/
structure Query (L T : Type) where
  id : UInt8
  fn : L
  fnTimeout : Option T

def entry (lst : IdListener L T) : Option (Query L T × Nat) :=
  lst.fn.map fun f => (⟨lst.id, f, lst.fnTimeout⟩, lst.timeout)

/-- The slots as a timer table: the abstract reading of the listener array. -/
def view (slots : List (IdListener L T)) : Slots.Table (Query L T) := slots.map entry

/-- Every live slot from index `i` on lies under the high-water count, still has time
left and keeps no userdata. Beyond the count it would neither expire nor be matched. -/
def Below (count : Nat) : Nat → List (IdListener L T) → Prop
  | _, [] => True
  | i, lst :: rest =>
    (lst.fn.isSome = true →
      i < count ∧ 0 < lst.timeout ∧ lst.userdata = none ∧ lst.userdata2 = none) ∧
      Below count (i + 1) rest

@[simp] theorem view_nil : view ([] : List (IdListener L T)) = [] := rfl

@[simp] theorem view_cons (lst : IdListener L T) (rest : List (IdListener L T)) :
    view (lst :: rest) = entry lst :: view rest := rfl

@[simp] theorem view_length (slots : List (IdListener L T)) : (view slots).length = slots.length :=
  List.length_map _

theorem entry_none {lst : IdListener L T} (h : lst.fn = none) : entry lst = none := by
  simp [entry, h]

theorem entry_some {lst : IdListener L T} (h : lst.fn = some f) :
    entry lst = some (⟨lst.id, f, lst.fnTimeout⟩, lst.timeout) := by
  simp [entry, h]

theorem Below.raise {slots : List (IdListener L T)} (h : Below count i slots)
    (hc : count ≤ count') : Below count' i slots := by
  induction slots generalizing i with
  | nil => trivial
  | cons lst rest ih =>
    refine ⟨?_, ih h.2⟩
    intro hl
    obtain ⟨hi, ht⟩ := h.1 hl
    exact ⟨by omega, ht⟩

/-- At or past the count nothing is live, so any count will do. -/
theorem Below.dead {slots : List (IdListener L T)} (h : Below count i slots) (hi : count ≤ i) :
    ∀ lst ∈ slots, lst.fn = none := by
  induction slots generalizing i with
  | nil => simp
  | cons lst rest ih =>
    intro x hx
    rcases List.mem_cons.mp hx with rfl | hx
    · cases hf : x.fn with
      | none => rfl
      | some f =>
        have := (h.1 (by simp [hf])).1
        omega
    · exact ih h.2 (by omega) x hx

theorem below_of_dead {slots : List (IdListener L T)} (h : ∀ lst ∈ slots, lst.fn = none) :
    Below count i slots := by
  induction slots generalizing i with
  | nil => trivial
  | cons lst rest ih =>
    refine ⟨?_, ih (fun x hx => h x (by simp [hx]))⟩
    intro hl
    simp [h lst (by simp)] at hl

/-! ### Filling a slot -/

theorem fill_view (fill : IdListener L T → IdListener L T) {q : Query L T} {n : Nat}
    (hfill : ∀ lst, entry (fill lst) = some (q, n)) (i : Nat) (slots : List (IdListener L T)) :
    (fillSlot (fun lst => lst.fn.isNone) fill i slots).map (fun r => view r.2) =
      Slots.insert q n (view slots) := by
  induction slots generalizing i with
  | nil => rfl
  | cons lst rest ih =>
    cases hf : lst.fn with
    | none => simp [fillSlot, hf, entry_none hf, Slots.insert, hfill]
    | some f =>
      simp only [fillSlot, hf, Option.isNone_some, Bool.false_eq_true, if_false, view_cons,
        entry_some hf, Slots.insert]
      rw [← ih (i + 1)]
      cases fillSlot (fun lst => lst.fn.isNone) fill (i + 1) rest <;> simp [entry_some hf]

/-- The count follows the filled slot up. -/
theorem fill_below (fill : IdListener L T → IdListener L T)
    (hfill : ∀ lst, (fill lst).fn.isSome = true →
      0 < (fill lst).timeout ∧ (fill lst).userdata = none ∧ (fill lst).userdata2 = none)
    {slots slots' : List (IdListener L T)} (hb : Below count i slots)
    (h : fillSlot (fun lst => lst.fn.isNone) fill i slots = some (j, slots')) :
    i ≤ j ∧ Below (if count ≤ j then j + 1 else count) i slots' := by
  induction slots generalizing i slots' with
  | nil => simp [fillSlot] at h
  | cons lst rest ih =>
    cases hf : lst.fn with
    | none =>
      simp only [fillSlot, hf, Option.isNone_none, if_true, Option.some.injEq, Prod.mk.injEq] at h
      obtain ⟨rfl, rfl⟩ := h
      refine ⟨Nat.le_refl _, ?_, hb.2.raise (by split <;> omega)⟩
      intro hl
      exact ⟨by split <;> omega, hfill lst hl⟩
    | some f =>
      simp only [fillSlot, hf, Option.isNone_some, Bool.false_eq_true, if_false,
        Option.map_eq_some_iff] at h
      obtain ⟨⟨k, rest'⟩, hr, he⟩ := h
      cases he
      obtain ⟨hj, hb'⟩ := ih hb.2 hr
      refine ⟨by omega, ?_, hb'⟩
      intro hl
      obtain ⟨hi, ht⟩ := hb.1 hl
      exact ⟨by split <;> omega, ht⟩

/-! ### Offering a message -/

theorem live_dead {slots : List (IdListener L T)} (h : ∀ lst ∈ slots, lst.fn = none) :
    Slots.live (view slots) = [] := by
  induction slots with
  | nil => rfl
  | cons lst rest ih =>
    rw [view_cons, entry_none (h lst (by simp)), Slots.live_none]
    exact ih (fun x hx => h x (by simp [hx]))

/-- The queries waiting for the message's ID. -/
def awaits (msg : TfMsg) (q : Query L T) : Bool := q.id == msg.frameId

/-- The loop passes over a slot that is free or waits for another ID. -/
theorem offer_skip (cb : Callbacks L T σ) (msg : TfMsg) (a : σ) (hi : i < count)
    {lst : IdListener L T} (rest : List (IdListener L T))
    (h : lst.fn = none ∨ lst.id ≠ msg.frameId) :
    offerToIds cb i count msg a (lst :: rest) =
      ((offerToIds cb (i + 1) count msg a rest).1,
        lst :: (offerToIds cb (i + 1) count msg a rest).2.1,
        (offerToIds cb (i + 1) count msg a rest).2.2) := by
  cases hf : lst.fn with
  | none => simp [offerToIds, hi, hf]
  | some f =>
    have hid : lst.id ≠ msg.frameId := h.resolve_left (by simp [hf])
    simp [offerToIds, hi, hf, hid]

/-- A matching listener is called once with the message and, closing, leaves the slot. -/
theorem offer_take (cb : Callbacks L T σ) {msg : TfMsg} (a : σ) (hi : i < count)
    (hmsg : msg.userdata = none ∧ msg.userdata2 = none)
    {lst : IdListener L T} (rest : List (IdListener L T)) (hf : lst.fn = some f)
    (hu : lst.userdata = none ∧ lst.userdata2 = none) (hid : lst.id = msg.frameId)
    (hclose : ∀ m b, (cb.fn f m b).1 = .close) :
    offerToIds cb i count msg a (lst :: rest) =
      (true, { lst with fn := none, fnTimeout := none } :: rest,
        if i + 1 = count then count - 1 else count, (cb.fn f msg a).2) := by
  obtain ⟨frameId, isResponse, type, data, len, userdata, userdata2⟩ := msg
  obtain ⟨id, fn, fnTimeout, timeout, timeoutMax, u, u2⟩ := lst
  obtain ⟨rfl, rfl⟩ := hmsg
  obtain ⟨rfl, rfl⟩ := hu
  dsimp only at hf hid
  subst hf hid
  have hcall := hclose ⟨id, isResponse, type, data, len, none, none⟩ a
  cases hr : cb.fn f ⟨id, isResponse, type, data, len, none, none⟩ a with
  | mk res b =>
    rw [hr] at hcall
    dsimp only at hcall
    subst hcall
    simp [offerToIds, hi, hr, cleanupIdListener]

/-- Where no query waits for the ID, no listener is called. -/
theorem offer_none (cb : Callbacks L T σ) (msg : TfMsg) (a : σ) {slots : List (IdListener L T)}
    (h : Slots.remove (awaits msg) (view slots) = none) :
    offerToIds cb i count msg a slots = (false, slots, count, a) := by
  induction slots generalizing i with
  | nil => rfl
  | cons lst rest ih =>
    rw [Slots.remove_eq_none] at h
    have hrest := ih (i := i + 1) (by
      rw [Slots.remove_eq_none]
      intro e he
      apply h e
      cases hf : entry lst with
      | none => simpa [hf] using he
      | some x => simpa [hf] using Or.inr he)
    by_cases hi : i < count
    · rw [offer_skip cb msg a hi rest, hrest]
      cases hf : lst.fn with
      | none => exact Or.inl rfl
      | some f =>
        have := h (⟨lst.id, f, lst.fnTimeout⟩, lst.timeout) (by simp [entry_some hf])
        exact Or.inr (by simpa [awaits] using this)
    · simp [offerToIds, hi]

/-- The ID listener loop is the removal of the first query waiting for the message's
ID, whose listener is called once, provided listeners close. -/
theorem offer_some (cb : Callbacks L T σ) {msg : TfMsg} (a : σ)
    (hmsg : msg.userdata = none ∧ msg.userdata2 = none)
    {slots : List (IdListener L T)} (hb : Below count i slots)
    (hclose : ∀ e ∈ Slots.live (view slots), ∀ m b, (cb.fn e.1.fn m b).1 = .close)
    (h : Slots.remove (awaits msg) (view slots) = some (q, t)) :
    ∃ slots' count', i ≤ count' ∧
      offerToIds cb i count msg a slots = (true, slots', count', (cb.fn q.fn msg a).2) ∧
      view slots' = t ∧ Below count' i slots' := by
  induction slots generalizing i t with
  | nil => simp [Slots.remove] at h
  | cons lst rest ih =>
    by_cases hi : i < count
    case neg =>
      have hnone : Slots.remove (awaits msg) (view (lst :: rest)) = none := by
        rw [Slots.remove_eq_none, live_dead (hb.dead (by omega))]
        simp
      rw [hnone] at h
      cases h
    case pos =>
      cases hf : lst.fn with
      | none =>
        rw [view_cons, entry_none hf] at h hclose
        simp only [Slots.remove, Option.map_eq_some_iff] at h
        obtain ⟨⟨q', t'⟩, hr, he⟩ := h
        cases he
        obtain ⟨slots', count', hle, ho, hv, hb'⟩ := ih hb.2 hclose hr
        refine ⟨lst :: slots', count', by omega, ?_, by simp [entry_none hf, hv], ?_, hb'⟩
        · rw [offer_skip cb msg a hi rest (Or.inl hf), ho]
        · intro hl
          simp [hf] at hl
      | some f =>
        obtain ⟨_, hpos, hu⟩ := hb.1 (by simp [hf])
        rw [view_cons, entry_some hf] at h hclose
        by_cases hid : lst.id = msg.frameId
        · simp only [Slots.remove, awaits, hid, beq_self_eq_true, if_true,
            Option.some.injEq, Prod.mk.injEq] at h
          obtain ⟨rfl, rfl⟩ := h
          refine ⟨_, _, ?_, offer_take cb a hi hmsg rest hf hu hid 
            (hclose (⟨lst.id, f, lst.fnTimeout⟩, lst.timeout) (by simp)), by simp [entry], by simp, ?_⟩
          · split <;> omega
          · split
            · exact below_of_dead (hb.2.dead (by omega))
            · exact hb.2
        · have hid' : awaits msg (⟨lst.id, f, lst.fnTimeout⟩ : Query L T) = false := by
            simpa [awaits] using hid
          simp only [Slots.remove, hid', Bool.false_eq_true, if_false,
            Option.map_eq_some_iff] at h
          obtain ⟨⟨q', t'⟩, hr, he⟩ := h
          cases he
          obtain ⟨slots', count', hle, ho, hv, hb'⟩ :=
            ih hb.2 (fun e he => hclose e (by simp [he])) hr
          refine ⟨lst :: slots', count', by omega, ?_, by simp [entry_some hf, hv], ?_, hb'⟩
          · rw [offer_skip cb msg a hi rest (Or.inr hid), ho]
          · intro _
            exact ⟨by omega, hpos, hu⟩

/-! ### Ticking -/

/-- The timeout function of an expired query, if it has one. -/
def expire (cb : Callbacks L T σ) (a : σ) (q : Query L T) : σ :=
  match q.fnTimeout with
  | none => a
  | some g => cb.fnTimeout g a

theorem tick_dead (cb : Callbacks L T σ) (i count : Nat) (a : σ) {slots : List (IdListener L T)}
    (h : ∀ lst ∈ slots, lst.fn = none) :
    tickIds cb i count a slots = (slots, count, a) ∧
      Slots.tick (view slots) = ([], view slots) := by
  induction slots generalizing i with
  | nil => exact ⟨rfl, rfl⟩
  | cons lst rest ih =>
    obtain ⟨ht, hs⟩ := ih (i := i + 1) (fun x hx => h x (by simp [hx]))
    have hf := h lst (by simp)
    constructor
    · by_cases hi : i < count <;> simp [tickIds, hi, hf, ht]
    · simp [entry_none hf, Slots.tick, hs]

/-- The last tick of a query: its timeout function runs and its slot is freed. -/
theorem tick_expire (cb : Callbacks L T σ) (a : σ) (hi : i < count) {lst : IdListener L T}
    (rest : List (IdListener L T)) (hf : lst.fn = some f) (hone : lst.timeout = 1)
    (hu : lst.userdata = none ∧ lst.userdata2 = none) :
    tickIds cb i count a (lst :: rest) =
      let r := tickIds cb (i + 1) (if i + 1 = count then count - 1 else count)
        (expire cb a ⟨lst.id, f, lst.fnTimeout⟩) rest
      ({ lst with fn := none, fnTimeout := none, timeout := 0 } :: r.1, r.2) := by
  obtain ⟨id, fn, fnTimeout, timeout, timeoutMax, u, u2⟩ := lst
  dsimp only at hf hone hu
  obtain ⟨rfl, rfl⟩ := hu
  subst hf hone
  simp only [tickIds, hi, if_true, Option.isNone_some, Bool.false_eq_true, Nat.one_ne_zero, or_self,
    if_false, Nat.sub_self, cleanupIdListener, ne_eq, not_true_eq_false]
  rfl

theorem tick_count (cb : Callbacks L T σ) (a : σ) (hi : i < count) {lst : IdListener L T}
    (rest : List (IdListener L T)) (hf : lst.fn = some f) (hone : 1 < lst.timeout) :
    tickIds cb i count a (lst :: rest) =
      let r := tickIds cb (i + 1) count a rest
      ({ lst with timeout := lst.timeout - 1 } :: r.1, r.2) := by
  have h1 : lst.timeout - 1 ≠ 0 := by omega
  have hne : lst.timeout ≠ 0 := by omega
  simp [tickIds, hi, hf, h1, hne]

theorem tick_free (cb : Callbacks L T σ) (a : σ) (hi : i < count) {lst : IdListener L T}
    (rest : List (IdListener L T)) (hf : lst.fn = none) :
    tickIds cb i count a (lst :: rest) =
      let r := tickIds cb (i + 1) count a rest
      (lst :: r.1, r.2) := by
  simp [tickIds, hi, hf]

/-- The listener loop of `TF_Tick` is the tick of the timer table, with the expired
queries' timeout functions called in slot order. -/
theorem tick_view (cb : Callbacks L T σ) (a : σ) {slots : List (IdListener L T)}
    (hb : Below count i slots) :
    ∃ slots' count', tickIds cb i count a slots =
        (slots', count', (Slots.tick (view slots)).1.foldl (expire cb) a) ∧
      view slots' = (Slots.tick (view slots)).2 ∧ Below count' i slots' ∧
      (i ≤ count → i ≤ count') := by
  induction slots generalizing i count a with
  | nil => exact ⟨[], count, rfl, rfl, trivial, id⟩
  | cons lst rest ih =>
    by_cases hi : i < count
    case neg =>
      obtain ⟨ht, hs⟩ := tick_dead cb i count a (hb.dead (by omega))
      exact ⟨lst :: rest, count, by rw [ht, hs]; rfl, by rw [hs], hb, id⟩
    case pos =>
      cases hf : lst.fn with
      | none =>
        obtain ⟨slots', count', ht, hv, hb', hle⟩ := ih a hb.2
        refine ⟨lst :: slots', count', ?_, ?_, ⟨?_, hb'⟩, by omega⟩
        · simp [tick_free cb a hi rest hf, ht, entry_none hf, Slots.tick]
        · simp [hv, entry_none hf, Slots.tick]
        · intro hl
          simp [hf] at hl
      | some f =>
        obtain ⟨_, hpos, hu⟩ := hb.1 (by simp [hf])
        by_cases hone : lst.timeout ≤ 1
        · have h1 : lst.timeout = 1 := by omega
          have hexp := tick_expire cb a hi rest hf h1 hu
          by_cases hlast : i + 1 = count
          · -- the last slot under the count: the loop ends here
            have hdead := hb.2.dead (by omega)
            obtain ⟨ht, hs⟩ := tick_dead cb (i + 1) (count - 1)
              (expire cb a ⟨lst.id, f, lst.fnTimeout⟩) hdead
            simp only [hlast, if_true] at hexp ht
            rw [ht] at hexp
            refine ⟨{ lst with fn := none, fnTimeout := none, timeout := 0 } :: rest, count - 1,
              hexp.trans ?_, ?_, ⟨by simp, below_of_dead hdead⟩, by omega⟩
            · simp [entry_some hf, Slots.tick, hone, hs]
            · simp [entry, hf, Slots.tick, hone, hs]
          · obtain ⟨slots', count', ht, hv, hb', hle⟩ :=
              ih (expire cb a ⟨lst.id, f, lst.fnTimeout⟩) hb.2
            simp only [hlast, if_false] at hexp
            rw [ht] at hexp
            refine ⟨{ lst with fn := none, fnTimeout := none, timeout := 0 } :: slots', count',
              hexp.trans ?_, ?_, ⟨by simp, hb'⟩, by omega⟩
            · simp [entry_some hf, Slots.tick, hone]
            · simp [entry, hf, Slots.tick, hone, hv]
        · obtain ⟨slots', count', ht, hv, hb', hle⟩ := ih a hb.2
          refine ⟨{ lst with timeout := lst.timeout - 1 } :: slots', count', ?_, ?_, ⟨?_, hb'⟩,
            by omega⟩
          · simp [tick_count cb a hi rest hf (by omega), ht, entry_some hf, Slots.tick, hone]
          · simp [entry, hf, Slots.tick, hone, hv]
          · intro _
            exact ⟨by omega, by change 0 < lst.timeout - 1; omega, hu⟩

end UpAndDownESP.Proofs.Table
