import Mathlib.Data.List.Basic

namespace HighWater

variable {α σ : Type*}

/-! A row of slots that is searched only up to a mark. The mark is raised by filling a
slot at or above it, and lowered when the last slot below it is emptied. -/

/-- Every live slot from index `i` on is below the mark. -/
def Covers (live : α → Bool) (mark : Nat) : Nat → List α → Prop
  | _, [] => True
  | i, x :: xs => (live x = true → i < mark) ∧ Covers live mark (i + 1) xs

/-- Visit the live slots below the mark in turn, until a visit ends the sweep. -/
def sweep (live : α → Bool) (visit : α → σ → α × σ × Bool) (i mark : Nat) (s : σ) :
    List α → Bool × List α × Nat × σ
  | [] => (false, [], mark, s)
  | x :: xs =>
    if i < mark then
      if live x then
        let r := visit x s
        let mark := if live r.1 then mark else if i + 1 = mark then mark - 1 else mark
        if r.2.2 then (true, r.1 :: xs, mark, r.2.1)
        else
          let t := sweep live visit (i + 1) mark r.2.1 xs
          (t.1, r.1 :: t.2.1, t.2.2)
      else
        let t := sweep live visit (i + 1) mark s xs
        (t.1, x :: t.2.1, t.2.2)
    else (false, x :: xs, mark, s)

/-- The same with no mark. -/
def sweepAll (live : α → Bool) (visit : α → σ → α × σ × Bool) (s : σ) :
    List α → Bool × List α × σ
  | [] => (false, [], s)
  | x :: xs =>
    if live x then
      let r := visit x s
      if r.2.2 then (true, r.1 :: xs, r.2.1)
      else
        let t := sweepAll live visit r.2.1 xs
        (t.1, r.1 :: t.2.1, t.2.2)
    else
      let t := sweepAll live visit s xs
      (t.1, x :: t.2.1, t.2.2)

/-- A visit that acts on the first slot that is wanted, and ends there. -/
def onFirst (wanted : α → Bool) (act : α → σ → α × σ) (x : α) (s : σ) : α × σ × Bool :=
  if wanted x then ((act x s).1, (act x s).2, true) else (x, s, false)

variable {live : α → Bool}

/-- At or above the mark nothing is live. -/
theorem Covers.dead {mark i : Nat} {xs : List α} (h : Covers live mark i xs) (hi : mark ≤ i) :
    ∀ x ∈ xs, live x = false := by
  induction xs generalizing i with
  | nil => simp
  | cons y ys ih =>
    intro x hx
    rcases List.mem_cons.mp hx with rfl | hx
    · cases hl : live x with
      | false => rfl
      | true => exact absurd (h.1 hl) (Nat.not_lt.mpr hi)
    · exact ih h.2 (by omega) x hx

theorem covers_dead {xs : List α} (h : ∀ x ∈ xs, live x = false) (mark i : Nat) :
    Covers live mark i xs := by
  induction xs generalizing i with
  | nil => trivial
  | cons y ys ih =>
    refine ⟨?_, ih (fun x hx => h x (by simp [hx])) (i + 1)⟩
    intro hl
    rw [h y (by simp)] at hl
    cases hl

theorem Covers.raise {mark mark' i : Nat} {xs : List α} (h : Covers live mark i xs)
    (hm : mark ≤ mark') : Covers live mark' i xs := by
  induction xs generalizing i with
  | nil => trivial
  | cons y ys ih => exact ⟨fun hl => Nat.lt_of_lt_of_le (h.1 hl) hm, ih h.2⟩

/-- When the slot before these dies they stay covered. -/
theorem Covers.lower {mark i : Nat} {xs : List α} (h : Covers live mark (i + 1) xs) :
    Covers live (if i + 1 = mark then mark - 1 else mark) (i + 1) xs := by
  split
  · rename_i he
    exact covers_dead (h.dead (by omega)) _ _
  · exact h

theorem sweepAll_dead (visit : α → σ → α × σ × Bool) (s : σ) {xs : List α}
    (h : ∀ x ∈ xs, live x = false) : sweepAll live visit s xs = (false, xs, s) := by
  induction xs with
  | nil => rfl
  | cons y ys ih =>
    have hy : live y = false := h y (by simp)
    simp [sweepAll, hy, ih fun x hx => h x (by simp [hx])]

/-- What a sweep up to a mark has in common with one of all slots. -/
structure Agrees (live : α → Bool) (i mark : Nat) (r : Bool × List α × Nat × σ)
    (t : Bool × List α × σ) : Prop where
  ended : r.1 = t.1
  slots : r.2.1 = t.2.1
  state : r.2.2.2 = t.2.2
  covers : Covers live r.2.2.1 i r.2.1
  above : min i mark ≤ r.2.2.1
  below : r.2.2.1 ≤ mark

/-- As long as the mark covers the live slots it makes no difference, and the sweep
keeps it so. -/
theorem sweep_agrees (visit : α → σ → α × σ × Bool) {i mark : Nat} (s : σ) {xs : List α}
    (h : Covers live mark i xs) :
    Agrees live i mark (sweep live visit i mark s xs) (sweepAll live visit s xs) := by
  induction xs generalizing i mark s with
  | nil => exact ⟨rfl, rfl, rfl, trivial, Nat.min_le_right _ _, Nat.le_refl _⟩
  | cons x xs ih =>
    by_cases hi : i < mark
    · cases hl : live x with
      | false =>
        have hr := ih s h.2
        have habove := hr.above
        simp only [sweep, sweepAll, hi, hl, if_true, Bool.false_eq_true, if_false]
        refine ⟨hr.ended, by rw [hr.slots], hr.state, ⟨?_, hr.covers⟩, ?_, hr.below⟩
        · intro hx
          rw [hl] at hx
          cases hx
        · exact Nat.le_trans (by omega) habove
      | true =>
        -- the mark after the visit, which lowers it only if it empties the last slot
        obtain ⟨mark', hmark⟩ : ∃ m, m = if live (visit x s).1 then mark
            else if i + 1 = mark then mark - 1 else mark := ⟨_, rfl⟩
        have hcovers : Covers live mark' (i + 1) xs := by
          rw [hmark]
          split
          · exact h.2
          · exact h.2.lower
        have hle : i ≤ mark' ∧ mark' ≤ mark := by
          rw [hmark]
          split
          · omega
          · split <;> omega
        have hlive : live (visit x s).1 = true → mark' = mark := by
          intro hx
          rw [hmark, if_pos hx]
        simp only [sweep, sweepAll, hi, hl, if_true]
        rw [← hmark]
        cases hstop : (visit x s).2.2 with
        | true =>
          simp only [if_true]
          refine ⟨rfl, rfl, rfl, ⟨?_, hcovers⟩, Nat.le_trans (Nat.min_le_left _ _) hle.1, hle.2⟩
          intro hx
          dsimp only
          rw [hlive hx]
          exact hi
        | false =>
          have hr := ih (visit x s).2.1 hcovers
          have habove := hr.above
          simp only [Bool.false_eq_true, if_false]
          refine ⟨hr.ended, by rw [hr.slots], hr.state, ⟨?_, hr.covers⟩, ?_,
            Nat.le_trans hr.below hle.2⟩
          · intro hx
            have := hlive hx
            exact Nat.lt_of_lt_of_le (by omega) habove
          · exact Nat.le_trans (by omega) habove
    · have hdead := h.dead (Nat.not_lt.mp hi)
      rw [sweepAll_dead visit s hdead]
      simp only [sweep, hi, if_false]
      exact ⟨rfl, rfl, rfl, h, Nat.min_le_right _ _, Nat.le_refl _⟩

/-- Where no live slot is wanted nothing happens. -/
theorem sweepAll_onFirst_none {wanted : α → Bool} (act : α → σ → α × σ) (s : σ) {xs : List α}
    (h : ∀ x ∈ xs, live x = true → wanted x = false) :
    sweepAll live (onFirst wanted act) s xs = (false, xs, s) := by
  induction xs with
  | nil => rfl
  | cons x xs ih =>
    have hr := ih fun y hy => h y (by simp [hy])
    cases hl : live x with
    | false => simp [sweepAll, hl, hr]
    | true =>
      have hw := h x (by simp) hl
      simp [sweepAll, hl, onFirst, hw, hr]

theorem sweepAll_length (visit : α → σ → α × σ × Bool) (s : σ) (xs : List α) :
    (sweepAll live visit s xs).2.1.length = xs.length := by
  induction xs generalizing s with
  | nil => rfl
  | cons x xs ih =>
    simp only [sweepAll]
    split
    · split
      · rfl
      · simp [ih]
    · simp [ih]

/-- A sweep that no visit ends, where what becomes of a slot does not depend on the state. -/
theorem sweepAll_map {visit : α → σ → α × σ × Bool} {f : α → α} {g : σ → α → σ}
    (hvisit : ∀ x s, live x = true → visit x s = (f x, g s x, false)) (s : σ) (xs : List α) :
    sweepAll live visit s xs =
      (false, xs.map (fun x => if live x then f x else x),
        xs.foldl (fun s x => if live x then g s x else s) s) := by
  induction xs generalizing s with
  | nil => rfl
  | cons x xs ih =>
    cases hl : live x with
    | false => simp [sweepAll, hl, ih]
    | true => simp [sweepAll, hl, hvisit x s hl, ih]

/-- A slot that every visit leaves as it is stays as it is. -/
theorem sweepAll_keeps {visit : α → σ → α × σ × Bool} {x : α} (hx : ∀ s, (visit x s).1 = x)
    {j : Nat} (s : σ) {xs : List α} (hj : xs[j]? = some x) :
    (sweepAll live visit s xs).2.1[j]? = some x := by
  induction xs generalizing s j with
  | nil => simp at hj
  | cons y ys ih =>
    cases j with
    | zero =>
      rw [List.getElem?_cons_zero, Option.some.injEq] at hj
      subst hj
      simp only [sweepAll]
      split
      · split
        · simp [hx]
        · simp [hx]
      · rfl
    | succ j =>
      rw [List.getElem?_cons_succ] at hj
      simp only [sweepAll]
      split
      · split
        · exact hj
        · exact ih _ hj
      · exact ih _ hj

/-- What is in a slot after a sweep was there before, or a visit made it of what was. -/
theorem sweepAll_origin {visit : α → σ → α × σ × Bool} {s : σ} {xs : List α} {k : Nat} {y : α}
    (h : (sweepAll live visit s xs).2.1[k]? = some y) :
    ∃ x, xs[k]? = some x ∧ (y = x ∨ live x = true ∧ ∃ s', y = (visit x s').1) := by
  induction xs generalizing s k with
  | nil => simp [sweepAll] at h
  | cons x xs ih =>
    cases hl : live x with
    | false =>
      simp only [sweepAll, hl, Bool.false_eq_true, if_false] at h
      cases k with
      | zero => exact ⟨x, rfl, Or.inl (Option.some.inj h).symm⟩
      | succ k => exact ih h
    | true =>
      simp only [sweepAll, hl, if_true] at h
      cases hstop : (visit x s).2.2 with
      | true =>
        simp only [hstop, if_true] at h
        cases k with
        | zero => exact ⟨x, rfl, Or.inr ⟨hl, s, (Option.some.inj h).symm⟩⟩
        | succ k => exact ⟨y, h, Or.inl rfl⟩
      | false =>
        simp only [hstop, Bool.false_eq_true, if_false] at h
        cases k with
        | zero => exact ⟨x, rfl, Or.inr ⟨hl, s, (Option.some.inj h).symm⟩⟩
        | succ k => exact ih h

/-- A slot whose visit ends the sweep, with only idle visits before it. -/
theorem sweepAll_reaches {visit : α → σ → α × σ × Bool} {s : σ} {xs : List α} {j : Nat} {x : α}
    (hj : xs[j]? = some x) (hl : live x = true) (hstop : (visit x s).2.2 = true)
    (hbefore : ∀ k < j, ∀ y, xs[k]? = some y → live y = true → visit y s = (y, s, false)) :
    sweepAll live visit s xs = (true, xs.set j (visit x s).1, (visit x s).2.1) := by
  induction xs generalizing j with
  | nil => simp at hj
  | cons y ys ih =>
    cases j with
    | zero =>
      rw [List.getElem?_cons_zero, Option.some.injEq] at hj
      subst hj
      simp [sweepAll, hl, hstop]
    | succ j =>
      have hrest := ih hj fun k hk z hz => hbefore (k + 1) (by omega) z hz
      cases hy : live y with
      | false => simp [sweepAll, hy, hrest]
      | true =>
        have hidle := hbefore 0 (by omega) y rfl hy
        simp [sweepAll, hy, hidle, hrest]

/-- Where a visit leaves its slot as it is, and the state too unless it ends the sweep, the
sweep is the first visit that ends it, if there is one. -/
theorem sweepAll_first (visit : α → σ → α × σ × Bool) (s : σ) (xs : List α)
    (hkeep : ∀ x ∈ xs, live x = true → (visit x s).1 = x)
    (hidle : ∀ x ∈ xs, live x = true → (visit x s).2.2 = false → (visit x s).2.1 = s) :
    (sweepAll live visit s xs = (false, xs, s) ∧
      ∀ x ∈ xs, live x = true → (visit x s).2.2 = false) ∨
    ∃ x ∈ xs, live x = true ∧ (visit x s).2.2 = true ∧
      sweepAll live visit s xs = (true, xs, (visit x s).2.1) := by
  induction xs with
  | nil => exact Or.inl ⟨rfl, by simp⟩
  | cons y ys ih =>
    have hrest := ih (fun x hx => hkeep x (by simp [hx])) (fun x hx => hidle x (by simp [hx]))
    cases hl : live y with
    | false =>
      rcases hrest with ⟨hnone, hall⟩ | ⟨x, hx, hlx, hstop, hrun⟩
      · refine Or.inl ⟨by simp [sweepAll, hl, hnone], ?_⟩
        intro x hx hlx
        rcases List.mem_cons.mp hx with rfl | hx
        · rw [hl] at hlx
          cases hlx
        · exact hall x hx hlx
      · exact Or.inr ⟨x, by simp [hx], hlx, hstop, by simp [sweepAll, hl, hrun]⟩
    | true =>
      have hy := hkeep y (by simp) hl
      cases hstop : (visit y s).2.2 with
      | true => exact Or.inr ⟨y, by simp, hl, hstop, by simp [sweepAll, hl, hstop, hy]⟩
      | false =>
        have hs := hidle y (by simp) hl hstop
        rcases hrest with ⟨hnone, hall⟩ | ⟨x, hx, hlx, hstopx, hrun⟩
        · refine Or.inl ⟨by simp [sweepAll, hl, hstop, hy, hs, hnone], ?_⟩
          intro x hx hlx
          rcases List.mem_cons.mp hx with rfl | hx
          · exact hstop
          · exact hall x hx hlx
        · exact Or.inr ⟨x, by simp [hx], hlx, hstopx, by simp [sweepAll, hl, hstop, hy, hs, hrun]⟩

/-- A row of `n` slots with its mark. -/
structure Marked (live : α → Bool) (n mark : Nat) (xs : List α) : Prop where
  size : xs.length = n
  inside : mark ≤ n
  covers : Covers live mark 0 xs

/-- A sweep of a marked row leaves a marked row, and does what a sweep of all slots does. -/
theorem Marked.sweeps {n mark : Nat} {xs : List α} (h : Marked live n mark xs)
    (visit : α → σ → α × σ × Bool) (s : σ) :
    ∃ mark', sweep live visit 0 mark s xs =
        ((sweepAll live visit s xs).1, (sweepAll live visit s xs).2.1, mark',
          (sweepAll live visit s xs).2.2) ∧
      Marked live n mark' (sweepAll live visit s xs).2.1 := by
  have ha := sweep_agrees visit s h.covers
  refine ⟨(sweep live visit 0 mark s xs).2.2.1, ?_, ?_, Nat.le_trans ha.below h.inside, ?_⟩
  · rw [← ha.ended, ← ha.slots, ← ha.state]
  · rw [sweepAll_length]
    exact h.size
  · rw [← ha.slots]
    exact ha.covers

end HighWater
