import Mathlib.Data.List.Basic

namespace Slots

variable {α β : Type*}

/-- A fixed row of slots. An occupied slot holds a value and its remaining ticks. -/
abbrev Table (α : Type*) := List (Option (α × Nat))

/-- The occupied slots' contents, in slot order. -/
def live (t : Table α) : List (α × Nat) := t.filterMap id

/-- The first free slot takes the value; there may be none. -/
def insert (a : α) (n : Nat) : Table α → Option (Table α)
  | [] => none
  | none :: t => some (some (a, n) :: t)
  | some e :: t => (insert a n t).map (some e :: ·)

/-- The first occupied slot whose value matches is emptied. -/
def remove (p : α → Bool) : Table α → Option (α × Table α)
  | [] => none
  | none :: t => (remove p t).map fun r => (r.1, none :: r.2)
  | some (a, n) :: t =>
    if p a then some (a, none :: t) else (remove p t).map fun r => (r.1, some (a, n) :: r.2)

/-- One tick: every counter goes down and those that reach zero are emptied.
The expired values are listed in slot order. -/
def tick : Table α → List α × Table α
  | [] => ([], [])
  | none :: t => ((tick t).1, none :: (tick t).2)
  | some (a, n) :: t =>
    if n ≤ 1 then (a :: (tick t).1, none :: (tick t).2)
    else ((tick t).1, some (a, n - 1) :: (tick t).2)

@[simp] theorem live_nil : live ([] : Table α) = [] := rfl

@[simp] theorem live_none (t : Table α) : live (none :: t) = live t := rfl

@[simp] theorem live_some (e : α × Nat) (t : Table α) : live (some e :: t) = e :: live t := rfl

theorem live_length_le (t : Table α) : (live t).length ≤ t.length :=
  List.length_filterMap_le id t

/-! ### Insertion -/

theorem insert_length {t t' : Table α} (h : insert a n t = some t') : t'.length = t.length := by
  induction t generalizing t' with
  | nil => simp [insert] at h
  | cons s t ih =>
    cases s with
    | none =>
      simp only [insert, Option.some.injEq] at h
      subst t'
      rfl
    | some e =>
      simp only [insert, Option.map_eq_some_iff] at h
      obtain ⟨u, hu, rfl⟩ := h
      simp [ih hu]

/-- Insertion fails exactly when every slot is occupied. -/
theorem insert_isSome (a : α) (n : Nat) (t : Table α) :
    (insert a n t).isSome ↔ (live t).length < t.length := by
  induction t with
  | nil => simp [insert]
  | cons s t ih =>
    cases s with
    | none =>
      have := live_length_le t
      simp [insert]
      omega
    | some e => simp [insert, ih]

/-- The other entries keep their places and counters. -/
theorem insert_live {t t' : Table α} (h : insert a n t = some t') :
    ∃ xs ys, live t = xs ++ ys ∧ live t' = xs ++ (a, n) :: ys := by
  induction t generalizing t' with
  | nil => simp [insert] at h
  | cons s t ih =>
    cases s with
    | none =>
      simp only [insert, Option.some.injEq] at h
      subst t'
      exact ⟨[], live t, rfl, rfl⟩
    | some e =>
      simp only [insert, Option.map_eq_some_iff] at h
      obtain ⟨u, hu, rfl⟩ := h
      obtain ⟨xs, ys, hx, hy⟩ := ih hu
      exact ⟨e :: xs, ys, by simp [hx], by simp [hy]⟩

theorem mem_insert {t t' : Table α} (h : insert a n t = some t') (e : α × Nat) :
    e ∈ live t' ↔ e = (a, n) ∨ e ∈ live t := by
  obtain ⟨xs, ys, hx, hy⟩ := insert_live h
  simp only [hx, hy, List.mem_append, List.mem_cons]
  tauto

/-! ### Removal -/

theorem remove_length {t t' : Table α} (h : remove p t = some (a, t')) :
    t'.length = t.length := by
  induction t generalizing t' with
  | nil => simp [remove] at h
  | cons s t ih =>
    rcases s with _ | ⟨b, n⟩
    · simp only [remove, Option.map_eq_some_iff] at h
      obtain ⟨⟨b, u⟩, hu, he⟩ := h
      cases he
      simp [ih hu]
    · simp only [remove] at h
      split at h
      · cases h
        rfl
      · simp only [Option.map_eq_some_iff] at h
        obtain ⟨⟨c, u⟩, hu, he⟩ := h
        cases he
        simp [ih hu]

/-- The removed entry is the first match; all others stay as they are. -/
theorem remove_live {t t' : Table α} (h : remove p t = some (a, t')) :
    ∃ n xs ys, live t = xs ++ (a, n) :: ys ∧ live t' = xs ++ ys ∧ p a = true ∧
      ∀ e ∈ xs, p e.1 = false := by
  induction t generalizing t' with
  | nil => simp [remove] at h
  | cons s t ih =>
    rcases s with _ | ⟨b, n⟩
    · simp only [remove, Option.map_eq_some_iff] at h
      obtain ⟨⟨b, u⟩, hu, he⟩ := h
      cases he
      have hrest := ih hu
      exact hrest
    · simp only [remove] at h
      split at h
      · rename_i hp
        cases h
        exact ⟨n, [], live t, rfl, rfl, hp, by simp⟩
      · rename_i hp
        simp only [Option.map_eq_some_iff] at h
        obtain ⟨⟨c, u⟩, hu, he⟩ := h
        cases he
        obtain ⟨m, xs, ys, hx, hy, ha, hn⟩ := ih hu
        refine ⟨m, (b, n) :: xs, ys, by simp [hx], by simp [hy], ha, ?_⟩
        intro e he
        rcases List.mem_cons.mp he with rfl | he
        · simpa using hp
        · exact hn e he

theorem remove_eq_none {t : Table α} : remove p t = none ↔ ∀ e ∈ live t, p e.1 = false := by
  induction t with
  | nil => simp [remove]
  | cons s t ih =>
    rcases s with _ | ⟨b, n⟩
    · simp [remove, ih]
    · by_cases hp : p b = true
      · simp [remove, hp]
      · simp [remove, hp, ih]

/-- The entry removed is the one a search from the left finds. -/
theorem remove_find (p : α → Bool) (t : Table α) :
    (remove p t).map (fun r => r.1) = ((live t).find? fun e => p e.1).map (fun e => e.1) := by
  induction t with
  | nil => rfl
  | cons s t ih =>
    rcases s with _ | ⟨b, n⟩
    · simpa [remove, Option.map_map, Function.comp_def] using ih
    · by_cases hp : p b = true
      · simp [remove, hp]
      · simpa [remove, hp, Option.map_map, Function.comp_def] using ih

theorem mem_of_remove {t t' : Table α} (h : remove p t = some (a, t')) {e : α × Nat}
    (he : e ∈ live t') : e ∈ live t := by
  obtain ⟨n, xs, ys, hx, hy, _, _⟩ := remove_live h
  rw [hy] at he
  rw [hx]
  rcases List.mem_append.mp he with he | he
  · exact List.mem_append_left _ he
  · exact List.mem_append_right _ (List.mem_cons_of_mem _ he)

theorem remove_mem {t t' : Table α} (h : remove p t = some (a, t')) :
    (∃ n, (a, n) ∈ live t) ∧ p a = true := by
  obtain ⟨n, xs, ys, hx, _, ha, _⟩ := remove_live h
  exact ⟨⟨n, by simp [hx]⟩, ha⟩

/-! ### Ticking -/

theorem tick_length (t : Table α) : (tick t).2.length = t.length := by
  induction t with
  | nil => rfl
  | cons s t ih =>
    rcases s with _ | ⟨b, n⟩
    · simp [tick, ih]
    · by_cases hn : n ≤ 1 <;> simp [tick, hn, ih]

/-- An entry either stays, one tick shorter, or is among the expired. -/
theorem tick_of_mem {t : Table α} {a : α} {n : Nat} (h : (a, n) ∈ live t) :
    (n ≤ 1 ∧ a ∈ (tick t).1) ∨ (1 < n ∧ (a, n - 1) ∈ live (tick t).2) := by
  induction t with
  | nil => simp at h
  | cons s t ih =>
    rcases s with _ | ⟨b, m⟩
    · simpa [tick] using ih (by simpa using h)
    · rcases List.mem_cons.mp h with he | ht
      · cases he
        by_cases hn : n ≤ 1
        · exact Or.inl ⟨hn, by simp [tick, hn]⟩
        · exact Or.inr ⟨by omega, by simp [tick, hn]⟩
      · by_cases hm : m ≤ 1
        · simpa [tick, hm] using (ih ht).imp_left (And.imp_right Or.inr)
        · simpa [tick, hm] using (ih ht).imp_right (And.imp_right Or.inr)

theorem mem_tick {t : Table α} {e : α × Nat} (h : e ∈ live (tick t).2) :
    0 < e.2 ∧ (e.1, e.2 + 1) ∈ live t := by
  induction t with
  | nil => simp [tick] at h
  | cons s t ih =>
    rcases s with _ | ⟨b, m⟩
    · simpa [tick] using ih (by simpa [tick] using h)
    · by_cases hm : m ≤ 1
      · simp only [tick, hm, if_true, live_none] at h
        exact ⟨(ih h).1, List.mem_cons_of_mem _ (ih h).2⟩
      · simp only [tick, hm, if_false, live_some, List.mem_cons] at h
        rcases h with rfl | h
        · refine ⟨by change 0 < m - 1; omega, ?_⟩
          have : m - 1 + 1 = m := by omega
          simp [this]
        · exact ⟨(ih h).1, List.mem_cons_of_mem _ (ih h).2⟩

theorem expired_mem {t : Table α} {a : α} (h : a ∈ (tick t).1) : ∃ n, (a, n) ∈ live t := by
  induction t with
  | nil => simp [tick] at h
  | cons s t ih =>
    rcases s with _ | ⟨b, m⟩
    · exact ih (by simpa [tick] using h)
    · by_cases hm : m ≤ 1
      · simp only [tick, hm, if_true, List.mem_cons] at h
        rcases h with rfl | h
        · exact ⟨m, by simp⟩
        · obtain ⟨n, hn⟩ := ih h
          exact ⟨n, by simp [hn]⟩
      · simp only [tick, hm, if_false] at h
        obtain ⟨n, hn⟩ := ih h
        exact ⟨n, by simp [hn]⟩

/-! ### Counting -/

/-- How many occupied slots hold a value of this kind. -/
def count (q : α → Bool) (t : Table α) : Nat := (live t).countP fun e => q e.1

theorem count_insert (q : α → Bool) {t t' : Table α} (h : insert a n t = some t') :
    count q t' = count q t + (if q a then 1 else 0) := by
  obtain ⟨xs, ys, hx, hy⟩ := insert_live h
  simp only [count, hx, hy, List.countP_append, List.countP_cons]
  omega

theorem count_remove (q : α → Bool) {t t' : Table α} (h : remove p t = some (a, t')) :
    count q t = count q t' + (if q a then 1 else 0) := by
  obtain ⟨n, xs, ys, hx, hy, _, _⟩ := remove_live h
  simp only [count, hx, hy, List.countP_append, List.countP_cons]
  omega

/-- Nothing is lost on a tick: what leaves the table is listed as expired. -/
theorem count_tick (q : α → Bool) (t : Table α) :
    count q t = count q (tick t).2 + (tick t).1.countP q := by
  induction t with
  | nil => rfl
  | cons s t ih =>
    rcases s with _ | ⟨b, m⟩
    · simpa [count, tick] using ih
    · by_cases hm : m ≤ 1 <;> simp [count, tick, hm, List.countP_cons] at ih ⊢ <;> omega

/-! ### Relabelling the values -/

/-- The same table with every value relabelled. -/
def map (f : α → β) (t : Table α) : Table β := List.map (Option.map fun e => (f e.1, e.2)) t

@[simp] theorem live_map (f : α → β) (t : Table α) :
    live (map f t) = (live t).map fun e => (f e.1, e.2) := by
  induction t with
  | nil => rfl
  | cons s t ih =>
    cases s with
    | none => simpa [map] using ih
    | some e => simpa [map] using ih

theorem insert_map (f : α → β) (a : α) (n : Nat) (t : Table α) :
    insert (f a) n (map f t) = (insert a n t).map (map f) := by
  induction t with
  | nil => rfl
  | cons s t ih =>
    cases s with
    | none => rfl
    | some e =>
      simp only [map, List.map_cons, Option.map_some, insert] at ih ⊢
      rw [ih]
      cases insert a n t <;> rfl

theorem remove_map (f : α → β) (p : β → Bool) (t : Table α) :
    remove p (map f t) = (remove (fun a => p (f a)) t).map fun r => (f r.1, map f r.2) := by
  induction t with
  | nil => rfl
  | cons s t ih =>
    rcases s with _ | ⟨b, n⟩
    · simp only [map, List.map_cons, Option.map_none, remove] at ih ⊢
      rw [ih]
      cases remove (fun a => p (f a)) t <;> rfl
    · simp only [map, List.map_cons, Option.map_some, remove] at ih ⊢
      split
      · rfl
      · rw [ih]
        cases remove (fun a => p (f a)) t <;> rfl

theorem tick_map (f : α → β) (t : Table α) :
    tick (map f t) = ((tick t).1.map f, map f (tick t).2) := by
  induction t with
  | nil => rfl
  | cons s t ih =>
    rcases s with _ | ⟨b, n⟩
    · simp only [map, List.map_cons, Option.map_none, tick] at ih ⊢
      rw [ih]
    · simp only [map, List.map_cons, Option.map_some, tick] at ih ⊢
      rw [ih]
      split <;> rfl

end Slots
