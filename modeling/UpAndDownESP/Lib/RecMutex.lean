import Mathlib.Data.Prod.Basic

/-- A recursive mutex: free, or held by one task that has taken it once more than the
number says. -/
abbrev RecMutex (τ : Type*) := Option (τ × Nat)

namespace RecMutex

variable {τ : Type*}

/-- Without a result the task has to wait. -/
def take [DecidableEq τ] (t : τ) : RecMutex τ → Option (RecMutex τ)
  | none => some (some (t, 0))
  | some (u, n) => if u = t then some (some (t, n + 1)) else none

/-- The owner gives it back once. -/
def give : RecMutex τ → RecMutex τ
  | some (u, n + 1) => some (u, n)
  | _ => none

def HeldBy (m : RecMutex τ) (t : τ) : Prop := ∃ n, m = some (t, n)

/-- The mutex agrees with the tasks on how often each of them has it. -/
def Agrees (m : RecMutex τ) (depth : τ → Nat) : Prop :=
  match m with
  | none => ∀ t, depth t = 0
  | some (u, n) => depth u = n + 1 ∧ ∀ t, t ≠ u → depth t = 0

/-- What one step of a task does to a mutex, with how often the task has it before and
after. -/
inductive Moved [DecidableEq τ] (t : τ) : RecMutex τ → Nat → RecMutex τ → Nat → Prop where
  | stay : Moved t m d m d
  | take : take t m = some m' → Moved t m d m' (d + 1)
  | give : Moved t m (d + 1) (give m) d

variable {m m' : RecMutex τ} {depth depth' : τ → Nat}

theorem Agrees.heldBy_iff (h : Agrees m depth) (t : τ) : HeldBy m t ↔ 0 < depth t := by
  rcases m with _ | ⟨u, n⟩
  · simp [HeldBy, h t]
  · by_cases hu : t = u
    · subst hu
      simp [HeldBy, h.1]
    · have hne : ¬ u = t := fun he => hu he.symm
      simp [HeldBy, h.2 t hu, hne]

/-- Mutual exclusion. -/
theorem Agrees.exclusive (h : Agrees m depth) {t u : τ} (ht : 0 < depth t) (hu : 0 < depth u) :
    t = u := by
  obtain ⟨n, hn⟩ := (h.heldBy_iff t).mpr ht
  obtain ⟨k, hk⟩ := (h.heldBy_iff u).mpr hu
  rw [hn] at hk
  cases hk
  rfl

/-- Nobody has taken or given it back. -/
theorem Agrees.stay (h : Agrees m depth) {t : τ} (hself : depth' t = depth t)
    (hother : ∀ u, u ≠ t → depth' u = depth u) : Agrees m depth' := by
  have he : depth' = depth := by
    funext u
    by_cases hu : u = t
    · rw [hu, hself]
    · exact hother u hu
  rw [he]
  exact h

section
variable [DecidableEq τ]

/-- A task waits exactly while another one has the mutex. -/
theorem blocked_iff (m : RecMutex τ) (t : τ) :
    take t m = none ↔ ∃ u, u ≠ t ∧ HeldBy m u := by
  rcases m with _ | ⟨u, n⟩
  · simp [take, HeldBy]
  · by_cases hu : u = t
    · subst hu
      simp [take, HeldBy]
    · simp [take, HeldBy, hu]

/-- One task has taken it once more, the others have it as often as before. -/
theorem Agrees.take (h : Agrees m depth) {t : τ} (ht : take t m = some m')
    (hself : depth' t = depth t + 1) (hother : ∀ u, u ≠ t → depth' u = depth u) :
    Agrees m' depth' := by
  rcases m with _ | ⟨u, n⟩
  · cases ht
    exact ⟨by rw [hself, h t], fun v hv => (hother v hv).trans (h v)⟩
  · simp only [RecMutex.take] at ht
    split at ht
    · rename_i he
      subst he
      cases ht
      exact ⟨by rw [hself, h.1], fun v hv => (hother v hv).trans (h.2 v hv)⟩
    · cases ht

/-- What a task that does not have it can take is free. -/
theorem Agrees.free (h : Agrees m depth) {t : τ} (ht : RecMutex.take t m = some m')
    (hd : depth t = 0) : m = none := by
  rcases m with _ | ⟨u, n⟩
  · rfl
  · simp only [RecMutex.take] at ht
    split at ht
    · rename_i he
      subst he
      exact absurd h.1 (by omega)
    · cases ht

end

theorem Agrees.give (h : Agrees m depth) {t : τ} (hself : depth t = depth' t + 1)
    (hother : ∀ u, u ≠ t → depth' u = depth u) : Agrees (give m) depth' := by
  obtain ⟨n, rfl⟩ := (h.heldBy_iff t).mpr (by omega)
  have hn : depth' t = n := by
    have := h.1
    omega
  have hrest : ∀ v, v ≠ t → depth' v = 0 := fun v hv => (hother v hv).trans (h.2 v hv)
  cases n with
  | zero =>
    intro v
    by_cases hv : v = t
    · rw [hv, hn]
    · exact hrest v hv
  | succ n => exact ⟨hn, hrest⟩

/-- The rule for a step of one task. -/
theorem Agrees.moved [DecidableEq τ] (h : Agrees m depth) {t : τ}
    (hm : Moved t m (depth t) m' (depth' t)) (hother : ∀ u, u ≠ t → depth' u = depth u) :
    Agrees m' depth' := by
  generalize hd : depth t = d at hm
  generalize hd' : depth' t = d' at hm
  cases hm with
  | stay => exact h.stay (hd'.trans hd.symm) hother
  | take ht => exact h.take ht (by rw [hd', hd]) hother
  | give => exact h.give (by rw [hd, hd']) hother

end RecMutex
