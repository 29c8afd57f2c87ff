import Mathlib.Data.List.Chain
import Mathlib.Data.List.Induction

/-! An action repeated at a minimum interval by a task that wakes now and then, and the
clock, possibly one that wraps around, that the task tells the time by. -/
namespace Pacing

/-- The wake-ups that act: those at least `interval` after the last that did, or after the
start. -/
def fires (interval start : Nat) (wakes : List Nat) : List Nat :=
  wakes.foldl (fun fs t => if interval ≤ t - fs.getLastD start then fs ++ [t] else fs) []

def lastFire (interval start : Nat) (wakes : List Nat) : Nat :=
  (fires interval start wakes).getLastD start

/-- The wake-ups follow one another in time, and each soon enough. -/
def Spaced (gap start : Nat) (wakes : List Nat) : Prop :=
  List.IsChain (fun a b => a ≤ b ∧ b - a < gap) (start :: wakes)

variable {interval gap start : Nat} {wakes : List Nat} {t : Nat}

theorem fires_snoc (interval start : Nat) (wakes : List Nat) (t : Nat) :
    fires interval start (wakes ++ [t]) =
      fires interval start wakes ++
        if interval ≤ t - lastFire interval start wakes then [t] else [] := by
  rw [fires, List.foldl_append, List.foldl_cons, List.foldl_nil]
  change (if interval ≤ t - lastFire interval start wakes then
    fires interval start wakes ++ [t] else fires interval start wakes) = _
  by_cases hdue : interval ≤ t - lastFire interval start wakes
  · rw [if_pos hdue, if_pos hdue]
  · rw [if_neg hdue, if_neg hdue, List.append_nil]

theorem lastFire_snoc (interval start : Nat) (wakes : List Nat) (t : Nat) :
    lastFire interval start (wakes ++ [t]) =
      if interval ≤ t - lastFire interval start wakes then t
      else lastFire interval start wakes := by
  rw [lastFire, fires_snoc]
  split
  · exact List.getLastD_concat
  · rw [List.append_nil]
    rfl

theorem spaced_snoc :
    Spaced gap start (wakes ++ [t]) ↔
      Spaced gap start wakes ∧ wakes.getLastD start ≤ t ∧ t - wakes.getLastD start < gap := by
  have hlast : (start :: wakes).getLast? = some (wakes.getLastD start) := by
    rw [List.getLast?_cons, List.getLastD_eq_getLast?]
  rw [Spaced, ← List.cons_append, List.isChain_append, hlast]
  simp [Spaced]

/-- The last action was at the last wake-up or is less than an interval before it. -/
theorem lastFire_recent (interval : Nat) (h : Spaced gap start wakes) :
    lastFire interval start wakes ≤ wakes.getLastD start ∧
      (lastFire interval start wakes = wakes.getLastD start ∨
        wakes.getLastD start - lastFire interval start wakes < interval) := by
  induction wakes using List.reverseRecOn with
  | nil => exact ⟨Nat.le_refl _, Or.inl rfl⟩
  | append_singleton wakes t ih =>
    obtain ⟨hs, hle, _⟩ := spaced_snoc.mp h
    obtain ⟨hbefore, _⟩ := ih hs
    rw [lastFire_snoc, List.getLastD_concat]
    split
    · exact ⟨Nat.le_refl _, Or.inl rfl⟩
    · rename_i hearly
      exact ⟨Nat.le_trans hbefore hle, Or.inr (Nat.lt_of_not_le hearly)⟩

/-- No two actions are closer than the interval, nor is the first to the start. -/
theorem fires_apart (h : Spaced gap start wakes) :
    List.IsChain (fun a b => a + interval ≤ b) (start :: fires interval start wakes) := by
  induction wakes using List.reverseRecOn with
  | nil => exact List.isChain_singleton _
  | append_singleton wakes t ih =>
    obtain ⟨hs, hle, _⟩ := spaced_snoc.mp h
    have hbefore := (lastFire_recent interval hs).1
    rw [fires_snoc]
    split
    · rename_i hdue
      have hlast : (start :: fires interval start wakes).getLast? =
          some (lastFire interval start wakes) := by
        rw [List.getLast?_cons, lastFire, List.getLastD_eq_getLast?]
      rw [← List.cons_append, List.isChain_append, hlast]
      refine ⟨ih hs, List.isChain_singleton _, ?_⟩
      intro a ha b hb
      cases ha
      cases hb
      omega
    · rw [List.append_nil]
      exact ih hs

section
variable {C : Type*} (read : Nat → C) (elapsed : C → C → Nat) (modulus : Nat)

/-- A clock that measures what is shorter than one turn of it. -/
def MeasuresTurn : Prop := ∀ a b, a ≤ b → b - a < modulus → elapsed (read b) (read a) = b - a

/-- If the task wakes often enough, its clock is right about the time since the last
action at every wake-up. -/
theorem elapsed_since_fire (hclock : MeasuresTurn read elapsed modulus)
    (h : Spaced (modulus - interval) start (wakes ++ [t])) :
    elapsed (read t) (read (lastFire interval start wakes)) =
      t - lastFire interval start wakes := by
  obtain ⟨hs, hle, hgap⟩ := spaced_snoc.mp h
  obtain ⟨hbefore, hrecent⟩ := lastFire_recent interval hs
  apply hclock
  · exact Nat.le_trans hbefore hle
  · omega

end

end Pacing
