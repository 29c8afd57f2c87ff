import Mathlib.Data.List.Basic

namespace Runs

section
variable {σ α : Type*} (step : σ → α → σ)

/-- The state after a sequence of actions, oldest first. -/
def run (s : σ) (as : List α) : σ := as.foldl step s

@[simp] theorem run_nil (s : σ) : run step s [] = s := rfl

@[simp] theorem run_cons (s : σ) (a : α) (as : List α) :
    run step s (a :: as) = run step (step s a) as := rfl

theorem run_append (s : σ) (as bs : List α) :
    run step s (as ++ bs) = run step (run step s as) bs :=
  List.foldl_append

/-- The invariant rule: what every step keeps, every run keeps. -/
theorem invariant {I : σ → Prop} (hstep : ∀ s a, I s → I (step s a)) {s : σ} (hs : I s)
    (as : List α) : I (run step s as) := by
  induction as generalizing s with
  | nil => exact hs
  | cons a as ih => exact ih (hstep s a hs)

/-- The progress rule: a preorder that every step climbs, every run climbs. -/
theorem progress {R : σ → σ → Prop} (hrefl : ∀ s, R s s) (htrans : ∀ s t u, R s t → R t u → R s u)
    (hstep : ∀ s a, R s (step s a)) (s : σ) (as : List α) : R s (run step s as) := by
  induction as generalizing s with
  | nil => exact hrefl s
  | cons a as ih => exact htrans _ _ _ (hstep s a) (ih (step s a))

/-- The two-run rule: what equal steps keep between two states, equal runs keep. -/
theorem related {R : σ → σ → Prop} (hstep : ∀ s t a, R s t → R (step s a) (step t a)) {s t : σ}
    (h : R s t) (as : List α) : R (run step s as) (run step t as) := by
  induction as generalizing s t with
  | nil => exact h
  | cons a as ih => exact ih (hstep s t a h)

/-- The simulation rule: where every step from a state of the invariant is the
abstract step on what the state stands for, so is every run. -/
theorem simulates {τ : Type*} {step' : τ → α → τ} {I : σ → Prop} {abs : σ → τ}
    (hstep : ∀ s a, I s → abs (step s a) = step' (abs s) a ∧ I (step s a)) {s : σ} (hs : I s)
    (as : List α) : abs (run step s as) = run step' (abs s) as ∧ I (run step s as) := by
  induction as generalizing s with
  | nil => exact ⟨rfl, hs⟩
  | cons a as ih =>
    obtain ⟨he, hi⟩ := hstep s a hs
    rw [run_cons, run_cons, ← he]
    exact ih hi

/-- Every action of the run is taken in a state that allows it. -/
def Meets (ok : σ → α → Prop) : σ → List α → Prop
  | _, [] => True
  | s, a :: as => ok s a ∧ Meets ok (step s a) as

theorem Meets.append {ok : σ → α → Prop} {s : σ} {as bs : List α} :
    Meets step ok s (as ++ bs) ↔ Meets step ok s as ∧ Meets step ok (run step s as) bs := by
  induction as generalizing s with
  | nil => simp [Meets]
  | cons a as ih => simp [Meets, ih, and_assoc]

/-- The guarded invariant rule: a step need keep the invariant only where the
run's condition allows it. -/
theorem invariant_of_meets {I : σ → Prop} {ok : σ → α → Prop}
    (hstep : ∀ s a, I s → ok s a → I (step s a)) {s : σ} (hs : I s) {as : List α}
    (hm : Meets step ok s as) : I (run step s as) := by
  induction as generalizing s with
  | nil => exact hs
  | cons a as ih => exact ih (hstep s a hs hm.1) hm.2

/-- Two conditions that agree in the states of an invariant, which what meets the second
of them keeps, are met by the same runs. -/
theorem Meets.iff_of_step {I : σ → Prop} {P ok : σ → α → Prop}
    (hstep : ∀ s a, I s → (P s a ↔ ok s a)) (hI : ∀ s a, I s → ok s a → I (step s a)) {s : σ}
    (hs : I s) (as : List α) : Meets step P s as ↔ Meets step ok s as := by
  induction as generalizing s with
  | nil => exact Iff.rfl
  | cons a as ih =>
    rw [Meets, Meets, hstep s a hs]
    exact and_congr_right fun ho => ih (hI s a hs ho)

/-- The property holds in every state the run passes, both ends included. -/
def Along (P : σ → Prop) : σ → List α → Prop
  | s, [] => P s
  | s, a :: as => P s ∧ Along P (step s a) as

theorem Along.first {P : σ → Prop} {s : σ} {as : List α} (h : Along step P s as) : P s := by
  cases as with
  | nil => exact h
  | cons a as => exact h.1

theorem Along.last {P : σ → Prop} {s : σ} {as : List α} (h : Along step P s as) :
    P (run step s as) := by
  induction as generalizing s with
  | nil => exact h
  | cons a as ih => exact ih h.2

/-- A property holds along a run exactly when it holds after every prefix. -/
theorem along_iff_prefix {P : σ → Prop} {s : σ} {as : List α} :
    Along step P s as ↔ ∀ bs cs, as = bs ++ cs → P (run step s bs) := by
  induction as generalizing s with
  | nil =>
    constructor
    · intro h bs cs he
      obtain ⟨rfl, _⟩ := List.append_eq_nil_iff.mp he.symm
      exact h
    · intro h
      exact h [] [] rfl
  | cons a as ih =>
    constructor
    · rintro ⟨hs, ht⟩ bs cs he
      cases bs with
      | nil => exact hs
      | cons b bs =>
        obtain ⟨rfl, rfl⟩ := List.cons.inj he
        exact ih.mp ht bs cs rfl
    · intro h
      refine ⟨h [] _ rfl, ih.mpr ?_⟩
      intro bs cs he
      exact h (a :: bs) cs (by rw [he]; rfl)

/-- Where one step keeps the property exactly when the condition allows the
step, a run keeps it throughout exactly when all its steps are allowed. -/
theorem along_iff_meets {I P : σ → Prop} {ok : σ → α → Prop}
    (hI : ∀ s a, I s → I (step s a))
    (hstep : ∀ s a, I s → P s → (P (step s a) ↔ ok s a)) {s : σ} (hs : I s) (hp : P s)
    (as : List α) : Along step P s as ↔ Meets step ok s as := by
  induction as generalizing s with
  | nil => exact ⟨fun _ => trivial, fun _ => hp⟩
  | cons a as ih =>
    constructor
    · rintro ⟨_, ht⟩
      have hp' := ht.first step
      exact ⟨(hstep s a hs hp).mp hp', (ih (hI s a hs) hp').mp ht⟩
    · rintro ⟨ho, hm⟩
      have hp' := (hstep s a hs hp).mpr ho
      exact ⟨hp, (ih (hI s a hs) hp').mpr hm⟩

end

end Runs
