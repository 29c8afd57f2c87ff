import Mathlib.Data.List.Forall2

namespace Mealy

variable {σ ι ω : Type*} (step : σ → ι → σ × Option ω)

/-- Feed a sequence of inputs; collect the outputs in order. -/
def run : σ → List ι → σ × List ω
  | s, [] => (s, [])
  | s, i :: is => ((run (step s i).1 is).1, (step s i).2.toList ++ (run (step s i).1 is).2)

@[simp] theorem run_nil (s : σ) : run step s [] = (s, []) := rfl

/-- Without its outputs a machine is a fold. -/
theorem run_fst (s : σ) (is : List ι) : (run step s is).1 = is.foldl (fun s i => (step s i).1) s := by
  induction is generalizing s with
  | nil => rfl
  | cons i is ih => exact ih _

theorem run_append (s : σ) (is js : List ι) :
    run step s (is ++ js) =
      ((run step (run step s is).1 js).1, (run step s is).2 ++ (run step (run step s is).1 js).2) := by
  induction is generalizing s with
  | nil => rfl
  | cons i is ih => simp only [List.cons_append, run, ih, List.append_assoc]

/-- Unique decoding. If from an idle state each code word hands up its message
and ends idle, then a concatenation of code words hands up its messages, each
once and in order. -/
theorem run_codes {M V : Type*} (Idle : σ → Prop) (view : ω → V) (value : M → V)
    {code : M → List ι → Prop}
    (hcode : ∀ s m is, Idle s → code m is →
      Idle (run step s is).1 ∧ (run step s is).2.map view = [value m])
    {s : σ} (hs : Idle s) {ms : List M} {iss : List (List ι)} (h : List.Forall₂ code ms iss) :
    Idle (run step s iss.flatten).1 ∧ (run step s iss.flatten).2.map view = ms.map value := by
  induction h generalizing s with
  | nil => exact ⟨hs, rfl⟩
  | @cons m is ms iss hm _ ih =>
    obtain ⟨hi, hv⟩ := hcode s m is hs hm
    obtain ⟨hi', hv'⟩ := ih hi
    rw [List.flatten_cons, run_append]
    exact ⟨hi', by simp [hv, hv']⟩

end Mealy
