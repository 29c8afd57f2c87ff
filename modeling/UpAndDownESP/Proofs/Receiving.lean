import UpAndDownESP.Lib.Mealy
import UpAndDownESP.Lib.Runs
import UpAndDownESP.Proofs.Table
import UpAndDownESP.TinyFrame.Parser

namespace UpAndDownESP.Proofs.Receiving
open Table

variable {L T σ : Type}

/-! ### Type and generic listeners -/

theorem offerTo_none {α : Type} (cb : Callbacks L T σ) {fn : α → Option L} {wants : α → Bool}
    (discard : α → α) (msg : TfMsg) (a : σ) {slots : List α}
    (h : ∀ lst ∈ slots, fn lst = none ∨ wants lst = false) :
    offerTo cb fn wants discard i count msg a slots = (false, slots, count, a) := by
  induction slots generalizing i with
  | nil => rfl
  | cons lst rest ih =>
    have hr := ih (i := i + 1) (fun x hx => h x (by simp [hx]))
    by_cases hi : i < count
    · rcases h lst (by simp) with hn | hw
      · simp [offerTo, hi, hn, hr]
      · cases hf : fn lst <;> simp [offerTo, hi, hf, hw, hr]
    · simp [offerTo, hi]

/-- A listener that stays is called and nothing else happens. -/
theorem offerTo_stay {α : Type} (cb : Callbacks L T σ) (fn : α → Option L) (wants : α → Bool)
    (discard : α → α) (msg : TfMsg) (a : σ) (hi : i < count) (lst : α) (rest : List α)
    (hf : fn lst = some f) (hw : wants lst = true) (hs : (cb.fn f msg a).1 = .stay) :
    offerTo cb fn wants discard i count msg a (lst :: rest) =
      (true, lst :: rest, count, (cb.fn f msg a).2) := by
  cases hr : cb.fn f msg a with
  | mk res b =>
    rw [hr] at hs
    dsimp only at hs
    subst hs
    simp [offerTo, hi, hf, hw, hr]

/-! ### One byte -/

theorem accept_quiet (cb : Callbacks L T σ) (tf : TinyFrame L T) (a : σ) {c : UInt8}
    (h : (parseChar tf.parser c).2 = none) :
    tfAcceptChar cb (tf, a) c = ({ tf with parser := (parseChar tf.parser c).1 }, a) := by
  simp only [tfAcceptChar]
  split
  · rename_i hp
    rw [hp]
  · rename_i hp
    rw [hp] at h
    cases h

theorem accept_msg (cb : Callbacks L T σ) (tf : TinyFrame L T) (a : σ) {c : UInt8} {msg : TfMsg}
    (h : (parseChar tf.parser c).2 = some msg) :
    tfAcceptChar cb (tf, a) c =
      tfHandleReceivedMessage cb { tf with parser := (parseChar tf.parser c).1 } msg a := by
  simp only [tfAcceptChar]
  split
  · rename_i hp
    rw [hp] at h
    cases h
  · rename_i hp
    rw [hp] at h ⊢
    cases h
    rfl

/-- Every message handed up points at the receive buffer and carries no userdata. -/
theorem parseChar_msg {p : Parser} {c : UInt8} {msg : TfMsg} (h : (parseChar p c).2 = some msg) :
    ∃ q : Parser, msg = receivedMsg q := by
  simp only [parseChar] at h
  generalize (if tfParserTimeoutTicks ≤ p.parserTimeoutTicks ∧ p.state ≠ .sof then
    tfResetParser p else p) = q at h
  unfold parseByte at h
  split at h
  all_goals try contradiction
  all_goals dsimp only at h
  all_goals repeat' first | contradiction | split at h
  all_goals exact ⟨_, (Option.some.inj h).symm⟩

end UpAndDownESP.Proofs.Receiving
