import UpAndDownESP.Proofs.Decoding
import UpAndDownESP.Proofs.ReceiveBuffer
import UpAndDownESP.Proofs.StaleBytes
import UpAndDownESP.Spec.Conversation

namespace UpAndDownESP.Proofs.Conversation
open Receiving Refinement FrameFormat Decoding Events ReceiveBuffer StaleBytes Spec

/-! ### Messages -/

/-- A message that fits is delivered for what it says. -/
theorem deliver_said (p : Parser) (hfit : p.len.toNat ≤ tfMaxPayloadRx) (s : Session) :
    s.deliver (receivedMsg p) = s.deliver (messageOf (said (receivedMsg p))) := by
  have hlen : (p.data.toList.take p.len.toNat).length = p.len.toNat := by
    rw [List.length_take, Vector.length_toList]
    exact Nat.min_eq_left hfit
  have hsame : UInt16.ofNat (p.data.toList.take p.len.toNat).length = p.len := by
    rw [hlen, UInt16.ofNat_toNat]
  apply deliver_same
  refine ⟨?_, p.data.toList, p.data.toList.take p.len.toNat, rfl, rfl, ?_⟩
  · simp only [messageOf, said, receivedMsg, Option.getD_some, hsame]
    rfl
  · change p.data.toList.take p.len.toNat = (p.data.toList.take p.len.toNat).take p.len.toNat
    rw [List.take_take, Nat.min_self]

theorem talk_deliver (s : Session) (msg : TfMsg) : talk (s.deliver msg) = (talk s).deliver msg :=
  (Capacity.deliver_moved msg s _).symm

/-- Messages that fit, delivered in order. -/
theorem deliver_messages (msgs : List TfMsg) (hmsgs : ∀ msg ∈ msgs, ∃ q : Parser,
    msg = receivedMsg q) (hfit : ∀ msg ∈ msgs, msg.len.toNat ≤ tfMaxPayloadRx) (s : Session) :
    talk (msgs.foldl (fun s msg => s.deliver msg) s) =
      Runs.run converse (talk s) ((msgs.map said).map Heard.message) := by
  induction msgs generalizing s with
  | nil => rfl
  | cons msg msgs ih =>
    obtain ⟨q, rfl⟩ := hmsgs msg (by simp)
    have hq := hfit (receivedMsg q) (by simp)
    rw [List.foldl_cons, List.map_cons, List.map_cons, Runs.run_cons,
      ih (fun m hm => hmsgs m (by simp [hm])) (fun m hm => hfit m (by simp [hm])), talk_deliver,
      deliver_said q hq]
    rfl

/-! ### Runs -/

theorem talk_frame {f : Session → Session}
    (hf : ∀ s p, f { s with parser := p } = { f s with parser := p }) (s : Session) :
    talk (f s) = talk (f (talk s)) := by
  have hmoved : f (talk s) = talk (f s) := hf s _
  rw [hmoved]
  rfl

/-- What is not read off the line does not depend on the parser. -/
theorem talk_step (s : Session) (act : Act) (h : ∀ rx, act ≠ .uartRead rx) :
    talk (s.step act) = talk ((talk s).step act) := by
  cases act with
  | mqttInit client =>
    apply talk_frame (f := fun s => s.step (.mqttInit client))
    intro s p
    simp only [Session.step]
    split <;> rfl
  | mqttEvent event =>
    apply talk_frame (f := fun s => s.step (.mqttEvent event))
    intro s p
    simp only [Session.step]
    split
    · exact mqttEvent_frame event s p
    · rfl
  | sendCmd cmd => exact talk_frame (f := fun s => (s.command cmd).2) (command_frame cmd) s
  | sendEstop => rfl
  | heartbeat => exact talk_frame (f := Session.heartbeat) heartbeat_frame s
  | uartRead rx => exact absurd rfl (h rx)
  | tick => rfl

/-- A history that goes on says what it said before, and then what the rest adds. -/
theorem messages_append {p₀ : Parser} (hidle : p₀.state = .sof) (past is : List (Option UInt8)) :
    (messages (past ++ is)).drop (messages past).length =
      (Mealy.run parserStep (Mealy.run parserStep p₀ past).1 is).2.map said := by
  rw [messages, messages, ← history_decodes hidle, ← history_decodes hidle, Mealy.run_append,
    List.map_append, List.drop_left]

theorem read_talk (rx : List UInt8) {s : Session} (hb : Bounded s.parser) :
    talk (s.step (.uartRead rx)) = Runs.run converse (talk s)
      (((Mealy.run parserStep s.parser (rx.map some)).2.map said).map Heard.message) := by
  have hfit := (hb.run (rx.map some)).2
  rw [run_bytes] at hfit ⊢
  change talk (rx.foldl Session.acceptByte s) = _
  rw [Capacity.read_deliver]
  refine deliver_messages _ ?_ hfit s
  intro msg hm
  rw [← run_bytes] at hm
  exact run_msgs msg hm

theorem script_runs (acts : List Act) (past : List (Option UInt8)) {s : Session} {p₀ : Parser}
    (hidle : p₀.state = .sof) (hp : s.parser = (Mealy.run parserStep p₀ past).1) :
    talk (s.run acts) = Runs.run converse (talk s) (script past acts) := by
  induction acts generalizing past s with
  | nil => rfl
  | cons act acts ih =>
    have hnext : (s.step act).parser = (Mealy.run parserStep p₀ (past ++ heard act)).1 := by
      rw [parser_step, hp, Mealy.run_append]
    have hrest := ih (past ++ heard act) hnext
    rw [Session.run, Runs.run_cons]
    have hother : (∀ rx, act ≠ .uartRead rx) →
        talk (s.step act) = converse (talk s) (.act act) := talk_step s act
    cases act with
    | uartRead rx =>
      have hb : Bounded s.parser := by
        rw [hp]
        exact (Bounded.run past (bounded_sof hidle)).1
      rw [script, Runs.run_append, messages_append hidle, ← hp, ← read_talk rx hb]
      exact hrest
    | tick =>
      rw [script, Runs.run_cons, ← hother (by simp)]
      exact hrest
    | mqttInit | mqttEvent | sendCmd | sendEstop | heartbeat =>
      rw [script, Runs.run_cons, ← hother (by simp)]
      · simpa [heard] using hrest
      all_goals simp

/-- Bytes in, callbacks out: apart from its parser the endpoint goes through every run
as if the messages that the whole history of its line says had come in one by one. -/
theorem endpoint_converses (msgIds : Nat → Int) (acts : List Act) :
    talk (session (run (boot msgIds) acts)) =
      Runs.run converse (talk (session (boot msgIds))) (script [] acts) := by
  rw [(run_refines (boot_regular msgIds) acts).1]
  exact script_runs acts [] (parser_boot msgIds) rfl

end UpAndDownESP.Proofs.Conversation
