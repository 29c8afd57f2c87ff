import Mathlib.Algebra.Order.BigOperators.Group.List
import UpAndDownESP.Proofs.Grammar
import UpAndDownESP.System.Delivery

namespace UpAndDownESP.Proofs.Delivery
open Commands Grammar

/-- `mqtt_init` has set the command topic and the command handler. -/
structure Listening (m : Mqtt) : Prop where
  topic : m.sTopicCmd = some mqttTopicCmd
  handler : m.sCmdHandler = true

theorem listening_of_init (client : Bool) (m : Mqtt) :
    Listening (mqttInit mqttTopicEvents mqttTopicCmd client m) := ⟨rfl, rfl⟩

/-- The messages do what their complete payloads say: the endpoint ends as if the command
handler had been given these, it acts on no other text, and on no message twice. -/
structure Faithful (s : Endpoint) (messages : List Publish) : Prop where
  effect : deliver s messages = executeAll s messages
  whole : ∀ p ∈ messages, ∀ call ∈ handlerCalls s.app.mqtt p.events,
    parseMqttCommand call.1 call.2 ≠ none → call.1.take call.2 = p.payload
  once : ∀ p ∈ messages, (handlerCalls s.app.mqtt p.events).length ≤ 1

/-! ### What the handler does with one message -/

theorem isCommandTopic_iff {m : Mqtt} (h : Listening m) (topic behind : List UInt8) :
    isCommandTopic m (topic ++ behind) topic.length = true ↔ topic = mqttTopicCmd := by
  have hno : (0 : UInt8) ∉ mqttTopicCmd := by decide
  simp only [isCommandTopic, h.topic, h.handler, Bool.true_and, Bool.and_eq_true, beq_iff_eq,
    strncmp_keyword hno]
  constructor
  · rintro ⟨hlen, hpre | hnul⟩
    · exact hpre.eq_of_length hlen
    · have := hnul.length_le
      rw [List.length_append, List.length_singleton] at this
      omega
  · intro he
    subst he
    exact ⟨rfl, Or.inl (List.prefix_refl _)⟩

/-- An event without a topic is not for the command handler. -/
theorem isCommandTopic_empty {m : Mqtt} (h : Listening m) : isCommandTopic m [] 0 = false := by
  rw [Bool.eq_false_iff]
  intro hc
  exact absurd ((isCommandTopic_iff h [] []).mp hc) (by decide)

theorem onMqttCommand_app (payload : List UInt8) (len : Nat) (s : Endpoint) :
    (maxCommOnMqttCommand payload len s).app = s.app := by
  unfold maxCommOnMqttCommand
  split <;> rfl

theorem onMqttEvent_data (topic : List UInt8) (topicLen : Nat) (data : List UInt8)
    (dataLen offset total : Nat) (s : Endpoint) :
    onMqttEvent (.data topic topicLen data dataLen offset total) s =
      if isCommandTopic s.app.mqtt topic topicLen then maxCommOnMqttCommand data dataLen s
      else s := by
  simp only [onMqttEvent, mqttEventHandler]
  by_cases h : isCommandTopic s.app.mqtt topic topicLen = true
  · rw [if_pos h, if_pos h]
  · rw [if_neg h, if_neg h]

/-- The events after the first change nothing. -/
theorem handle_later {s : Endpoint} (h : Listening s.app.mqtt) (total offset : Nat)
    (fs : List Fragment) : handleEvents s (laterEvents total offset fs) = s := by
  induction fs generalizing offset with
  | nil => rfl
  | cons f fs ih =>
    have hstep : onMqttEvent (.data [] 0 (f.bytes ++ f.behind) f.bytes.length offset total) s = s := by
      rw [onMqttEvent_data, isCommandTopic_empty h]
      rfl
    rw [laterEvents, handleEvents, List.foldl_cons, hstep]
    exact ih _

theorem calls_cons (m : Mqtt) (e : MqttEvent) (es : List MqttEvent) :
    handlerCalls m (e :: es) = (mqttEventHandler e m).2.toList ++ handlerCalls m es := by
  rw [handlerCalls, List.filterMap_cons]
  cases (mqttEventHandler e m).2 <;> rfl

theorem calls_later {m : Mqtt} (h : Listening m) (total offset : Nat) (fs : List Fragment) :
    handlerCalls m (laterEvents total offset fs) = [] := by
  induction fs generalizing offset with
  | nil => rfl
  | cons f fs ih =>
    rw [laterEvents, calls_cons, ih]
    simp [mqttEventHandler, isCommandTopic_empty h]

/-- A message on the command topic is handled as its first fragment, and no more. -/
theorem handle_message {s : Endpoint} (h : Listening s.app.mqtt) (p : Publish) :
    handleEvents s p.events =
      if p.topic = mqttTopicCmd then
        maxCommOnMqttCommand (p.first.bytes ++ p.first.behind) p.first.bytes.length s
      else s := by
  rw [Publish.events, handleEvents, List.foldl_cons, onMqttEvent_data]
  simp only [isCommandTopic_iff h]
  apply handle_later
  split
  · rw [onMqttCommand_app]
    exact h
  · exact h

theorem calls_message {m : Mqtt} (h : Listening m) (p : Publish) :
    handlerCalls m p.events =
      if p.topic = mqttTopicCmd then [(p.first.bytes ++ p.first.behind, p.first.bytes.length)]
      else [] := by
  rw [Publish.events, calls_cons, calls_later h]
  simp only [mqttEventHandler, isCommandTopic_iff h]
  by_cases ht : p.topic = mqttTopicCmd
  · simp [ht]
  · simp [ht]

/-! ### Messages in pieces -/

/-- The first event carries the whole payload. -/
def InOnePiece (p : Publish) : Prop := p.first.bytes = p.payload

/-- Neither the first fragment nor the payload is recognised as a command. -/
def Inert (p : Publish) : Prop :=
  (¬ ∃ k ∈ keywords, TakenFor p.first.bytes k) ∧ ¬ FloorForm p.payload

/-- The command the handler is given the first fragment of, and the one that was sent. -/
def commandRun (p : Publish) : Option MqttCommand :=
  if p.topic = mqttTopicCmd then
    parseMqttCommand (p.first.bytes ++ p.first.behind) p.first.bytes.length
  else none

def commandSent (p : Publish) : Option MqttCommand :=
  if p.topic = mqttTopicCmd then
    parseMqttCommand (p.payload ++ p.first.behind) p.payload.length
  else none

/-- A payload that is taken for a keyword is so from its first fragment on. -/
theorem taken_of_append {f g k : List UInt8} (h : TakenFor (f ++ g) k) : TakenFor f k := by
  rcases h with hpre | hnul
  · exact Or.inl ((List.prefix_append f g).trans hpre)
  · rcases List.prefix_or_prefix_of_prefix (List.prefix_append f g) hnul with hf | hf
    · rcases List.prefix_concat_iff.mp hf with he | hf
      · exact Or.inr (he ▸ List.prefix_refl _)
      · exact Or.inl hf
    · exact Or.inr hf

theorem floorForm_append {f : List UInt8} (h : FloorForm f) (g : List UInt8) :
    FloorForm (f ++ g) := by
  refine ⟨h.1.trans (List.prefix_append f g), ?_⟩
  rw [List.length_append]
  exact Nat.lt_add_right _ h.2

/-- An inert message is one of which neither the piece nor the whole is a command. -/
theorem inert_iff (p : Publish) :
    Inert p ↔ parseMqttCommand (p.first.bytes ++ p.first.behind) p.first.bytes.length = none ∧
      parseMqttCommand (p.payload ++ p.first.behind) p.payload.length = none := by
  rw [parse_none_iff, parse_none_iff]
  constructor
  · intro h
    refine ⟨⟨h.1, fun hf => h.2 (floorForm_append hf _)⟩, ?_, h.2⟩
    intro ht
    obtain ⟨k, hk, ht⟩ := ht
    exact h.1 ⟨k, hk, taken_of_append ht⟩
  · intro h
    exact ⟨h.1.1, h.2.2⟩

/-! ### Whole deliveries -/

theorem listening_message {s : Endpoint} (h : Listening s.app.mqtt) (p : Publish) :
    Listening (handleEvents s p.events).app.mqtt := by
  rw [handle_message h]
  split
  · rw [onMqttCommand_app]
    exact h
  · exact h

theorem deliver_cons (s : Endpoint) (p : Publish) (ps : List Publish) :
    deliver s (p :: ps) = deliver (handleEvents s p.events) ps := by
  simp [deliver, handleEvents]

theorem message_requests {s : Endpoint} (h : Listening s.app.mqtt) (p : Publish) :
    requests (handleEvents s p.events) = requests s ++ (commandRun p).toList.map request := by
  rw [handle_message h, commandRun]
  by_cases ht : p.topic = mqttTopicCmd
  · rw [if_pos ht, if_pos ht, onMqttCommand_requests]
  · rw [if_neg ht, if_neg ht]
    simp

theorem whole_requests (s : Endpoint) (p : Publish) :
    requests (executeWhole s p) = requests s ++ (commandSent p).toList.map request := by
  rw [executeWhole, commandSent]
  by_cases ht : p.topic = mqttTopicCmd
  · rw [if_pos ht, if_pos ht, onMqttCommand_requests]
  · rw [if_neg ht, if_neg ht]
    simp

theorem deliver_requests {s : Endpoint} (h : Listening s.app.mqtt) (ps : List Publish) :
    requests (deliver s ps) =
      requests s ++ ps.flatMap fun p => (commandRun p).toList.map request := by
  induction ps generalizing s with
  | nil => simp [deliver, handleEvents]
  | cons p ps ih =>
    rw [deliver_cons, ih (listening_message h p), message_requests h, List.flatMap_cons,
      List.append_assoc]

theorem execute_requests (s : Endpoint) (ps : List Publish) :
    requests (executeAll s ps) =
      requests s ++ ps.flatMap fun p => (commandSent p).toList.map request := by
  induction ps generalizing s with
  | nil => simp [executeAll]
  | cons p ps ih =>
    have hcons : executeAll s (p :: ps) = executeAll (executeWhole s p) ps := rfl
    rw [hcons, ih, whole_requests, List.flatMap_cons, List.append_assoc]

/-- Where no message runs more than was sent, and as much is run as was sent, each message
runs as much as was sent. -/
theorem each_of_total {ps : List Publish}
    (hle : ∀ p ∈ ps, (commandRun p).toList.length ≤ (commandSent p).toList.length)
    (h : (ps.flatMap fun p => (commandRun p).toList.map request) =
      ps.flatMap fun p => (commandSent p).toList.map request) :
    ∀ p ∈ ps, (commandSent p).toList.length ≤ (commandRun p).toList.length := by
  intro p hp
  by_contra hlt
  have hsum := List.sum_lt_sum (fun p => (commandRun p).toList.length)
    (fun p => (commandSent p).toList.length) hle ⟨p, hp, Nat.lt_of_not_le hlt⟩
  have hlen := congrArg List.length h
  simp only [List.length_flatMap, List.length_map] at hlen
  exact absurd hlen (Nat.ne_of_lt hsum)

/-- A message that runs a command runs it from the complete payload. -/
theorem Faithful.run_whole {s : Endpoint} (hf : Faithful s ps) (h : Listening s.app.mqtt)
    {p : Publish} (hp : p ∈ ps) (hrun : commandRun p ≠ none) : InOnePiece p := by
  have hwhole := hf.whole p hp
  rw [calls_message h] at hwhole
  unfold commandRun at hrun
  by_cases ht : p.topic = mqttTopicCmd
  · rw [if_pos ht] at hrun hwhole
    have hcall := hwhole _ (List.mem_singleton_self _) hrun
    rwa [List.take_left] at hcall
  · rw [if_neg ht] at hrun
    exact absurd rfl hrun

theorem commandRun_onePiece (h : InOnePiece p) : commandRun p = commandSent p := by
  unfold InOnePiece at h
  rw [commandRun, commandSent, h]

/-- Messages do what their complete payloads say just when every message on the command
topic comes whole in its first event, or has nothing to be recognised in that event nor
in all of it. -/
theorem delivery_faithful_iff {s : Endpoint} (h : Listening s.app.mqtt) (ps : List Publish) :
    Faithful s ps ↔ ∀ p ∈ ps, p.topic = mqttTopicCmd → InOnePiece p ∨ Inert p := by
  constructor
  · intro hf p hp ht
    by_cases hone : InOnePiece p
    · exact Or.inl hone
    · have hreq := congrArg requests hf.effect
      rw [deliver_requests h, execute_requests] at hreq
      have hle : ∀ p ∈ ps, (commandRun p).toList.length ≤ (commandSent p).toList.length := by
        intro q hq
        by_cases hrun : commandRun q = none
        · simp [hrun]
        · rw [commandRun_onePiece (hf.run_whole h hq hrun)]
      have hrun : commandRun p = none := by
        by_contra hrun
        exact hone (hf.run_whole h hp hrun)
      have hsent : commandSent p = none := by
        have := each_of_total hle (List.append_cancel_left hreq) p hp
        simpa [hrun] using this
      rw [commandRun, if_pos ht] at hrun
      rw [commandSent, if_pos ht] at hsent
      exact Or.inr ((inert_iff p).mpr ⟨hrun, hsent⟩)
  · intro hok
    refine ⟨?_, ?_, ?_⟩
    · induction ps generalizing s with
      | nil => rfl
      | cons p ps ih =>
        have hstep : handleEvents s p.events = executeWhole s p := by
          rw [handle_message h, executeWhole]
          by_cases ht : p.topic = mqttTopicCmd
          · rw [if_pos ht, if_pos ht]
            rcases hok p (by simp) ht with hone | hinert
            · unfold InOnePiece at hone
              rw [← hone]
            · obtain ⟨hrun, hsent⟩ := (inert_iff p).mp hinert
              simp only [maxCommOnMqttCommand, hrun, hsent]
          · rw [if_neg ht, if_neg ht]
        have hlisten := listening_message h p
        rw [deliver_cons]
        rw [hstep] at hlisten ⊢
        exact ih hlisten fun q hq => hok q (by simp [hq])
    · intro p hp call hcall hparse
      rw [calls_message h] at hcall
      by_cases ht : p.topic = mqttTopicCmd
      · rw [if_pos ht, List.mem_singleton] at hcall
        subst hcall
        rcases hok p hp ht with hone | hinert
        · rw [List.take_left]
          exact hone
        · exact absurd ((inert_iff p).mp hinert).1 hparse
      · rw [if_neg ht] at hcall
        cases hcall
    · intro p hp
      rw [calls_message h]
      split <;> simp

/-- The broker is connected, nothing has been sent. -/
def listening : Endpoint := run (boot fun _ => 0) [.mqttInit true, .mqttEvent .connected]

/-- A status command in one event. -/
def wholeStatus : Publish where
  topic := mqttTopicCmd
  behindTopic := []
  first := ⟨ascii "status", []⟩
  others := []

/-- No command, in two events. -/
def splitNote : Publish where
  topic := mqttTopicCmd
  behindTopic := []
  first := ⟨ascii "hel", []⟩
  others := [⟨ascii "lo", []⟩]

theorem status_and_note_faithful : Faithful listening [wholeStatus, splitNote] := by
  apply (delivery_faithful_iff ⟨rfl, rfl⟩ [wholeStatus, splitNote]).mpr
  intro p hp _
  simp only [List.mem_cons, List.not_mem_nil, or_false] at hp
  rcases hp with rfl | rfl
  · exact Or.inl rfl
  · exact Or.inr ⟨by decide, by decide⟩

/-- A request for floor 12 that is split before its last byte. -/
def splitFloor : Publish where
  topic := mqttTopicCmd
  behindTopic := []
  first := ⟨ascii "floor:1", []⟩
  others := [⟨ascii "2", []⟩]

/-- It is carried out as one for floor 1. -/
theorem split_floor_unfaithful : ¬ Faithful listening [splitFloor] := by
  intro hf
  have hreq := congrArg requests hf.effect
  rw [deliver_requests ⟨rfl, rfl⟩, execute_requests] at hreq
  have hrun : commandRun splitFloor = some (.floor 1) := by decide
  have hsent : commandSent splitFloor = some (.floor 12) := by decide
  have hsame := List.append_cancel_left hreq
  rw [List.flatMap_singleton, List.flatMap_singleton, hrun, hsent] at hsame
  exact absurd (request_injective (List.cons.inj hsame).1) (by decide)

end UpAndDownESP.Proofs.Delivery
