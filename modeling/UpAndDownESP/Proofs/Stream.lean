import UpAndDownESP.Proofs.Capacity
import UpAndDownESP.Proofs.FrameFormat
import UpAndDownESP.TinyFrame.Peer

namespace UpAndDownESP.Proofs.Stream
open Receiving Sending Refinement Capacity FrameFormat Session

/-! ### The peer is its parser -/

/-- Only the generic listener is there to be called. -/
structure Bare (tf : TinyFrame Unit Empty) : Prop where
  ids : tf.countIdLst = 0
  types : tf.countTypeLst = 0
  generics : tf.genericListeners = [{ fn := some () }, { fn := none }]
  one : tf.countGenericLst = 1

theorem offerToIds_zero (msg : TfMsg) (log : List TfMsg) (slots : List (IdListener Unit Empty)) :
    offerToIds recorder 0 0 msg log slots = (false, slots, 0, log) := by
  cases slots <;> simp [offerToIds]

theorem offerTo_zero {α : Type} (fn : α → Option Unit) (wants : α → Bool) (discard : α → α)
    (msg : TfMsg) (log : List TfMsg) (slots : List α) :
    offerTo recorder fn wants discard 0 0 msg log slots = (false, slots, 0, log) := by
  cases slots <;> simp [offerTo]

theorem bare_receives {tf : TinyFrame Unit Empty} (h : Bare tf) (p : Parser) (log : List TfMsg) :
    tfHandleReceivedMessage recorder tf (receivedMsg p) log = (tf, log ++ [receivedMsg p]) := by
  obtain ⟨peerBit, nextId, parser, tx, ids, types, generics, ci, ct, cg⟩ := tf
  obtain ⟨rfl, rfl, rfl, rfl⟩ := h
  simp only [tfHandleReceivedMessage, offerToIds_zero, offerTo_zero]
  rfl

theorem bare_accept {tf : TinyFrame Unit Empty} (h : Bare tf) (log : List TfMsg) (c : UInt8) :
    tfAcceptChar recorder (tf, log) c =
      ({ tf with parser := (parseChar tf.parser c).1 }, log ++ (parseChar tf.parser c).2.toList) := by
  cases hm : (parseChar tf.parser c).2 with
  | none => simpa using accept_quiet recorder tf log hm
  | some msg =>
    obtain ⟨p, rfl⟩ := parseChar_msg hm
    rw [accept_msg recorder tf log hm]
    have h' : Bare { tf with parser := (parseChar tf.parser c).1 } :=
      ⟨h.ids, h.types, h.generics, h.one⟩
    exact bare_receives h' p log

theorem bare_tick {tf : TinyFrame Unit Empty} (h : Bare tf) (log : List TfMsg) :
    tfTick recorder tf log = ({ tf with parser := tickParser tf.parser }, log) := by
  obtain ⟨peerBit, nextId, parser, tx, ids, types, generics, ci, ct, cg⟩ := tf
  obtain ⟨rfl, rfl, rfl, rfl⟩ := h
  cases ids <;> simp [tfTick, tickIds]

/-- What an action of the peer is to its parser. -/
def inputs : PeerAct → List (Option UInt8)
  | .accept chunk => chunk.map some
  | .tick => [none]

theorem peer_accept (chunk : List UInt8) {tf : TinyFrame Unit Empty} (h : Bare tf)
    (log : List TfMsg) :
    tfAccept recorder tf chunk log =
      ({ tf with parser := (Mealy.run parserStep tf.parser (chunk.map some)).1 },
        log ++ (Mealy.run parserStep tf.parser (chunk.map some)).2) := by
  induction chunk generalizing tf log with
  | nil => simp [tfAccept]
  | cons c chunk ih =>
    have h' : Bare { tf with parser := (parseChar tf.parser c).1 } :=
      ⟨h.ids, h.types, h.generics, h.one⟩
    have := ih h' (log ++ (parseChar tf.parser c).2.toList)
    simp only [tfAccept, List.foldl_cons, bare_accept h log c] at this ⊢
    rw [this, List.map_cons, Mealy.run, List.append_assoc]
    rfl

theorem peer_step {p : Peer} (h : Bare p.tf) (act : PeerAct) :
    peerStep p act =
      ⟨{ p.tf with parser := (Mealy.run parserStep p.tf.parser (inputs act)).1 },
        p.received ++ (Mealy.run parserStep p.tf.parser (inputs act)).2⟩ := by
  cases act with
  | accept chunk => simp only [peerStep, peer_accept chunk h, inputs]
  | tick => simp [peerStep, bare_tick h, inputs, Mealy.run, parserStep]

theorem step_timely {p : Peer} {act : PeerAct} (h : NoTimeout p act) :
    Timely p.tf.parser (inputs act) := by
  cases act with
  | accept chunk => exact chunk_timely chunk h
  | tick => exact ⟨trivial, trivial⟩

/-- What the program can be asked to send. -/
inductive Request where
  | command (cmd : CmdRequest)
  | estop
  | heartbeat

/-- Type and payload; `n` heartbeats have been attempted before. -/
def Request.send (n : Nat) : Request → UInt8 × List UInt8
  | .command cmd => (msgTypeCmd, cmd.bytes)
  | .estop => (msgTypeEstop, [0x01])
  | .heartbeat => (msgTypeHeartbeat, heartbeatText (UInt32.ofNat n))

def Request.beats : Request → Nat
  | .heartbeat => 1
  | .command _ | .estop => 0

/-- What a recognised MQTT command asks for. -/
def mqttRequest : MqttCommand → Request
  | .status => .command getStatusCmd
  | .reset => .command resetCmd
  | .estop => .estop
  | .floor n => .command (moveToFloorCmd n)

/-- The request an action makes, given the MQTT client's statics. -/
def asks (m : Mqtt) : Act → Option Request
  | .mqttEvent event =>
    if m.sMqttClient then
      match (mqttEventHandler event m).2 with
      | some (payload, len) => (parseMqttCommand payload len).map mqttRequest
      | none => none
    else none
  | .sendCmd cmd => some (.command cmd)
  | .sendEstop => some .estop
  | .heartbeat => some .heartbeat
  | .mqttInit _ | .uartRead _ | .tick => none

/-- The requests of a run, in order. -/
def asked (s : Endpoint) : List Act → List Request
  | [] => []
  | act :: acts => (asks s.app.mqtt act).toList ++ asked (step s act) acts

/-! ### What becomes of it -/

/-- A request with the ID of its frame, or with none if the transport refused it. -/
structure Attempt where
  request : Request
  id : Option UInt8

/-- What an attempt leaves in the log: accepted, one write of its one frame; refused, no
byte. -/
def Attempt.log (n : Nat) (a : Attempt) : List WireEvent :=
  let send := a.request.send n
  let transport := match a.id with
    | some id => [.write (Spec.frame (id, send)), .transport send.1 send.2 true]
    | none => [.transport send.1 send.2 false]
  match a.request with
  | .command cmd => transport ++ [.command cmd a.id.isSome]
  | .estop | .heartbeat => transport

/-- The log of attempts one after the other, each heartbeat counted. -/
def logOf : Nat → List Attempt → List WireEvent
  | _, [] => []
  | n, a :: as => a.log n ++ logOf (n + a.request.beats) as

theorem send_length (n : Nat) (r : Request) : (r.send n).2.length ≤ tfMaxPayloadRx := by
  cases r with
  | command cmd => simp [Request.send, cmd.bytes_length, tfMaxPayloadRx]
  | estop => simp [Request.send, tfMaxPayloadRx]
  | heartbeat => exact (heartbeatText_length _).trans (by decide)

/-- A frame of the code is the frame of the request. -/
theorem send_frame (n : Nat) (r : Request) (id : UInt8) :
    frameBytes id (r.send n).1 (r.send n).2 = Spec.frame (id, r.send n) :=
  frameBytes_eq _ _ (Nat.lt_of_le_of_lt (send_length n r) (by decide))

/-- The request is attempted, once. -/
structure Attempts (n : Nat) (r : Request) (s s' : Session) : Prop where
  log : ∃ id, s'.wire = s.wire ++ (Attempt.mk r id).log n
  counter : s'.heartbeatCounter = s.heartbeatCounter + UInt32.ofNat r.beats

theorem ask_wire (q : UInt8 → PendingQuery) (msgType : UInt8) (data : List UInt8) (s : Session) :
    (ask q msgType data s).2.heartbeatCounter = s.heartbeatCounter ∧
    ((ask q msgType data s).1 = false ∧
        (ask q msgType data s).2.wire = s.wire ++ [.transport msgType data false] ∨
      (ask q msgType data s).1 = true ∧ ∃ id, (ask q msgType data s).2.wire =
        s.wire ++ [.write (frameBytes id msgType data), .transport msgType data true]) := by
  cases hi : Slots.insert (q s.ownId) queryTicks s.table with
  | none =>
    rw [ask_none hi]
    exact ⟨rfl, Or.inl ⟨rfl, rfl⟩⟩
  | some t =>
    rw [ask_some hi]
    exact ⟨rfl, Or.inr ⟨rfl, s.ownId, rfl⟩⟩

theorem command_attempts (n : Nat) (s : Session) (cmd : CmdRequest) :
    Attempts n (.command cmd) s (command cmd s).2 := by
  obtain ⟨hc, hw⟩ := ask_wire commandQuery msgTypeCmd cmd.bytes s
  refine ⟨?_, hc.trans (UInt32.add_zero _).symm⟩
  rcases hw with ⟨hok, hw⟩ | ⟨hok, id, hw⟩
  · refine ⟨none, ?_⟩
    simp only [Session.command, hok, hw, List.append_assoc]
    rfl
  · refine ⟨some id, ?_⟩
    have hframe := send_frame n (.command cmd) id
    simp only [Request.send] at hframe
    simp only [Session.command, hok, hw, hframe, List.append_assoc]
    rfl

theorem estop_attempts (n : Nat) (s : Session) : Attempts n .estop s s.estop := by
  refine ⟨⟨some s.ownId, ?_⟩, (UInt32.add_zero _).symm⟩
  have hframe := send_frame n .estop s.ownId
  simp only [Request.send] at hframe
  simp only [Session.estop, sent, hframe]
  rfl

theorem heartbeat_attempts {n : Nat} {s : Session} (h : s.heartbeatCounter = UInt32.ofNat n) :
    Attempts n .heartbeat s s.heartbeat := by
  obtain ⟨hc, hw⟩ := ask_wire heartbeatQuery msgTypeHeartbeat (heartbeatText s.heartbeatCounter)
    { s with heartbeatCounter := s.heartbeatCounter + 1 }
  refine ⟨?_, hc⟩
  rcases hw with ⟨-, hw⟩ | ⟨-, id, hw⟩
  · have hrefused : s.heartbeat.wire =
        s.wire ++ [.transport msgTypeHeartbeat (heartbeatText s.heartbeatCounter) false] := hw
    rw [h] at hrefused
    exact ⟨none, hrefused⟩
  · have hsent : s.heartbeat.wire =
        s.wire ++ [.write (frameBytes id msgTypeHeartbeat (heartbeatText s.heartbeatCounter)),
          .transport msgTypeHeartbeat (heartbeatText s.heartbeatCounter) true] := hw
    have hframe := send_frame n .heartbeat id
    simp only [Request.send] at hframe
    rw [h, hframe] at hsent
    exact ⟨some id, hsent⟩

theorem mqttCommand_attempts (n : Nat) (s : Session) (cmd : MqttCommand) :
    Attempts n (mqttRequest cmd) s (s.onMqttCommand (some cmd)) := by
  cases cmd with
  | status => exact command_attempts n s getStatusCmd
  | reset => exact command_attempts n s resetCmd
  | estop => exact estop_attempts n s
  | floor k => exact command_attempts n s (moveToFloorCmd k)

/-- Nothing is sent. -/
def Quiet (s s' : Session) : Prop :=
  s'.wire = s.wire ∧ s'.heartbeatCounter = s.heartbeatCounter

/-- An action attempts its request and sends nothing else. -/
theorem step_attempts {n : Nat} {s : Session} (h : s.heartbeatCounter = UInt32.ofNat n)
    (act : Act) :
    match asks s.app.mqtt act with
    | some r => Attempts n r s (s.step act)
    | none => Quiet s (s.step act) := by
  cases act with
  | mqttInit client =>
    simp only [asks, Session.step]
    split <;> exact ⟨rfl, rfl⟩
  | mqttEvent event =>
    cases hclient : s.app.mqtt.sMqttClient with
    | false =>
      simp only [asks, Session.step, hclient, Bool.false_eq_true, if_false]
      exact ⟨rfl, rfl⟩
    | true =>
      simp only [asks, Session.step, Session.onMqttEvent, hclient, if_true]
      cases (mqttEventHandler event s.app.mqtt).2 with
      | none => exact ⟨rfl, rfl⟩
      | some call =>
        dsimp only
        -- the statics that the handler changes are none that a send looks at
        cases parseMqttCommand call.1 call.2 with
        | none => exact ⟨rfl, rfl⟩
        | some cmd =>
          have ha := mqttCommand_attempts n
            { s with app := { s.app with mqtt := (mqttEventHandler event s.app.mqtt).1 } } cmd
          exact ⟨ha.log, ha.counter⟩
  | sendCmd cmd => exact command_attempts n s cmd
  | sendEstop => exact estop_attempts n s
  | heartbeat => exact heartbeat_attempts h
  | uartRead rx => exact ⟨(read_output rx s).wire, (read_output rx s).counter⟩
  | tick => exact ⟨rfl, rfl⟩

/-- A run attempts what it is asked for, one request after the other. -/
theorem run_attempts (acts : List Act) {n : Nat} {s : Endpoint} (h : Regular s)
    (hn : s.heartbeatCounter = UInt32.ofNat n) :
    ∃ attempts : List Attempt, attempts.map (·.request) = asked s acts ∧
      (run s acts).wire = s.wire ++ logOf n attempts := by
  induction acts generalizing s n with
  | nil => exact ⟨[], rfl, (List.append_nil _).symm⟩
  | cons act acts ih =>
    obtain ⟨hs, hr⟩ := step_refines h act
    have hstep := step_attempts (s := session s) hn act
    rw [← hs] at hstep
    simp only [asked, Runs.run_cons]
    simp only [session_app] at hstep
    cases hask : asks s.app.mqtt act with
    | none =>
      rw [hask] at hstep
      obtain ⟨attempts, hreq, hw⟩ := ih hr (hstep.2.trans hn)
      exact ⟨attempts, hreq, hw.trans (congrArg (· ++ _) hstep.1)⟩
    | some r =>
      rw [hask] at hstep
      obtain ⟨⟨id, hlog⟩, hc⟩ := hstep
      have hn' : (step s act).heartbeatCounter = UInt32.ofNat (n + r.beats) := by
        rw [UInt32.ofNat_add, ← hn]
        exact hc
      obtain ⟨attempts, hreq, hw⟩ := ih hr hn'
      refine ⟨⟨r, id⟩ :: attempts, congrArg (r :: ·) hreq, ?_⟩
      rw [hw, logOf, ← List.append_assoc]
      exact congrArg (· ++ _) hlog

end UpAndDownESP.Proofs.Stream
