import UpAndDownESP.Spec.Session

namespace UpAndDownESP

/-! The endpoint, a conforming peer and the wire between them, which may lose or delay
frames but keeps their order. Each send has a number, counting all of the endpoint's
frame heads; no code sees it. -/

/-- A frame sent to the peer. -/
structure Request where
  number : Nat
  id : UInt8
  type : UInt8
  payload : List UInt8

/-- A response, under the ID and type of the request it answers. -/
structure Reply where
  request : Request
  payload : List UInt8

/-- A listener that a delivery closed, by the number of the request that registered it,
with the number of the request answered. A command's listener is closed without a call
when the reply is too short for it. -/
structure Closing where
  listener : Nat
  answered : Nat
  called : Bool
deriving DecidableEq

/-- The endpoint, the number of its next send, its pending queries labelled with the
numbers of their requests, the frames on the way to the peer, those the peer has
received, the replies on the way back, and every closing so far. -/
structure Link where
  esp : Endpoint
  number : Nat
  labels : Slots.Table (PendingQuery × Nat)
  down : List Request
  received : List Request
  up : List Reply
  closed : List Closing

inductive Move where
  /-- Anything the endpoint does by itself; its bytes come with the replies. -/
  | own (act : Act)
  /-- The oldest frame on the way to the peer arrives or is lost. -/
  | toPeer (lost : Bool)
  /-- The peer answers the `i`-th request it has received. -/
  | answer (i : Nat) (payload : List UInt8)
  /-- The oldest reply arrives or is lost. -/
  | toEsp (lost : Bool)

/-- What an action asks the transport to send. -/
inductive Send where
  | command (cmd : CmdRequest)
  | estop
  | heartbeat (n : UInt32)

namespace Send

def type : Send → UInt8
  | command _ => msgTypeCmd
  | estop => msgTypeEstop
  | heartbeat _ => msgTypeHeartbeat

def payload : Send → List UInt8
  | command cmd => cmd.bytes
  | estop => [0x01]
  | heartbeat n => heartbeatText n

/-- The query that waits for the reply; an e-stop expects none. -/
def query : Send → Option (UInt8 → PendingQuery)
  | command _ => some Session.commandQuery
  | estop => none
  | heartbeat _ => some Session.heartbeatQuery

def ofMqtt : MqttCommand → Send
  | .status => command getStatusCmd
  | .reset => command resetCmd
  | .estop => estop
  | .floor n => command (moveToFloorCmd n)

end Send

def sendOf (s : Endpoint) : Act → Option Send
  | .sendCmd cmd => some (.command cmd)
  | .sendEstop => some .estop
  | .heartbeat => some (.heartbeat s.heartbeatCounter)
  | .mqttEvent event =>
    if s.app.mqtt.sMqttClient then
      match (mqttEventHandler event s.app.mqtt).2 with
      | some (payload, len) => (parseMqttCommand payload len).map Send.ofMqtt
      | none => none
    else none
  | _ => none

/-- A conforming peer answers queries only, a command by a `cmd_response_t` that echoes
its `cmd_id`. -/
def Conforming (request : Request) (payload : List UInt8) : Prop :=
  payload.length ≤ tfMaxPayloadRx ∧
    (request.type = msgTypeHeartbeat ∨ request.type = msgTypeCmd ∧
      payload.length = sizeofCmdResponse ∧ payload.head? = request.payload.head?)

instance (request : Request) (payload : List UInt8) : Decidable (Conforming request payload) := by
  unfold Conforming
  infer_instance

namespace Link

/-- A send puts its frame on the wire unless it is a query and finds no slot. -/
def send (L : Link) (esp : Endpoint) (snd : Send) : Link :=
  let request : Request := ⟨L.number, composeId L.esp.tf, snd.type, snd.payload⟩
  match snd.query with
  | none => { L with esp := esp, number := L.number + 1, down := L.down ++ [request] }
  | some q =>
    match Slots.insert (q request.id, L.number) Session.queryTicks L.labels with
    | none => { L with esp := esp, number := L.number + 1 }
    | some t =>
      { L with esp := esp, number := L.number + 1, labels := t, down := L.down ++ [request] }

def own (L : Link) (act : Act) : Link :=
  let esp := UpAndDownESP.step L.esp act
  match act with
  | .uartRead _ => L
  | .tick => { L with esp := esp, labels := (Slots.tick L.labels).2 }
  | act =>
    match sendOf L.esp act with
    | none => { L with esp := esp }
    | some snd => L.send esp snd

/-- The whole frame of a reply is read. -/
def deliver (L : Link) (reply : Reply) : Link :=
  let esp := uartRead (frameBytes reply.request.id reply.request.type reply.payload) L.esp
  match Slots.remove (fun l => l.1.id == reply.request.id) L.labels with
  | none => { L with esp := esp }
  | some (l, t) =>
    { L with
      esp := esp
      labels := t
      closed := L.closed ++
        [⟨l.2, reply.request.number, esp.app.calls.length != L.esp.app.calls.length⟩] }

def step (L : Link) : Move → Link
  | .own act => L.own act
  | .toPeer lost =>
    match L.down with
    | [] => L
    | request :: rest =>
      { L with
        down := rest, received := if lost then L.received else L.received ++ [request] }
  | .answer i payload =>
    match L.received[i]? with
    | none => L
    | some request =>
      if Conforming request payload then { L with up := L.up ++ [⟨request, payload⟩] } else L
  | .toEsp lost =>
    match L.up with
    | [] => L
    | reply :: rest =>
      if lost then { L with up := rest } else { L with up := rest }.deliver reply

/-- `MaxComm_Init` has run and the wire is empty. -/
def start (msgIds : Nat → Int) : Link where
  esp := boot msgIds
  number := 0
  labels := List.replicate tfMaxIdLst none
  down := []
  received := []
  up := []
  closed := []

/-- Every listener that a delivery closed, calling back, was the one registered by the
request answered. -/
def Attributed (L : Link) : Prop := ∀ c ∈ L.closed, c.called = true → c.listener = c.answered

/-- No reply is delivered while another request, whose number differs from the answered
one's by a multiple of 128, holds the first slot of all that do. A command there is not
called back on less than a whole response. -/
def Unambiguous (L : Link) : Move → Prop
  | .toEsp false =>
    ∀ reply ∈ L.up.head?, ∀ l ∈ (Slots.live L.labels).find?
        (fun l => l.1.2 % 128 == reply.request.number % 128),
      l.1.2 = reply.request.number ∨
        l.1.1.fn = .cmdResponseListener ∧ reply.payload.length < sizeofCmdResponse
  | _ => True

end Link

end UpAndDownESP
