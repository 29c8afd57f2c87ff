import UpAndDownESP.App.Endpoint
import UpAndDownESP.Proofs.Table

namespace UpAndDownESP
open Proofs.Table

/-! What the endpoint is for, without its bookkeeping: there is no send buffer and
no lock, a query is pending or not, and nothing depends on how high the slots were
filled. -/

abbrev PendingQuery := Query Listener TimeoutListener

structure Session where
  nextId : UInt8
  heartbeatCounter : UInt32
  parser : Parser
  table : Slots.Table PendingQuery
  wire : List WireEvent
  app : App

/-- What of the endpoint's state is kept. -/
def session (s : Endpoint) : Session where
  nextId := s.tf.nextId
  heartbeatCounter := s.heartbeatCounter
  parser := s.tf.parser
  table := view s.tf.idListeners
  wire := s.wire
  app := s.app

@[simp] theorem parser_session (s : Endpoint) : (session s).parser = s.tf.parser := rfl
@[simp] theorem session_table (s : Endpoint) : (session s).table = view s.tf.idListeners := rfl
@[simp] theorem session_wire (s : Endpoint) : (session s).wire = s.wire := rfl
@[simp] theorem session_app (s : Endpoint) : (session s).app = s.app := rfl

/-- The queries that wait for an answer, each with its remaining ticks: the listener
slots with a function. -/
def pending (s : Endpoint) : List (PendingQuery × Nat) := Slots.live (view s.tf.idListeners)

namespace Session

/-- The ID of the next frame: the master's have the top bit set. -/
def ownId (s : Session) : UInt8 := s.nextId &&& 0x7f ||| 0x80

def commandQuery (id : UInt8) : PendingQuery := ⟨id, .cmdResponseListener, some .cmdTimeoutListener⟩

def heartbeatQuery (id : UInt8) : PendingQuery :=
  ⟨id, .heartbeatResponseListener, some .heartbeatTimeoutListener⟩

/-- How long either kind of query may take. -/
def queryTicks : Nat := 500

/-- Log one frame and the sender's result. -/
def sent (s : Session) (msgType : UInt8) (data : List UInt8) : Session :=
  { s with
    nextId := s.nextId + 1
    wire := s.wire ++ [.write (frameBytes s.ownId msgType data), .transport msgType data true] }

/-- A query needs a free slot; without one it only uses up an ID. -/
def ask (q : UInt8 → PendingQuery) (msgType : UInt8) (data : List UInt8) (s : Session) :
    Bool × Session :=
  match Slots.insert (q s.ownId) queryTicks s.table with
  | none => (false, { s with
      nextId := s.nextId + 1, wire := s.wire ++ [.transport msgType data false] })
  | some t => (true, { s.sent msgType data with table := t })

def heartbeat (s : Session) : Session :=
  (ask heartbeatQuery msgTypeHeartbeat (heartbeatText s.heartbeatCounter)
    { s with heartbeatCounter := s.heartbeatCounter + 1 }).2

def command (cmd : CmdRequest) (s : Session) : Bool × Session :=
  let r := ask commandQuery msgTypeCmd cmd.bytes s
  (r.1, { r.2 with wire := r.2.wire ++ [.command cmd r.1] })

def estop (s : Session) : Session := s.sent msgTypeEstop [1]

/-- The application as a query's listener leaves it. -/
def answer (q : PendingQuery) (msg : TfMsg) (a : App) : App :=
  ((callbacks protoCfg).fn q.fn msg a).2

/-- A message closes the first query waiting for its ID; failing that, an event
reaches the event listener and anything else is dropped. -/
def deliver (msg : TfMsg) (s : Session) : Session :=
  match Slots.remove (awaits msg) s.table with
  | some (q, t) => { s with table := t, app := answer q msg s.app }
  | none =>
    if msg.type = msgTypeEvent then { s with app := (eventListener protoCfg msg s.app).2 } else s

def acceptByte (s : Session) (c : UInt8) : Session :=
  let r := parseChar s.parser c
  match r.2 with
  | none => { s with parser := r.1 }
  | some msg => deliver msg { s with parser := r.1 }

/-- Every pending query loses a tick; those without any left time out. -/
def tick (s : Session) : Session :=
  { s with
    parser := tickParser s.parser
    table := (Slots.tick s.table).2
    app := (Slots.tick s.table).1.foldl (expire (callbacks protoCfg)) s.app }

def onMqttCommand (cmd : Option MqttCommand) (s : Session) : Session :=
  match cmd with
  | some .status => (command getStatusCmd s).2
  | some .reset => (command resetCmd s).2
  | some .estop => estop s
  | some (.floor n) => (command (moveToFloorCmd n) s).2
  | none => s

def onMqttEvent (event : MqttEvent) (s : Session) : Session :=
  let r := mqttEventHandler event s.app.mqtt
  let s := { s with app := { s.app with mqtt := r.1 } }
  match r.2 with
  | some (payload, len) => onMqttCommand (parseMqttCommand payload len) s
  | none => s

def step (s : Session) : Act → Session
  | .mqttInit client =>
    if s.app.mqtt.sTopicCmd = none then
      { s with app.mqtt := mqttInit mqttTopicEvents mqttTopicCmd client s.app.mqtt }
    else s
  | .mqttEvent event => if s.app.mqtt.sMqttClient then onMqttEvent event s else s
  | .sendCmd cmd => (command cmd s).2
  | .sendEstop => estop s
  | .heartbeat => heartbeat s
  | .uartRead rx => rx.foldl acceptByte s
  | .tick => tick s

abbrev run (s : Session) (acts : List Act) : Session := Runs.run step s acts

end Session

end UpAndDownESP
