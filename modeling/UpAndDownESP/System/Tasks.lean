import UpAndDownESP.App.Endpoint
import UpAndDownESP.Lib.RecMutex

namespace UpAndDownESP

/-! The three tasks of the program and the two locks between them. Of the MQTT client
library it is assumed that it holds its lock while the event handler runs and takes it
to publish or subscribe; the lock is recursive. -/

inductive Task where
  | tfTask
  | mqttTask
  | protocolTask
  deriving DecidableEq

/-- Where `tf_task` is in its loop. -/
inductive TfControl where
  | reading
  /-- At the take of `tf_mutex`, with what `uart_read_bytes` returned. -/
  | taking (rx : List UInt8)
  /-- Under `tf_mutex`, with these publications left to make. -/
  | inside (todo : List String)
  /-- In `esp_mqtt_client_publish`, at the take of the client lock. -/
  | publishing (payload : String) (todo : List String)
  | published (payload : String) (todo : List String)
  deriving DecidableEq

/-- Where the MQTT client's task is. -/
inductive MqttControl where
  | waiting
  | dispatching (event : MqttEvent)
  | handling (event : MqttEvent)
  /-- In `esp_mqtt_client_subscribe`, before and after its take of the client lock. -/
  | subscribing
  | subscribed
  /-- In `MaxComm_OnMqttCommand`, at the take of `tf_mutex`. -/
  | sending (payload : List UInt8) (len : Nat)
  | sent
  | leaving
  deriving DecidableEq

/-- Where `protocol_task` is. -/
inductive ProtocolControl where
  | sleeping
  /-- At the take of `tf_mutex`, with the heartbeat counted and its text made. -/
  | taking (msg : List UInt8)
  | inside

structure Tasks where
  esp : Endpoint
  tfMutex : RecMutex Task
  clientLock : RecMutex Task
  tf : TfControl
  mqtt : MqttControl
  protocol : ProtocolControl

inductive Sched where
  /-- `app_main` calls `mqtt_init`. -/
  | mqttInit (client : Bool)
  /-- `uart_read_bytes` returns. -/
  | uartRead (rx : List UInt8)
  /-- The client library has an event to dispatch. -/
  | mqttEvent (event : MqttEvent)
  /-- A heartbeat is due. -/
  | heartbeatDue
  /-- A task goes on to its next point, or stays if that takes a lock held by another. -/
  | run (t : Task)

/-- `sizeof(rx_buf)`. -/
def rxBufLen : Nat := 32

/-- The guard of `mqtt_publish_event`. -/
def canPublish (m : Mqtt) : Bool := m.sConnected && m.sMqttClient && m.sTopicEvents.isSome

/-- The rest of `mqtt_publish_event`. -/
def published (payload : String) (m : Mqtt) : Mqtt :=
  { m with
    publishCalls := m.publishCalls + 1
    attempts := m.attempts ++ [(payload, decide (0 ≤ m.msgIds m.publishCalls))] }

def notPublished (payload : String) (m : Mqtt) : Mqtt :=
  { m with attempts := m.attempts ++ [(payload, false)] }

/-- What a stretch of code published, in order. -/
def publications (before after : Endpoint) : List String :=
  (after.app.mqtt.attempts.drop before.app.mqtt.attempts.length).map Prod.fst

/-- The event makes `MaxComm_OnMqttCommand` send something. -/
def sendsCommand (event : MqttEvent) (m : Mqtt) : Bool :=
  match (mqttEventHandler event m).2 with
  | some (payload, len) => (parseMqttCommand payload len).isSome
  | none => false

def subscribes (event : MqttEvent) (m : Mqtt) : Bool :=
  match event with
  | .connected => m.sTopicCmd.isSome
  | _ => false

namespace Tasks

/-- The accept and the tick happen at the take, less the publications, which follow
one by one; what they do to the instance is looked at by others only when `tf_mutex` has
been given back. -/
def runTf (s : Tasks) : Tasks :=
  match s.tf with
  | .reading => s
  | .taking rx =>
    match s.tfMutex.take .tfTask with
    | none => s
    | some m =>
      let esp := tfTask rx s.esp
      { s with
        esp := { esp with app.mqtt := s.esp.app.mqtt }
        tfMutex := m
        tf := .inside (publications s.esp esp) }
  | .inside [] => { s with tfMutex := s.tfMutex.give, tf := .reading }
  | .inside (payload :: todo) =>
    if canPublish s.esp.app.mqtt then { s with tf := .publishing payload todo }
    else { s with
      esp := { s.esp with app.mqtt := notPublished payload s.esp.app.mqtt }, tf := .inside todo }
  | .publishing payload todo =>
    match s.clientLock.take .tfTask with
    | none => s
    | some m => { s with clientLock := m, tf := .published payload todo }
  | .published payload todo =>
    { s with
      esp := { s.esp with app.mqtt := published payload s.esp.app.mqtt }
      clientLock := s.clientLock.give
      tf := .inside todo }

def runMqtt (s : Tasks) : Tasks :=
  match s.mqtt with
  | .waiting => s
  | .dispatching event =>
    match s.clientLock.take .mqttTask with
    | none => s
    | some m => { s with clientLock := m, mqtt := .handling event }
  | .handling event =>
    let r := mqttEventHandler event s.esp.app.mqtt
    let s := { s with esp := { s.esp with app.mqtt := r.1 } }
    match r.2 with
    | some (payload, len) =>
      { s with
        mqtt := if (parseMqttCommand payload len).isSome then .sending payload len else .leaving }
    | none => { s with mqtt := if subscribes event r.1 then .subscribing else .leaving }
  | .subscribing =>
    match s.clientLock.take .mqttTask with
    | none => s
    | some m => { s with clientLock := m, mqtt := .subscribed }
  | .subscribed => { s with clientLock := s.clientLock.give, mqtt := .leaving }
  | .sending payload len =>
    match s.tfMutex.take .mqttTask with
    | none => s
    | some m => { s with esp := maxCommOnMqttCommand payload len s.esp, tfMutex := m, mqtt := .sent }
  | .sent => { s with tfMutex := s.tfMutex.give, mqtt := .leaving }
  | .leaving => { s with clientLock := s.clientLock.give, mqtt := .waiting }

def runProtocol (s : Tasks) : Tasks :=
  match s.protocol with
  | .sleeping => s
  | .taking msg =>
    match s.tfMutex.take .protocolTask with
    | none => s
    | some m => { s with esp := queryHeartbeat msg s.esp, tfMutex := m, protocol := .inside }
  | .inside => { s with tfMutex := s.tfMutex.give, protocol := .sleeping }

def step (s : Tasks) : Sched → Tasks
  | .mqttInit client => { s with esp := UpAndDownESP.step s.esp (.mqttInit client) }
  | .uartRead rx =>
    match s.tf with
    | .reading => { s with tf := .taking (rx.take rxBufLen) }
    | _ => s
  | .mqttEvent event =>
    match s.mqtt with
    | .waiting => if s.esp.app.mqtt.sMqttClient then { s with mqtt := .dispatching event } else s
    | _ => s
  | .heartbeatDue =>
    match s.protocol with
    | .sleeping =>
      { s with
        esp.heartbeatCounter := s.esp.heartbeatCounter + 1
        protocol := .taking (heartbeatText s.esp.heartbeatCounter) }
    | _ => s
  | .run .tfTask => s.runTf
  | .run .mqttTask => s.runMqtt
  | .run .protocolTask => s.runProtocol

/-- `MaxComm_Init` has made its two tasks. -/
def start (msgIds : Nat → Int) : Tasks where
  esp := boot msgIds
  tfMutex := none
  clientLock := none
  tf := .reading
  mqtt := .waiting
  protocol := .sleeping

/-- The lock whose take a task is at. -/
def waitsForTf (s : Tasks) : Task → Prop
  | .tfTask => ∃ rx, s.tf = .taking rx
  | .mqttTask => ∃ payload len, s.mqtt = .sending payload len
  | .protocolTask => ∃ msg, s.protocol = .taking msg

def waitsForClient (s : Tasks) : Task → Prop
  | .tfTask => ∃ payload todo, s.tf = .publishing payload todo
  | .mqttTask => (∃ event, s.mqtt = .dispatching event) ∨ s.mqtt = .subscribing
  | .protocolTask => False

/-- One task has `tf_mutex` and waits for the client lock, which another has that waits for
`tf_mutex`. -/
def CyclicWait (s : Tasks) : Prop :=
  ∃ t u, t ≠ u ∧ s.tfMutex.HeldBy t ∧ s.waitsForClient t ∧ s.clientLock.HeldBy u ∧ s.waitsForTf u

/-- `tf_task` has `tf_mutex` and will not give it back before it has had the client lock. -/
def tfCommitted (s : Tasks) : Bool :=
  match s.tf with
  | .inside (_ :: _) => canPublish s.esp.app.mqtt
  | .publishing _ _ => true
  | _ => false

/-- The MQTT task has the client lock and will not give it back before it has had
`tf_mutex`. -/
def mqttCommitted (s : Tasks) : Bool :=
  match s.mqtt with
  | .handling event => sendsCommand event s.esp.app.mqtt
  | .sending _ _ => true
  | _ => false

/-- The step does not let both tasks commit themselves: the MQTT task takes the client
lock for no event that makes it send while `tf_task` is committed, and `tf_task` takes
`tf_mutex` for no turn that publishes while the MQTT task is. -/
def Apart (s : Tasks) : Sched → Prop
  | .run .mqttTask =>
    ∀ event, s.mqtt = .dispatching event → s.clientLock = none →
      sendsCommand event s.esp.app.mqtt = true → s.tfCommitted = false
  | .run .tfTask =>
    ∀ rx, s.tf = .taking rx → s.tfMutex = none → canPublish s.esp.app.mqtt = true →
      publications s.esp (tfTask rx s.esp) ≠ [] → s.mqttCommitted = false
  | _ => True

end Tasks

end UpAndDownESP
