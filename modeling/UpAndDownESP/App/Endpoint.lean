import UpAndDownESP.Lib.Runs
import UpAndDownESP.App.MaxComm

namespace UpAndDownESP

/-- The statics as the program is loaded; `msgIds` is what the MQTT client library
will answer to the publish calls. -/
def powerOn (msgIds : Nat → Int) : Endpoint where
  tf := tfInitStatic Listener TimeoutListener .slave
  protoConfig :=
    { onCmdResponse := none, onCmdTimeout := none, onStateEvent := none, onHeartbeat := none,
      onHeartbeatTimeout := none, heartbeatIntervalMs := 0, heartbeatTimeoutTicks := 0,
      cmdTimeoutTicks := 0 }
  heartbeatCounter := 0
  wire := []
  app :=
    { max32655Connected := false
      mqtt :=
        { sMqttClient := false, sTopicEvents := none, sTopicCmd := none, sCmdHandler := false,
          sConnected := false, msgIds := msgIds, publishCalls := 0, subscriptions := [],
          attempts := [] }
      calls := [] }

/-- What can happen once `MaxComm_Init` has run. All but the MQTT events of other
kinds than data happen under `tf_mutex`, each in one go. -/
inductive Act where
  /-- `app_main` goes on to `mqtt_init`; the client may fail to be made. -/
  | mqttInit (client : Bool)
  | mqttEvent (event : MqttEvent)
  | sendCmd (cmd : CmdRequest)
  | sendEstop
  | heartbeat
  | uartRead (rx : List UInt8)
  | tick

def mqttTopicEvents : List UInt8 := ascii "computor/esp32/events"
def mqttTopicCmd : List UInt8 := ascii "computor/esp32/cmd"

/-- `mqtt_event_handler` with `MaxComm_OnMqttCommand` as the command handler. -/
def onMqttEvent (event : MqttEvent) (s : Endpoint) : Endpoint :=
  let (mqtt, cmd) := mqttEventHandler event s.app.mqtt
  let s := { s with app := { s.app with mqtt := mqtt } }
  match cmd with
  | some (payload, len) => maxCommOnMqttCommand payload len s
  | none => s

def step (s : Endpoint) : Act → Endpoint
  | .mqttInit client =>
    -- `app_main` runs once
    if s.app.mqtt.sTopicCmd = none then
      { s with app.mqtt := mqttInit mqttTopicEvents mqttTopicCmd client s.app.mqtt }
    else s
  | .mqttEvent event =>
    -- without a client no handler was registered
    if s.app.mqtt.sMqttClient then onMqttEvent event s else s
  | .sendCmd cmd => (maxCommSendCmd cmd s).2
  | .sendEstop => (maxCommSendEstop s).2
  | .heartbeat => sendHeartbeat s
  | .uartRead rx => uartRead rx s
  | .tick => transportTick s

/-- The configuration is set once and for all by `MaxComm_Init`. -/
@[simp] theorem step_protoConfig (s : Endpoint) (a : Act) :
    (step s a).protoConfig = s.protoConfig := by
  cases a with
  | mqttInit client =>
    simp only [step]
    split <;> rfl
  | mqttEvent event =>
    simp only [step, onMqttEvent, maxCommOnMqttCommand]
    split
    · split
      · split <;> rfl
      · rfl
    · rfl
  | sendCmd | sendEstop | heartbeat | uartRead | tick => rfl

/-- The state in which `MaxComm_Init` returns. -/
def boot (msgIds : Nat → Int) : Endpoint := maxCommInit (powerOn msgIds)

abbrev run (s : Endpoint) (acts : List Act) : Endpoint := Runs.run step s acts

/-- A state that some run from `MaxComm_Init` ends in. -/
def Reachable (s : Endpoint) : Prop := ∃ msgIds acts, s = run (boot msgIds) acts

theorem Reachable.run (h : Reachable s) (acts : List Act) : Reachable (run s acts) := by
  obtain ⟨msgIds, before, rfl⟩ := h
  exact ⟨msgIds, before ++ acts, (Runs.run_append step _ before acts).symm⟩

/-- A turn of `tf_task` is a read and a tick. -/
theorem tf_task_run (rx : List UInt8) (s : Endpoint) :
    tfTask rx s = run s [.uartRead rx, .tick] := by
  cases rx with
  | nil => rfl
  | cons c rx => simp [tfTask, step]

/-! ### What a run has let out -/

def writesOf (wire : List WireEvent) : List (List UInt8) :=
  wire.filterMap fun
    | .write buff => some buff
    | _ => none

/-- The buffers handed to `TF_WriteImpl`, call by call. -/
def writes (s : Endpoint) : List (List UInt8) := writesOf s.wire

/-- The sends for which the transport returned true: type and payload. -/
def acceptedOf (wire : List WireEvent) : List (UInt8 × List UInt8) :=
  wire.filterMap fun
    | .transport msgType data true => some (msgType, data)
    | _ => none

def accepted (s : Endpoint) : List (UInt8 × List UInt8) := acceptedOf s.wire

/-- All sends asked of the transport, those it refused included: type and payload. -/
def requestsOf (wire : List WireEvent) : List (UInt8 × List UInt8) :=
  wire.filterMap fun
    | .transport msgType data _ => some (msgType, data)
    | _ => none

def requests (s : Endpoint) : List (UInt8 × List UInt8) := requestsOf s.wire

/-- The `protocol_send_cmd` calls that returned true. -/
def acceptedCmdsOf (wire : List WireEvent) : List CmdRequest :=
  wire.filterMap fun
    | .command cmd true => some cmd
    | _ => none

/-- The number of `protocol_send_cmd` calls that returned true. -/
def acceptedCmds (s : Endpoint) : Nat := (acceptedCmdsOf s.wire).length

@[simp] theorem writesOf_append (a b : List WireEvent) :
    writesOf (a ++ b) = writesOf a ++ writesOf b := List.filterMap_append

@[simp] theorem acceptedOf_append (a b : List WireEvent) :
    acceptedOf (a ++ b) = acceptedOf a ++ acceptedOf b := List.filterMap_append

@[simp] theorem requestsOf_append (a b : List WireEvent) :
    requestsOf (a ++ b) = requestsOf a ++ requestsOf b := List.filterMap_append

/-- The `TF_WriteImpl` calls of a send are no requests. -/
@[simp] theorem requestsOf_writes (bufs : List (List UInt8)) :
    requestsOf (bufs.map WireEvent.write) = [] := by
  induction bufs with
  | nil => rfl
  | cons b bufs ih => exact ih

@[simp] theorem acceptedCmdsOf_append (a b : List WireEvent) :
    acceptedCmdsOf (a ++ b) = acceptedCmdsOf a ++ acceptedCmdsOf b := List.filterMap_append

/-- How many `TF_Tick` calls a run makes. -/
def ticks (acts : List Act) : Nat :=
  acts.countP fun
    | .tick => true
    | _ => false

end UpAndDownESP
