import UpAndDownESP.Comm.Mqtt
import UpAndDownESP.Comm.Protocol

namespace UpAndDownESP

/-- The calls the protocol layer makes into the application. -/
inductive Call where
  | onCmdResponse (resp : CmdResponse)
  | onCmdTimeout
  | onStateEvent (evt : StateEvent)
  | onHeartbeat (data : List UInt8)
  | onHeartbeatTimeout
  deriving DecidableEq

/-- The statics of `max_comm.c` and of the MQTT client under it, with the calls
received so far. -/
structure App where
  max32655Connected : Bool
  mqtt : Mqtt
  calls : List Call

def App.called (a : App) (c : Call) : App := { a with calls := a.calls ++ [c] }

/-- `mqtt_publish_event` with its result dropped, as all callers do. -/
def App.publish (a : App) (payload : String) : App :=
  { a with mqtt := (mqttPublishEvent payload a.mqtt).2 }

@[simp] theorem App.called_connected (a : App) (c : Call) :
    (a.called c).max32655Connected = a.max32655Connected := rfl

@[simp] theorem App.called_mqtt (a : App) (c : Call) : (a.called c).mqtt = a.mqtt := rfl

@[simp] theorem App.called_calls (a : App) (c : Call) : (a.called c).calls = a.calls ++ [c] := rfl

@[simp] theorem App.publish_connected (a : App) (payload : String) :
    (a.publish payload).max32655Connected = a.max32655Connected := rfl

@[simp] theorem App.publish_calls (a : App) (payload : String) :
    (a.publish payload).calls = a.calls := rfl

/-- Publishing is one more attempt, successful or not. -/
theorem App.publish_attempts (a : App) (payload : String) :
    ∃ ok, (a.publish payload).mqtt.attempts = a.mqtt.attempts ++ [(payload, ok)] := by
  simp only [App.publish, mqttPublishEvent]
  split
  · exact ⟨_, rfl⟩
  · exact ⟨_, rfl⟩

theorem App.publish_texts (a : App) (payload : String) :
    (a.publish payload).mqtt.attempts.map Prod.fst =
      a.mqtt.attempts.map Prod.fst ++ [payload] := by
  obtain ⟨ok, ha⟩ := a.publish_attempts payload
  rw [ha, List.map_append]
  rfl

/-! ### Protocol callbacks -/

def directionStr (dir : UInt8) : String :=
  match dir with
  | 0 => "stopped"
  | 1 => "up"
  | 2 => "down"
  | _ => "unknown"

def hexChar (n : Nat) : Char := if n < 10 then Char.ofNat (48 + n) else Char.ofNat (55 + n)

/-- `%02X`. -/
def hex2 (x : UInt8) : String := String.ofList [hexChar (x.toNat / 16), hexChar (x.toNat % 16)]

def onCmdResponse (resp : CmdResponse) (a : App) : App :=
  let a := a.called (.onCmdResponse resp)
  if resp.status ≠ cmdOk then
    a.publish (snprintf 32 ("cmd_err_" ++ toString resp.status.toNat))
  else if resp.cmdId = cmdGetStatus ∧ 3 ≤ resp.dataLen then
    let floor := resp.data[0]
    let direction := resp.data[1]
    let destBitmask := resp.data[2]
    a.publish (snprintf 64 ("status:floor=" ++ toString floor.toNat ++ ",dir=" ++
      directionStr direction ++ ",dest=0x" ++ hex2 destBitmask))
  else a.publish "cmd_ok"

def onCmdTimeout (a : App) : App := (a.called .onCmdTimeout).publish "cmd_timeout"

def stateEventText (evt : StateEvent) : String :=
  if evt.eventType = protoEvtStoppedAtFloor then
    snprintf 64 ("stopped_at_floor_" ++ toString evt.data.toNat)
  else if evt.eventType = protoEvtCabinButton then
    snprintf 64 ("cabin_button_" ++ toString evt.data.toNat)
  else if evt.eventType = protoEvtCallButton then
    snprintf 64 ("call_button_" ++ toString evt.data.toNat)
  else if evt.eventType = protoEvtEstopActivated then snprintf 64 "estop_activated"
  else if evt.eventType = protoEvtEstopReleased then snprintf 64 "estop_released"
  else snprintf 64 ("unknown_event_" ++ toString evt.eventType.toNat)

def onStateEvent (evt : StateEvent) (a : App) : App :=
  (a.called (.onStateEvent evt)).publish (stateEventText evt)

def onHeartbeat (data : List UInt8) (len : UInt16) (a : App) : App :=
  let a := a.called (.onHeartbeat (data.take len.toNat))
  if !a.max32655Connected then { a with max32655Connected := true }.publish "max32655_connected"
  else a

def onHeartbeatTimeout (a : App) : App :=
  let a := a.called .onHeartbeatTimeout
  if a.max32655Connected then { a with max32655Connected := false }.publish "max32655_disconnected"
  else a

/-! Each callback logs its own call and no other. -/

@[simp] theorem onCmdResponse_calls (resp : CmdResponse) (a : App) :
    (onCmdResponse resp a).calls = a.calls ++ [.onCmdResponse resp] := by
  unfold onCmdResponse
  split
  · rfl
  · split <;> rfl

@[simp] theorem onCmdTimeout_calls (a : App) :
    (onCmdTimeout a).calls = a.calls ++ [.onCmdTimeout] := rfl

@[simp] theorem onStateEvent_calls (evt : StateEvent) (a : App) :
    (onStateEvent evt a).calls = a.calls ++ [.onStateEvent evt] := rfl

@[simp] theorem onHeartbeat_calls (data : List UInt8) (len : UInt16) (a : App) :
    (onHeartbeat data len a).calls = a.calls ++ [.onHeartbeat (data.take len.toNat)] := by
  simp only [onHeartbeat]
  split <;> rfl

@[simp] theorem onHeartbeatTimeout_calls (a : App) :
    (onHeartbeatTimeout a).calls = a.calls ++ [.onHeartbeatTimeout] := by
  simp only [onHeartbeatTimeout]
  split <;> rfl

/-! ### Public API -/

abbrev Endpoint := Handler App

def protoCfg : ProtocolConfig App where
  onCmdResponse := some onCmdResponse
  onCmdTimeout := some onCmdTimeout
  onStateEvent := some onStateEvent
  onHeartbeat := some onHeartbeat
  onHeartbeatTimeout := some onHeartbeatTimeout
  heartbeatIntervalMs := 10000
  heartbeatTimeoutTicks := 500
  cmdTimeoutTicks := 500

def maxCommInit (s : Endpoint) : Endpoint := protocolInit (some protoCfg) (tfTransportInit s)

def maxCommSendCmd (cmd : CmdRequest) (s : Endpoint) : Bool × Endpoint := protocolSendCmd cmd s

def maxCommSendEstop (s : Endpoint) : Bool × Endpoint := protocolSendEstop [0x01] 1 s

def moveToFloorCmd (floor : UInt8) : CmdRequest where
  cmdId := cmdMoveToFloor
  params := (Vector.replicate 16 0).set 0 floor
  paramsLen := 1

def getStatusCmd : CmdRequest where
  cmdId := cmdGetStatus
  params := Vector.replicate 16 0
  paramsLen := 0

def resetCmd : CmdRequest where
  cmdId := cmdReset
  params := Vector.replicate 16 0
  paramsLen := 0

def maxCommSendMoveToFloor (floor : UInt8) (s : Endpoint) : Bool × Endpoint :=
  protocolSendCmd (moveToFloorCmd floor) s

def maxCommSendGetStatus (s : Endpoint) : Bool × Endpoint := protocolSendCmd getStatusCmd s

def maxCommSendReset (s : Endpoint) : Bool × Endpoint := protocolSendCmd resetCmd s

/-- The commands a payload can be recognised as. -/
inductive MqttCommand where
  | status
  | reset
  | estop
  | floor (n : UInt8)
  deriving DecidableEq

/-- The comparisons of `MaxComm_OnMqttCommand`, in their order. `payload` is the memory
from the payload on, which goes on past `len`. -/
def parseMqttCommand (payload : List UInt8) (len : Nat) : Option MqttCommand :=
  if strncmp payload (ascii "status") len = 0 ∨ strncmp payload (ascii "STATUS") len = 0 then
    some .status
  else if strncmp payload (ascii "reset") len = 0 ∨ strncmp payload (ascii "RESET") len = 0 then
    some .reset
  else if strncmp payload (ascii "estop") len = 0 ∨ strncmp payload (ascii "ESTOP") len = 0 then
    some .estop
  else if strncmp payload (ascii "floor:") 6 = 0 ∧ 6 < len then
    some (.floor (UInt8.ofInt (atoi (payload.drop 6))))
  else none

/-- The results of the sending functions are dropped. -/
def maxCommOnMqttCommand (payload : List UInt8) (len : Nat) (s : Endpoint) : Endpoint :=
  match parseMqttCommand payload len with
  | some .status => (maxCommSendGetStatus s).2
  | some .reset => (maxCommSendReset s).2
  | some .estop => (maxCommSendEstop s).2
  | some (.floor n) => (maxCommSendMoveToFloor n s).2
  | none => s

end UpAndDownESP
