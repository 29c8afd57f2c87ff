import UpAndDownESP.App.Endpoint

namespace UpAndDownESP.Spec

/-! What the dashboard is told, and in which words. -/

inductive Direction where
  | stopped
  | up
  | down
  | unknown
  deriving DecidableEq

def Direction.of (dir : UInt8) : Direction :=
  match dir with
  | 0 => .stopped
  | 1 => .up
  | 2 => .down
  | _ => .unknown

def Direction.text : Direction → String
  | .stopped => "stopped"
  | .up => "up"
  | .down => "down"
  | .unknown => "unknown"

inductive Report where
  | cmdError (status : UInt8)
  | cmdOk
  | status (floor : UInt8) (direction : Direction) (destBitmask : UInt8)
  | cmdTimeout
  | stoppedAtFloor (floor : UInt8)
  | cabinButton (floor : UInt8)
  | callButton (floor : UInt8)
  | estopActivated
  | estopReleased
  | unknownEvent (type : UInt8)
  | link (up : Bool)
  deriving DecidableEq

/-- The words of a report, of any length. -/
def Report.text : Report → String
  | .cmdError n => "cmd_err_" ++ toString n.toNat
  | .cmdOk => "cmd_ok"
  | .status floor direction destBitmask =>
    "status:floor=" ++ toString floor.toNat ++ ",dir=" ++ direction.text ++ ",dest=0x" ++
      hex2 destBitmask
  | .cmdTimeout => "cmd_timeout"
  | .stoppedAtFloor floor => "stopped_at_floor_" ++ toString floor.toNat
  | .cabinButton floor => "cabin_button_" ++ toString floor.toNat
  | .callButton floor => "call_button_" ++ toString floor.toNat
  | .estopActivated => "estop_activated"
  | .estopReleased => "estop_released"
  | .unknownEvent type => "unknown_event_" ++ toString type.toNat
  | .link up => if up then "max32655_connected" else "max32655_disconnected"

def responseReport (resp : CmdResponse) : Report :=
  if resp.status ≠ cmdOk then .cmdError resp.status
  else if resp.cmdId = cmdGetStatus ∧ 3 ≤ resp.dataLen then
    .status (resp.data.get 0) (.of (resp.data.get 1)) (resp.data.get 2)
  else .cmdOk

def eventReport (evt : StateEvent) : Report :=
  if evt.eventType = protoEvtStoppedAtFloor then .stoppedAtFloor evt.data
  else if evt.eventType = protoEvtCabinButton then .cabinButton evt.data
  else if evt.eventType = protoEvtCallButton then .callButton evt.data
  else if evt.eventType = protoEvtEstopActivated then .estopActivated
  else if evt.eventType = protoEvtEstopReleased then .estopReleased
  else .unknownEvent evt.eventType

/-- Whether the MAX32655 counts as connected after a call. -/
def linkAfter (linked : Bool) : Call → Bool
  | .onHeartbeat _ => true
  | .onHeartbeatTimeout => false
  | _ => linked

/-- A heartbeat, or its timeout, is reported when it is news. -/
def reportsOf (linked : Bool) : Call → List Report
  | .onCmdResponse resp => [responseReport resp]
  | .onCmdTimeout => [.cmdTimeout]
  | .onStateEvent evt => [eventReport evt]
  | .onHeartbeat _ => if linked then [] else [.link true]
  | .onHeartbeatTimeout => if linked then [.link false] else []

def narrate : Bool → List Call → List Report
  | _, [] => []
  | linked, c :: cs => reportsOf linked c ++ narrate (linkAfter linked c) cs

/-- What an endpoint has had to report. -/
def reports (s : Endpoint) : List Report := narrate false s.app.calls

/-- What it has published, or tried to. -/
def texts (s : Endpoint) : List String := s.app.mqtt.attempts.map Prod.fst

end UpAndDownESP.Spec
