import Mathlib.Data.List.Basic

namespace UpAndDownESP

/-! `protocol.h`: the structs exchanged with the MAX32655, all packed. -/

def cmdGetStatus : UInt8 := 0x01
def cmdMoveToFloor : UInt8 := 0x02
def cmdReset : UInt8 := 0x03

def cmdOk : UInt8 := 0x00

def protoEvtStoppedAtFloor : UInt8 := 0x01
def protoEvtCabinButton : UInt8 := 0x02
def protoEvtCallButton : UInt8 := 0x03
def protoEvtEstopActivated : UInt8 := 0x04
def protoEvtEstopReleased : UInt8 := 0x05

structure CmdRequest where
  cmdId : UInt8
  params : Vector UInt8 16
  paramsLen : UInt8
  deriving DecidableEq

/-- The struct's bytes in memory order. -/
def CmdRequest.bytes (cmd : CmdRequest) : List UInt8 :=
  cmd.cmdId :: (cmd.params.toList ++ [cmd.paramsLen])

/-- `sizeof(cmd_request_t)`. -/
theorem CmdRequest.bytes_length (cmd : CmdRequest) : cmd.bytes.length = 18 := by
  simp [CmdRequest.bytes]

structure CmdResponse where
  cmdId : UInt8
  status : UInt8
  data : Vector UInt8 16
  dataLen : UInt8
  deriving DecidableEq

def sizeofCmdResponse : Nat := 19

/-- The cast of a buffer to `cmd_response_t`. -/
def CmdResponse.ofBytes (buf : List UInt8) : CmdResponse where
  cmdId := buf.getD 0 0
  status := buf.getD 1 0
  data := Vector.ofFn fun i => buf.getD (2 + i.val) 0
  dataLen := buf.getD 18 0

structure StateEvent where
  eventType : UInt8
  data : UInt8
  deriving DecidableEq

def sizeofStateEvent : Nat := 2

/-- The cast of a buffer to `state_event_t`. -/
def StateEvent.ofBytes (buf : List UInt8) : StateEvent where
  eventType := buf.getD 0 0
  data := buf.getD 1 0

/-! `tf_transport.h`: the frame types. -/

def msgTypeHeartbeat : UInt8 := 0x01
def msgTypeEstop : UInt8 := 0x02
def msgTypeCmd : UInt8 := 0x03
def msgTypeEvent : UInt8 := 0x04

end UpAndDownESP
