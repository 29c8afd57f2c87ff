import UpAndDownESP.TinyFrame.Checksum

namespace UpAndDownESP

/-! `TF_Config.h`: one ID byte, two length bytes, one type byte, CRC-16, a SOF byte. -/

def tfSofByte : UInt8 := 0x01
def tfMaxPayloadRx : Nat := 128
def tfSendbufLen : Nat := 64
def tfMaxIdLst : Nat := 4
def tfMaxTypeLst : Nat := 4
def tfMaxGenLst : Nat := 2
def tfParserTimeoutTicks : Nat := 50

inductive TfPeer where
  | slave
  | master
  deriving DecidableEq

/-- Response from listeners. -/
inductive TfResult where
  | next
  | stay
  | renew
  | close
  deriving DecidableEq

/-- A message. `data` is a pointer, so it may be NULL and what it points to may
be longer than `len`. -/
structure TfMsg where
  frameId : UInt8
  isResponse : Bool
  type : UInt8
  data : Option (List UInt8)
  len : UInt16
  userdata : Option Nat
  userdata2 : Option Nat
  deriving DecidableEq

def tfClearMsg : TfMsg :=
  { frameId := 0, isResponse := false, type := 0, data := none, len := 0,
    userdata := none, userdata2 := none }

/-- A listener slot; `L` and `T` name the program's listener and timeout
functions, and a NULL function marks a free slot. -/
structure IdListener (L T : Type) where
  id : UInt8
  fn : Option L
  fnTimeout : Option T
  timeout : Nat
  timeoutMax : Nat
  userdata : Option Nat
  userdata2 : Option Nat
  deriving DecidableEq

structure TypeListener (L : Type) where
  type : UInt8
  fn : Option L
  deriving DecidableEq

structure GenericListener (L : Type) where
  fn : Option L
  deriving DecidableEq

inductive TfState where
  | sof
  | len
  | headCksum
  | id
  | type
  | data
  | dataCksum
  deriving DecidableEq

/-- The parser fields of the instance. The payload buffer keeps whatever an
earlier frame left in it. -/
structure Parser where
  state : TfState
  parserTimeoutTicks : Nat
  id : UInt8
  len : UInt16
  data : Vector UInt8 tfMaxPayloadRx
  rxi : Nat
  cksum : UInt16
  refCksum : UInt16
  type : UInt8
  discardData : Bool
  deriving DecidableEq

/-- The transmit fields of the instance. -/
structure Transmitter where
  sendbuf : List UInt8
  txPos : Nat
  txLen : Nat
  txCksum : UInt16
  softLock : Bool
  deriving DecidableEq

structure TinyFrame (L T : Type) where
  peerBit : TfPeer
  nextId : UInt8
  parser : Parser
  tx : Transmitter
  idListeners : List (IdListener L T)
  typeListeners : List (TypeListener L)
  genericListeners : List (GenericListener L)
  countIdLst : Nat
  countTypeLst : Nat
  countGenericLst : Nat
  deriving DecidableEq

/-- The instance zeroed by `memset`, as its peer. -/
def tfInitStatic (L T : Type) (peer : TfPeer) : TinyFrame L T where
  peerBit := peer
  nextId := 0
  parser :=
    { state := .sof, parserTimeoutTicks := 0, id := 0, len := 0,
      data := Vector.replicate tfMaxPayloadRx 0, rxi := 0, cksum := 0, refCksum := 0,
      type := 0, discardData := false }
  tx :=
    { sendbuf := List.replicate tfSendbufLen 0, txPos := 0, txLen := 0, txCksum := 0,
      softLock := false }
  idListeners := List.replicate tfMaxIdLst
    { id := 0, fn := none, fnTimeout := none, timeout := 0, timeoutMax := 0,
      userdata := none, userdata2 := none }
  typeListeners := List.replicate tfMaxTypeLst { type := 0, fn := none }
  genericListeners := List.replicate tfMaxGenLst { fn := none }
  countIdLst := 0
  countTypeLst := 0
  countGenericLst := 0

/-- How the program's callbacks act on its own state. No listener of this program
uses its instance argument or writes to the message, and the value a timeout
function returns is ignored. -/
structure Callbacks (L T σ : Type) where
  fn : L → TfMsg → σ → TfResult × σ
  fnTimeout : T → σ → σ

end UpAndDownESP
