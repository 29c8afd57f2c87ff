import UpAndDownESP.Comm.Protocol

namespace UpAndDownESP

variable {σ : Type}

/-- The data pointer and the length of a call: a pointer that is not NULL points to as
many bytes at least. -/
structure Argument where
  data : Option (List UInt8)
  len : UInt16
  readable : ∀ bytes, data = some bytes → len.toNat ≤ bytes.length

/-- The bytes to be sent. -/
def Argument.payload (arg : Argument) : List UInt8 := (arg.data.getD []).take arg.len.toNat

/-- NULL with a length: what TinyFrame takes for the start of a multi-part frame. -/
def Argument.multipart (arg : Argument) : Prop := arg.data = none ∧ arg.len ≠ 0

/-- A call of one of the three sending functions of `tf_transport.c`. Either callback of a
query can be NULL. -/
inductive TransportCall where
  | send (msgType : UInt8) (arg : Argument)
  | query (msgType : UInt8) (arg : Argument) (onResponse : Option Listener)
      (onTimeout : Option TimeoutListener) (timeoutTicks : Nat)
  | respond (originalMsg : TfMsg) (arg : Argument)

def TransportCall.arg : TransportCall → Argument
  | .send _ arg | .query _ arg .. | .respond _ arg => arg

def TransportCall.type : TransportCall → UInt8
  | .send msgType _ | .query msgType .. => msgType
  | .respond originalMsg _ => originalMsg.type

def callTransport (s : Handler σ) : TransportCall → Bool × Handler σ
  | .send msgType arg => tfTransportSend msgType arg.data arg.len s
  | .query msgType arg onResponse onTimeout timeoutTicks =>
    tfTransportQuery msgType arg.data arg.len onResponse onTimeout timeoutTicks s
  | .respond originalMsg arg => tfTransportRespond originalMsg arg.data arg.len s

/-- A program that does nothing but call the transport. -/
def transportStep (s : Handler σ) (c : TransportCall) : Handler σ := (callTransport s c).2

end UpAndDownESP
