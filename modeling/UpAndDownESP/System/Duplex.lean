import Mathlib.Logic.Function.Basic
import UpAndDownESP.Spec.Decoder
import UpAndDownESP.TinyFrame.Compose
import UpAndDownESP.TinyFrame.Peer

namespace UpAndDownESP
open Spec

/-! A slave and a master, the bytes on their way each way, and whatever order things happen
in: both may send at any moment, bytes arrive in chunks of any size, and each end has its
own clock. Every listener keeps what it is handed. -/

/-- Its length is a `TF_LEN`. -/
abbrev Payload := { bs : List UInt8 // bs.length < 2 ^ 16 }

def Payload.len (payload : Payload) : UInt16 := UInt16.ofNat payload.1.length

/-- A call of the sending API with its data at hand. -/
inductive SendCall where
  | send (type : UInt8) (payload : Payload)
  | query (type : UInt8) (payload : Payload) (timeout : Nat)
  | respond (id type : UInt8) (payload : Payload)

def SendCall.run (tf : TinyFrame Unit Empty) :
    SendCall → Bool × TinyFrame Unit Empty × List (List UInt8)
  | .send type payload => tfSendSimple tf type (some payload.1) payload.len
  | .query type payload timeout =>
    tfQuerySimple tf type (some payload.1) payload.len (some ()) none timeout
  | .respond id type payload =>
    tfRespond tf
      { tfClearMsg with frameId := id, type := type, data := some payload.1, len := payload.len }

/-- What the frame of a call says. -/
def SendCall.message (tf : TinyFrame Unit Empty) : SendCall → Message
  | .send type payload => (composeId tf, type, payload.1)
  | .query type payload _ => (composeId tf, type, payload.1)
  | .respond id type payload => (id, type, payload.1)

/-- An instance with what it was handed and the messages of its calls that returned true. -/
structure Station extends Peer where
  sent : List Message

def TfPeer.other : TfPeer → TfPeer
  | .slave => .master
  | .master => .slave

/-- Both ends, and the bytes on their way to each. -/
structure Duplex where
  station : TfPeer → Station
  line : TfPeer → List UInt8

inductive WireMove where
  | call (side : TfPeer) (c : SendCall)
  /-- The next bytes on their way to this end arrive, so many at most. -/
  | deliver (side : TfPeer) (n : Nat)
  | tick (side : TfPeer)

namespace Duplex

def call (d : Duplex) (side : TfPeer) (c : SendCall) : Duplex :=
  let st := d.station side
  let (ok, tf, writes) := c.run st.tf
  { station := Function.update d.station side
      { st with tf := tf, sent := if ok then st.sent ++ [c.message st.tf] else st.sent }
    line := Function.update d.line side.other (d.line side.other ++ writes.flatten) }

def act (d : Duplex) (side : TfPeer) (a : PeerAct) : TfPeer → Station :=
  let st := d.station side
  Function.update d.station side { st with toPeer := peerStep st.toPeer a }

def step (d : Duplex) : WireMove → Duplex
  | .call side c => d.call side c
  | .deliver side n =>
    { station := d.act side (.accept ((d.line side).take n))
      line := Function.update d.line side ((d.line side).drop n) }
  | .tick side => { d with station := d.act side .tick }

/-- Both ends initialised, each with a generic listener. -/
def start : Duplex where
  station side :=
    { tf := (tfAddGenericListener (tfInitStatic Unit Empty side) ()).2, received := [], sent := [] }
  line _ := []

/-- No frame under way has timed out when more of it arrives. -/
def InTime (d : Duplex) : WireMove → Prop
  | .deliver side n => NoTimeout (d.station side).toPeer (.accept ((d.line side).take n))
  | _ => True

end Duplex

end UpAndDownESP
