import UpAndDownESP.Lib.BigEndian
import UpAndDownESP.TinyFrame.Listeners

namespace UpAndDownESP
open BigEndian

def tfResetParser (p : Parser) : Parser := { p with state := .sof }

/-- SOF was received: prepare for the frame. -/
def parsBeginFrame (p : Parser) : Parser :=
  { p with cksum := cksumAdd cksumStart tfSofByte, discardData := false, state := .id, rxi := 0 }

/-- The message `TF_HandleReceivedMessage` makes of the parser's fields. Its data
pointer is the whole receive buffer. -/
def receivedMsg (p : Parser) : TfMsg :=
  { tfClearMsg with
    frameId := p.id, isResponse := false, type := p.type, data := some p.data.toList, len := p.len }

/-- The switch of `TF_AcceptChar`. A branch that calls `TF_HandleReceivedMessage`
returns the message; resetting the parser is all that follows such a call. -/
def parseByte (p : Parser) (c : UInt8) : Parser × Option TfMsg :=
  match p.state with
  | .sof => (if c = tfSofByte then parsBeginFrame p else p, none)
  | .id =>
    let p := { p with cksum := cksumAdd p.cksum c, id := collect8 p.id c, rxi := p.rxi + 1 }
    (if p.rxi = 1 then { p with state := .len, rxi := 0 } else p, none)
  | .len =>
    let p := { p with cksum := cksumAdd p.cksum c, len := collect16 p.len c, rxi := p.rxi + 1 }
    (if p.rxi = 2 then { p with state := .type, rxi := 0 } else p, none)
  | .type =>
    let p := { p with cksum := cksumAdd p.cksum c, type := collect8 p.type c, rxi := p.rxi + 1 }
    (if p.rxi = 1 then { p with state := .headCksum, rxi := 0, refCksum := 0 } else p, none)
  | .headCksum =>
    let p := { p with refCksum := collect16 p.refCksum c, rxi := p.rxi + 1 }
    if p.rxi = 2 then
      let p := { p with cksum := cksumEnd p.cksum }
      if p.cksum ≠ p.refCksum then (tfResetParser p, none)
      else if p.len = 0 then (tfResetParser p, some (receivedMsg p))
      else
        -- a payload that does not fit is consumed but not stored
        ({ p with
          state := .data, rxi := 0, cksum := cksumStart
          discardData := if tfMaxPayloadRx < p.len.toNat then true else p.discardData }, none)
    else (p, none)
  | .data =>
    let p :=
      if p.discardData then { p with rxi := p.rxi + 1 }
      else { p with
        cksum := cksumAdd p.cksum c, data := p.data.setIfInBounds p.rxi c, rxi := p.rxi + 1 }
    (if p.rxi = p.len.toNat then { p with state := .dataCksum, rxi := 0, refCksum := 0 } else p, none)
  | .dataCksum =>
    let p := { p with refCksum := collect16 p.refCksum c, rxi := p.rxi + 1 }
    if p.rxi = 2 then
      let p := { p with cksum := cksumEnd p.cksum }
      if ¬ p.discardData ∧ p.cksum = p.refCksum then (tfResetParser p, some (receivedMsg p))
      else (tfResetParser p, none)
    else (p, none)

/-- The parser's part of `TF_AcceptChar`: a stale partial frame is dropped first. -/
def parseChar (p : Parser) (c : UInt8) : Parser × Option TfMsg :=
  let p :=
    if tfParserTimeoutTicks ≤ p.parserTimeoutTicks ∧ p.state ≠ .sof then tfResetParser p else p
  parseByte { p with parserTimeoutTicks := 0 } c

variable {L T σ : Type}

def tfAcceptChar (cb : Callbacks L T σ) (s : TinyFrame L T × σ) (c : UInt8) : TinyFrame L T × σ :=
  let (tf, a) := s
  match parseChar tf.parser c with
  | (p, none) => ({ tf with parser := p }, a)
  | (p, some msg) => tfHandleReceivedMessage cb { tf with parser := p } msg a

def tfAccept (cb : Callbacks L T σ) (tf : TinyFrame L T) (buffer : List UInt8) (a : σ) :
    TinyFrame L T × σ :=
  buffer.foldl (tfAcceptChar cb) (tf, a)

end UpAndDownESP
