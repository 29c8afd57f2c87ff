import UpAndDownESP.Lib.BigEndian
import UpAndDownESP.TinyFrame.Listeners

namespace UpAndDownESP
open BigEndian

variable {L T : Type}

/-- Write bytes into a buffer from a position on. -/
def putAt (buf : List UInt8) (pos : Nat) (bs : List UInt8) : List UInt8 :=
  buf.take pos ++ bs ++ buf.drop (pos + bs.length)

/-- SOF, ID, length and type, then the checksum of these. -/
def frameHead (id : UInt8) (len : UInt16) (type : UInt8) : List UInt8 :=
  let head := tfSofByte :: (writeNum 1 id.toNat ++ writeNum 2 len.toNat ++ writeNum 1 type.toNat)
  head ++ writeNum 2 (cksum head).toNat

/-- One complete frame: a payload, if there is one, is followed by its checksum. -/
def frameBytes (id type : UInt8) (payload : List UInt8) : List UInt8 :=
  frameHead id (UInt16.ofNat payload.length) type ++
    if payload.length = 0 then [] else payload ++ writeNum 2 (cksum payload).toNat

/-- The ID of the next frame that is not a response. -/
def composeId (tf : TinyFrame L T) : UInt8 :=
  match tf.peerBit with
  | .slave => tf.nextId &&& 0x7f
  | .master => tf.nextId &&& 0x7f ||| 0x80

/-- The head's bytes, and the message with its resolved ID. Every head that is not
a response uses up an ID. -/
def tfComposeHead (tf : TinyFrame L T) (msg : TfMsg) : TinyFrame L T × TfMsg × List UInt8 :=
  let id := if msg.isResponse then msg.frameId else composeId tf
  let tf := if msg.isResponse then tf else { tf with nextId := tf.nextId + 1 }
  (tf, { msg with frameId := id }, frameHead id msg.len msg.type)

def tfClaimTx (tx : Transmitter) : Option Transmitter :=
  if tx.softLock then none else some { tx with softLock := true }

def tfReleaseTx (tx : Transmitter) : Transmitter := { tx with softLock := false }

def tfSendFrameBegin (tf : TinyFrame L T) (msg : TfMsg) (listener : Option L)
    (ftimeout : Option T) (timeout : Nat) : Bool × TinyFrame L T × TfMsg :=
  match tfClaimTx tf.tx with
  | none => (false, tf, msg)
  | some tx =>
    let (tf, msg, head) := tfComposeHead { tf with tx := tx } msg
    let tf := { tf with
      tx.sendbuf := putAt tf.tx.sendbuf 0 head
      tx.txPos := head.length
      tx.txLen := msg.len.toNat }
    match listener with
    | none => (true, { tf with tx.txCksum := cksumStart }, msg)
    | some l =>
      match tfAddIdListener tf msg l ftimeout timeout with
      | (false, tf) => (false, { tf with tx := tfReleaseTx tf.tx }, msg)
      | (true, tf) => (true, { tf with tx.txCksum := cksumStart }, msg)

/-- The loop of `TF_SendFrame_Chunk` over the bytes that remain, with the
`TF_WriteImpl` calls it makes. -/
def chunkLoop : Nat → Transmitter → List UInt8 → Transmitter × List (List UInt8)
  | 0, tx, _ => (tx, [])
  | fuel + 1, tx, rest =>
    if rest.length = 0 then (tx, [])
    else
      let chunk := min (tfSendbufLen - tx.txPos) rest.length
      let tx := { tx with
        sendbuf := putAt tx.sendbuf tx.txPos (rest.take chunk)
        txPos := tx.txPos + chunk
        txCksum := (rest.take chunk).foldl cksumAdd tx.txCksum }
      if tx.txPos = tfSendbufLen then
        let (tx', writes) := chunkLoop fuel { tx with txPos := 0 } (rest.drop chunk)
        (tx', tx.sendbuf.take tx.txPos :: writes)
      else chunkLoop fuel tx (rest.drop chunk)

/-- Only the first turn can find the buffer full and consume nothing, so the length
bounds the turns. -/
def tfSendFrameChunk (tx : Transmitter) (buff : List UInt8) (length : Nat) :
    Transmitter × List (List UInt8) :=
  chunkLoop (length + 1) tx (buff.take length)

def tfSendFrameEnd (tx : Transmitter) : Transmitter × List (List UInt8) :=
  if 0 < tx.txLen then
    -- flush if the checksum would not fit in the buffer
    let full := tfSendbufLen - tx.txPos < 2
    let writes := if full then [tx.sendbuf.take tx.txPos] else []
    let pos := if full then 0 else tx.txPos
    let tail := writeNum 2 (cksumEnd tx.txCksum).toNat
    let tx := { tx with
      sendbuf := putAt tx.sendbuf pos tail
      txPos := pos + tail.length
      txCksum := cksumEnd tx.txCksum }
    (tfReleaseTx tx, writes ++ [tx.sendbuf.take tx.txPos])
  else (tfReleaseTx tx, [tx.sendbuf.take tx.txPos])

/-- The result, the instance and the `TF_WriteImpl` calls. A length without data
starts a multi-part frame: the head stays in the buffer and the lock stays taken. -/
def tfSendFrame (tf : TinyFrame L T) (msg : TfMsg) (listener : Option L) (ftimeout : Option T)
    (timeout : Nat) : Bool × TinyFrame L T × List (List UInt8) :=
  match tfSendFrameBegin tf msg listener ftimeout timeout with
  | (false, tf, _) => (false, tf, [])
  | (true, tf, msg) =>
    if msg.len = 0 ∨ msg.data ≠ none then
      let (tx, body) := tfSendFrameChunk tf.tx (msg.data.getD []) msg.len.toNat
      let (tx, rest) := tfSendFrameEnd tx
      (true, { tf with tx := tx }, body ++ rest)
    else (true, tf, [])

def tfSend (tf : TinyFrame L T) (msg : TfMsg) : Bool × TinyFrame L T × List (List UInt8) :=
  tfSendFrame tf msg none none 0

def tfSendSimple (tf : TinyFrame L T) (type : UInt8) (data : Option (List UInt8)) (len : UInt16) :
    Bool × TinyFrame L T × List (List UInt8) :=
  tfSend tf { tfClearMsg with type := type, data := data, len := len }

def tfQuerySimple (tf : TinyFrame L T) (type : UInt8) (data : Option (List UInt8)) (len : UInt16)
    (listener : Option L) (ftimeout : Option T) (timeout : Nat) :
    Bool × TinyFrame L T × List (List UInt8) :=
  tfSendFrame tf { tfClearMsg with type := type, data := data, len := len } listener ftimeout timeout

def tfRespond (tf : TinyFrame L T) (msg : TfMsg) : Bool × TinyFrame L T × List (List UInt8) :=
  tfSend tf { msg with isResponse := true }

end UpAndDownESP
