import UpAndDownESP.Lib.Runs
import UpAndDownESP.TinyFrame.Compose

namespace UpAndDownESP

variable {L T : Type}

def tfQuery (tf : TinyFrame L T) (msg : TfMsg) (listener : Option L) (ftimeout : Option T)
    (timeout : Nat) : Bool × TinyFrame L T × List (List UInt8) :=
  tfSendFrame tf msg listener ftimeout timeout

/-! ### Multipart frames: a length without data -/

def tfSendMultipart (tf : TinyFrame L T) (msg : TfMsg) : Bool × TinyFrame L T × List (List UInt8) :=
  tfSend tf { msg with data := none }

def tfSendSimpleMultipart (tf : TinyFrame L T) (type : UInt8) (len : UInt16) :
    Bool × TinyFrame L T × List (List UInt8) :=
  tfSendSimple tf type none len

def tfQuerySimpleMultipart (tf : TinyFrame L T) (type : UInt8) (len : UInt16)
    (listener : Option L) (ftimeout : Option T) (timeout : Nat) :
    Bool × TinyFrame L T × List (List UInt8) :=
  tfQuerySimple tf type none len listener ftimeout timeout

def tfQueryMultipart (tf : TinyFrame L T) (msg : TfMsg) (listener : Option L) (ftimeout : Option T)
    (timeout : Nat) : Bool × TinyFrame L T × List (List UInt8) :=
  tfQuery tf { msg with data := none } listener ftimeout timeout

/-- The result is dropped. -/
def tfRespondMultipart (tf : TinyFrame L T) (msg : TfMsg) : TinyFrame L T × List (List UInt8) :=
  (tfRespond tf { msg with data := none }).2

/-- Neither of the two looks at the lock. -/
def tfMultipartPayload (tf : TinyFrame L T) (buff : List UInt8) (length : Nat) :
    TinyFrame L T × List (List UInt8) :=
  let (tx, writes) := tfSendFrameChunk tf.tx buff length
  ({ tf with tx := tx }, writes)

def tfMultipartClose (tf : TinyFrame L T) : TinyFrame L T × List (List UInt8) :=
  let (tx, writes) := tfSendFrameEnd tf.tx
  ({ tf with tx := tx }, writes)

/-! ### The sending API as a whole -/

inductive TxCall (L T : Type) where
  | send (msg : TfMsg)
  | sendSimple (type : UInt8) (data : Option (List UInt8)) (len : UInt16)
  | query (msg : TfMsg) (listener : Option L) (ftimeout : Option T) (timeout : Nat)
  | querySimple (type : UInt8) (data : Option (List UInt8)) (len : UInt16) (listener : Option L)
      (ftimeout : Option T) (timeout : Nat)
  | respond (msg : TfMsg)
  | sendMultipart (msg : TfMsg)
  | sendSimpleMultipart (type : UInt8) (len : UInt16)
  | queryMultipart (msg : TfMsg) (listener : Option L) (ftimeout : Option T) (timeout : Nat)
  | querySimpleMultipart (type : UInt8) (len : UInt16) (listener : Option L) (ftimeout : Option T)
      (timeout : Nat)
  | respondMultipart (msg : TfMsg)
  | multipartPayload (buff : List UInt8) (length : Nat)
  | multipartClose

/-- A call's result, if it has one, the instance after it and its `TF_WriteImpl` calls. -/
def txCall (tf : TinyFrame L T) : TxCall L T → Option Bool × TinyFrame L T × List (List UInt8)
  | .send msg => Prod.map some id (tfSend tf msg)
  | .sendSimple type data len => Prod.map some id (tfSendSimple tf type data len)
  | .query msg listener ftimeout timeout =>
    Prod.map some id (tfQuery tf msg listener ftimeout timeout)
  | .querySimple type data len listener ftimeout timeout =>
    Prod.map some id (tfQuerySimple tf type data len listener ftimeout timeout)
  | .respond msg => Prod.map some id (tfRespond tf msg)
  | .sendMultipart msg => Prod.map some id (tfSendMultipart tf msg)
  | .sendSimpleMultipart type len => Prod.map some id (tfSendSimpleMultipart tf type len)
  | .queryMultipart msg listener ftimeout timeout =>
    Prod.map some id (tfQueryMultipart tf msg listener ftimeout timeout)
  | .querySimpleMultipart type len listener ftimeout timeout =>
    Prod.map some id (tfQuerySimpleMultipart tf type len listener ftimeout timeout)
  | .respondMultipart msg => (none, tfRespondMultipart tf msg)
  | .multipartPayload buff length => (none, tfMultipartPayload tf buff length)
  | .multipartClose => (none, tfMultipartClose tf)

/-- An instance and all that it has written. -/
abbrev Sender (L T : Type) := TinyFrame L T × List (List UInt8)

def txStep (s : Sender L T) (c : TxCall L T) : Sender L T :=
  ((txCall s.1 c).2.1, s.2 ++ (txCall s.1 c).2.2)

end UpAndDownESP
