import UpAndDownESP.Lib.Runs
import UpAndDownESP.TinyFrame.Listeners

namespace UpAndDownESP

variable {L T σ : Type}

/-- The search of `TF_Remove...Listener` and `TF_RenewIdListener` from slot `i` on: only
slots below the count are looked at, and `act` is applied to the first that passes. -/
def onMatch {α : Type} (test : α → Bool) (act : Nat → Nat → α → σ → α × Nat × σ) (i count : Nat)
    (a : σ) : List α → Bool × List α × Nat × σ
  | [] => (false, [], count, a)
  | lst :: rest =>
    if i < count then
      if test lst then
        let (lst, count, a) := act i count lst a
        (true, lst :: rest, count, a)
      else
        let (found, rest, count, a) := onMatch test act (i + 1) count a rest
        (found, lst :: rest, count, a)
    else (false, lst :: rest, count, a)

def tfRemoveIdListener (cb : Callbacks L T σ) (tf : TinyFrame L T) (frameId : UInt8) (a : σ) :
    Bool × TinyFrame L T × σ :=
  let (found, slots, count, a) :=
    onMatch (fun lst => lst.fn.isSome && lst.id == frameId) (cleanupIdListener cb) 0 tf.countIdLst a
      tf.idListeners
  (found, { tf with idListeners := slots, countIdLst := count }, a)

def cleanupTypeListener (i count : Nat) (lst : TypeListener L) (_ : Unit) :
    TypeListener L × Nat × Unit :=
  ({ lst with fn := none }, if i + 1 = count then count - 1 else count, ())

def cleanupGenericListener (i count : Nat) (lst : GenericListener L) (_ : Unit) :
    GenericListener L × Nat × Unit :=
  ({ lst with fn := none }, if i + 1 = count then count - 1 else count, ())

def tfRemoveTypeListener (tf : TinyFrame L T) (type : UInt8) : Bool × TinyFrame L T :=
  let (found, slots, count, _) :=
    onMatch (fun lst => lst.fn.isSome && lst.type == type) cleanupTypeListener 0 tf.countTypeLst ()
      tf.typeListeners
  (found, { tf with typeListeners := slots, countTypeLst := count })

/-- The test is for the function alone: a search for NULL finds a free slot. -/
def tfRemoveGenericListener [DecidableEq L] (tf : TinyFrame L T) (cb : Option L) :
    Bool × TinyFrame L T :=
  let (found, slots, count, _) :=
    onMatch (fun lst => decide (lst.fn = cb)) cleanupGenericListener 0 tf.countGenericLst ()
      tf.genericListeners
  (found, { tf with genericListeners := slots, countGenericLst := count })

def tfRenewIdListener (tf : TinyFrame L T) (id : UInt8) : Bool × TinyFrame L T :=
  let (found, slots, count, _) :=
    onMatch (fun lst => lst.fn.isSome && lst.id == id)
      (fun _ count lst (a : Unit) => (renewIdListener lst, count, a)) 0 tf.countIdLst ()
      tf.idListeners
  (found, { tf with idListeners := slots, countIdLst := count })

/-! ### Everything that touches the listener tables -/

inductive TableOp (L T : Type) where
  | received (msg : TfMsg)
  | tick
  | addIdListener (msg : TfMsg) (cb : L) (ftimeout : Option T) (timeout : Nat)
  | addTypeListener (type : UInt8) (cb : L)
  | addGenericListener (cb : L)
  | removeIdListener (id : UInt8)
  | removeTypeListener (type : UInt8)
  | removeGenericListener (cb : Option L)
  | renewIdListener (id : UInt8)

def tableStep [DecidableEq L] (cb : Callbacks L T σ) (s : TinyFrame L T × σ) :
    TableOp L T → TinyFrame L T × σ
  | .received msg => tfHandleReceivedMessage cb s.1 msg s.2
  | .tick => tfTick cb s.1 s.2
  | .addIdListener msg l ftimeout timeout => ((tfAddIdListener s.1 msg l ftimeout timeout).2, s.2)
  | .addTypeListener type l => ((tfAddTypeListener s.1 type l).2, s.2)
  | .addGenericListener l => ((tfAddGenericListener s.1 l).2, s.2)
  | .removeIdListener id => (tfRemoveIdListener cb s.1 id s.2).2
  | .removeTypeListener type => ((tfRemoveTypeListener s.1 type).2, s.2)
  | .removeGenericListener l => ((tfRemoveGenericListener s.1 l).2, s.2)
  | .renewIdListener id => ((tfRenewIdListener s.1 id).2, s.2)

/-- An instance after these operations, with the program's state. -/
def reached [DecidableEq L] (cb : Callbacks L T σ) (peer : TfPeer) (a : σ)
    (ops : List (TableOp L T)) : TinyFrame L T × σ :=
  Runs.run (tableStep cb) (tfInitStatic L T peer, a) ops

end UpAndDownESP
