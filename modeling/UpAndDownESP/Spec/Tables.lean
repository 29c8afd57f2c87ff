import UpAndDownESP.Lib.HighWater
import UpAndDownESP.TinyFrame.Removal

namespace UpAndDownESP.Spec
open HighWater

variable {L T σ : Type}

/-! The listener tables without counts: every slot is looked at every time. -/

structure Tables (L T : Type) where
  ids : List (IdListener L T)
  types : List (TypeListener L)
  generics : List (GenericListener L)

def liveId (lst : IdListener L T) : Bool := lst.fn.isSome
def liveType (lst : TypeListener L) : Bool := lst.fn.isSome
def liveGeneric (lst : GenericListener L) : Bool := lst.fn.isSome

/-- A message offered to one ID listener. -/
def offerId (cb : Callbacks L T σ) (msg : TfMsg) (lst : IdListener L T) (a : σ) :
    IdListener L T × σ × Bool :=
  match lst.fn with
  | none => (lst, a, false)
  | some f =>
    if lst.id = msg.frameId then
      match cb.fn f { msg with userdata := lst.userdata, userdata2 := lst.userdata2 } a with
      | (.next, a) => (lst, a, false)
      | (.stay, a) => (lst, a, true)
      | (.renew, a) => (renewIdListener lst, a, true)
      | (.close, a) =>
        ({ lst with fn := none, fnTimeout := none, userdata := none, userdata2 := none }, a, true)
    else (lst, a, false)

/-- A message offered to one listener of the other two kinds. -/
def offerOne {α : Type} (cb : Callbacks L T σ) (fn : α → Option L) (wants : α → Bool)
    (discard : α → α) (msg : TfMsg) (lst : α) (a : σ) : α × σ × Bool :=
  match fn lst, wants lst with
  | some f, true =>
    match cb.fn f msg a with
    | (.next, a) => (lst, a, false)
    | (.close, a) => (discard lst, a, true)
    | (_, a) => (lst, a, true)
  | _, _ => (lst, a, false)

def offerType (cb : Callbacks L T σ) (msg : TfMsg) : TypeListener L → σ → TypeListener L × σ × Bool :=
  offerOne cb (fun lst => lst.fn) (fun lst => lst.type == msg.type) (fun lst => { lst with fn := none })
    msg

def offerGeneric (cb : Callbacks L T σ) (msg : TfMsg) :
    GenericListener L → σ → GenericListener L × σ × Bool :=
  offerOne cb (fun lst => lst.fn) (fun _ => true) (fun lst => { lst with fn := none }) msg

/-- The slot after `cleanup_id_listener`, and the program's state. -/
def cleanedUp (cb : Callbacks L T σ) (lst : IdListener L T) (a : σ) : IdListener L T × σ :=
  let r := cleanupIdListener cb 0 0 lst a
  (r.1, r.2.2)

/-- A tick for one ID listener: with no ticks left to count it never expires. -/
def tickOne (cb : Callbacks L T σ) (lst : IdListener L T) (a : σ) : IdListener L T × σ × Bool :=
  if lst.timeout = 0 then (lst, a, false)
  else if lst.timeout = 1 then
    let a := match lst.fnTimeout with
      | none => a
      | some g => cb.fnTimeout g a
    let r := cleanedUp cb { lst with timeout := 0 } a
    (r.1, r.2, false)
  else ({ lst with timeout := lst.timeout - 1 }, a, false)

/-- Fill the first free slot, if there is one. -/
def fillFirst {α : Type} (free : α → Bool) (new : α → α) : List α → List α
  | [] => []
  | lst :: rest => if free lst then new lst :: rest else lst :: fillFirst free new rest

def Tables.received (cb : Callbacks L T σ) (msg : TfMsg) (t : Tables L T) (a : σ) :
    Tables L T × σ :=
  match sweepAll liveId (offerId cb msg) a t.ids with
  | (true, ids, a) => ({ t with ids := ids }, a)
  | (false, ids, a) =>
    let plain := { msg with userdata := none, userdata2 := none }
    match sweepAll liveType (offerType cb plain) a t.types with
    | (true, types, a) => ({ t with ids := ids, types := types }, a)
    | (false, types, a) =>
      let r := sweepAll liveGeneric (offerGeneric cb plain) a t.generics
      (⟨ids, types, r.2.1⟩, r.2.2)

def Tables.step [DecidableEq L] (cb : Callbacks L T σ) (s : Tables L T × σ) :
    TableOp L T → Tables L T × σ
  | .received msg => s.1.received cb msg s.2
  | .tick =>
    let r := sweepAll liveId (tickOne cb) s.2 s.1.ids
    ({ s.1 with ids := r.2.1 }, r.2.2)
  | .addIdListener msg l ftimeout timeout =>
    let new := fun lst : IdListener L T =>
      { lst with
        fn := some l, fnTimeout := ftimeout, id := msg.frameId, userdata := msg.userdata,
        userdata2 := msg.userdata2, timeoutMax := timeout, timeout := timeout }
    ({ s.1 with ids := fillFirst (fun lst => lst.fn.isNone) new s.1.ids }, s.2)
  | .addTypeListener type l =>
    ({ s.1 with
      types := fillFirst (fun lst => lst.fn.isNone) (fun _ => { fn := some l, type := type })
        s.1.types }, s.2)
  | .addGenericListener l =>
    ({ s.1 with
      generics := fillFirst (fun lst => lst.fn.isNone) (fun _ => { fn := some l }) s.1.generics },
      s.2)
  | .removeIdListener id =>
    let r := sweepAll liveId (onFirst (fun lst => lst.id == id) (cleanedUp cb)) s.2 s.1.ids
    ({ s.1 with ids := r.2.1 }, r.2.2)
  | .removeTypeListener type =>
    let r := sweepAll liveType (onFirst (fun lst => lst.type == type)
      fun lst a => ({ lst with fn := none }, a)) () s.1.types
    ({ s.1 with types := r.2.1 }, s.2)
  | .removeGenericListener l =>
    let r := sweepAll liveGeneric (onFirst (fun lst => decide (lst.fn = l))
      fun lst a => ({ lst with fn := none }, a)) () s.1.generics
    ({ s.1 with generics := r.2.1 }, s.2)
  | .renewIdListener id =>
    let r := sweepAll liveId (onFirst (fun lst => lst.id == id)
      fun lst a => (renewIdListener lst, a)) () s.1.ids
    ({ s.1 with ids := r.2.1 }, s.2)

/-- The tables of an instance, its counts left out. -/
def tables (tf : TinyFrame L T) : Tables L T :=
  ⟨tf.idListeners, tf.typeListeners, tf.genericListeners⟩

def shown (s : TinyFrame L T × σ) : Tables L T × σ := (tables s.1, s.2)

end UpAndDownESP.Spec
