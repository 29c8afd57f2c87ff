import UpAndDownESP.TinyFrame.State

namespace UpAndDownESP

variable {L T σ : Type}

def renewIdListener (lst : IdListener L T) : IdListener L T := { lst with timeout := lst.timeoutMax }

/-- Empty slot `i`. The high-water count goes down only if this was the last slot
under it. The listener is called once more if it kept userdata. -/
def cleanupIdListener (cb : Callbacks L T σ) (i count : Nat) (lst : IdListener L T) (a : σ) :
    IdListener L T × Nat × σ :=
  match lst.fn with
  | none => (lst, count, a)
  | some f =>
    let a :=
      if lst.userdata ≠ none ∨ lst.userdata2 ≠ none then
        (cb.fn f { tfClearMsg with userdata := lst.userdata, userdata2 := lst.userdata2 } a).2
      else a
    ({ lst with fn := none, fnTimeout := none }, if i + 1 = count then count - 1 else count, a)

/-- The scan of the three `TF_Add...Listener` functions: the first free slot is
filled and its index returned. -/
def fillSlot {α : Type} (free : α → Bool) (fill : α → α) (i : Nat) : List α → Option (Nat × List α)
  | [] => none
  | lst :: rest =>
    if free lst then some (i, fill lst :: rest)
    else (fillSlot free fill (i + 1) rest).map fun r => (r.1, lst :: r.2)

def tfAddIdListener (tf : TinyFrame L T) (msg : TfMsg) (cb : L) (ftimeout : Option T)
    (timeout : Nat) : Bool × TinyFrame L T :=
  let fill := fun lst : IdListener L T =>
    { lst with
      fn := some cb, fnTimeout := ftimeout, id := msg.frameId, userdata := msg.userdata,
      userdata2 := msg.userdata2, timeoutMax := timeout, timeout := timeout }
  match fillSlot (fun lst => lst.fn.isNone) fill 0 tf.idListeners with
  | none => (false, tf)
  | some (i, slots) =>
    (true, { tf with
      idListeners := slots
      countIdLst := if tf.countIdLst ≤ i then i + 1 else tf.countIdLst })

def tfAddTypeListener (tf : TinyFrame L T) (frameType : UInt8) (cb : L) : Bool × TinyFrame L T :=
  let fill := fun _ : TypeListener L => { fn := some cb, type := frameType }
  match fillSlot (fun lst => lst.fn.isNone) fill 0 tf.typeListeners with
  | none => (false, tf)
  | some (i, slots) =>
    (true, { tf with
      typeListeners := slots
      countTypeLst := if tf.countTypeLst ≤ i then i + 1 else tf.countTypeLst })

def tfAddGenericListener (tf : TinyFrame L T) (cb : L) : Bool × TinyFrame L T :=
  let fill := fun _ : GenericListener L => { fn := some cb }
  match fillSlot (fun lst => lst.fn.isNone) fill 0 tf.genericListeners with
  | none => (false, tf)
  | some (i, slots) =>
    (true, { tf with
      genericListeners := slots
      countGenericLst := if tf.countGenericLst ≤ i then i + 1 else tf.countGenericLst })

/-- The ID listener loop of `TF_HandleReceivedMessage` from slot `i` on: whether
a listener consumed the message, the slots, the count and the program's state. -/
def offerToIds (cb : Callbacks L T σ) (i count : Nat) (msg : TfMsg) (a : σ) :
    List (IdListener L T) → Bool × List (IdListener L T) × Nat × σ
  | [] => (false, [], count, a)
  | ilst :: rest =>
    if i < count then
      match ilst.fn with
      | none =>
        let (handled, rest, count, a) := offerToIds cb (i + 1) count msg a rest
        (handled, ilst :: rest, count, a)
      | some f =>
        if ilst.id = msg.frameId then
          let msg := { msg with userdata := ilst.userdata, userdata2 := ilst.userdata2 }
          match cb.fn f msg a with
          | (.next, a) =>
            let (handled, rest, count, a) := offerToIds cb (i + 1) count msg a rest
            (handled, ilst :: rest, count, a)
          | (.stay, a) => (true, ilst :: rest, count, a)
          | (.renew, a) => (true, renewIdListener ilst :: rest, count, a)
          | (.close, a) =>
            let (ilst, count, a) :=
              cleanupIdListener cb i count { ilst with userdata := none, userdata2 := none } a
            (true, ilst :: rest, count, a)
        else
          let (handled, rest, count, a) := offerToIds cb (i + 1) count msg a rest
          (handled, ilst :: rest, count, a)
    else (false, ilst :: rest, count, a)

/-- The type and the generic listener loops differ in which slots want the message
and in how a slot is cleaned up. -/
def offerTo {α : Type} (cb : Callbacks L T σ) (fn : α → Option L) (wants : α → Bool)
    (discard : α → α) (i count : Nat) (msg : TfMsg) (a : σ) :
    List α → Bool × List α × Nat × σ
  | [] => (false, [], count, a)
  | lst :: rest =>
    if i < count then
      match fn lst, wants lst with
      | some f, true =>
        match cb.fn f msg a with
        | (.next, a) =>
          let (handled, rest, count, a) := offerTo cb fn wants discard (i + 1) count msg a rest
          (handled, lst :: rest, count, a)
        | (.close, a) =>
          (true, discard lst :: rest, if i + 1 = count then count - 1 else count, a)
        | (_, a) => (true, lst :: rest, count, a)
      | _, _ =>
        let (handled, rest, count, a) := offerTo cb fn wants discard (i + 1) count msg a rest
        (handled, lst :: rest, count, a)
    else (false, lst :: rest, count, a)

/-- ID listeners first, then type listeners, then generic ones; the first to answer
anything but `TF_NEXT` ends the search. -/
def tfHandleReceivedMessage (cb : Callbacks L T σ) (tf : TinyFrame L T) (msg : TfMsg) (a : σ) :
    TinyFrame L T × σ :=
  match offerToIds cb 0 tf.countIdLst msg a tf.idListeners with
  | (true, slots, count, a) => ({ tf with idListeners := slots, countIdLst := count }, a)
  | (false, slots, count, a) =>
    let tf := { tf with idListeners := slots, countIdLst := count }
    let msg := { msg with userdata := none, userdata2 := none }
    match offerTo cb (fun lst => lst.fn) (fun lst => lst.type == msg.type)
        (fun lst => { lst with fn := none }) 0 tf.countTypeLst msg a tf.typeListeners with
    | (true, slots, count, a) => ({ tf with typeListeners := slots, countTypeLst := count }, a)
    | (false, slots, count, a) =>
      let tf := { tf with typeListeners := slots, countTypeLst := count }
      match offerTo cb (fun lst => lst.fn) (fun _ => true)
          (fun lst => { lst with fn := none }) 0 tf.countGenericLst msg a tf.genericListeners with
      | (_, slots, count, a) =>
        ({ tf with genericListeners := slots, countGenericLst := count }, a)

/-- The listener loop of `TF_Tick` from slot `i` on. The bound is read again at
every slot, and a cleanup may lower it. -/
def tickIds (cb : Callbacks L T σ) (i count : Nat) (a : σ) :
    List (IdListener L T) → List (IdListener L T) × Nat × σ
  | [] => ([], count, a)
  | lst :: rest =>
    if i < count then
      let (lst, count, a) :=
        if lst.fn.isNone ∨ lst.timeout = 0 then (lst, count, a)
        else
          let lst := { lst with timeout := lst.timeout - 1 }
          if lst.timeout = 0 then
            let a := match lst.fnTimeout with
              | none => a
              | some g => cb.fnTimeout g a
            cleanupIdListener cb i count lst a
          else (lst, count, a)
      let (rest, count, a) := tickIds cb (i + 1) count a rest
      (lst :: rest, count, a)
    else (lst :: rest, count, a)

/-- The parser's part of a tick; the timeout itself is acted on by the next byte. -/
def tickParser (p : Parser) : Parser :=
  if p.parserTimeoutTicks < tfParserTimeoutTicks then
    { p with parserTimeoutTicks := p.parserTimeoutTicks + 1 }
  else p

def tfTick (cb : Callbacks L T σ) (tf : TinyFrame L T) (a : σ) : TinyFrame L T × σ :=
  let (slots, count, a) := tickIds cb 0 tf.countIdLst a tf.idListeners
  ({ tf with parser := tickParser tf.parser, idListeners := slots, countIdLst := count }, a)

end UpAndDownESP
