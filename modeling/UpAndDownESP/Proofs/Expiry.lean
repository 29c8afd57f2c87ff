import UpAndDownESP.Proofs.ListenerCounts

namespace UpAndDownESP.Proofs.Expiry
open HighWater Spec ListenerCounts

variable {L T σ : Type}

/-! ### One tick -/

/-- What a tick makes of an ID listener: with a timeout of zero it never expires. -/
def ticked (lst : IdListener L T) : IdListener L T :=
  if lst.timeout = 1 then { lst with fn := none, fnTimeout := none, timeout := 0 }
  else { lst with timeout := lst.timeout - 1 }

def expiring (lst : IdListener L T) : Bool := lst.fn.isSome && lst.timeout == 1

/-- The calls for a listener that expires: its timeout function, and then its own once
more if it kept userdata. -/
def expire (cb : Callbacks L T σ) (a : σ) (lst : IdListener L T) : σ :=
  let a := match lst.fnTimeout with
    | none => a
    | some g => cb.fnTimeout g a
  match lst.fn with
  | none => a
  | some f =>
    if lst.userdata ≠ none ∨ lst.userdata2 ≠ none then
      (cb.fn f { tfClearMsg with userdata := lst.userdata, userdata2 := lst.userdata2 } a).2
    else a

theorem tickOne_live (cb : Callbacks L T σ) (lst : IdListener L T) (a : σ)
    (hl : liveId lst = true) :
    tickOne cb lst a = (ticked lst, if lst.timeout = 1 then expire cb a lst else a, false) := by
  cases hf : lst.fn with
  | none => simp [liveId, hf] at hl
  | some f =>
    by_cases hz : lst.timeout = 0
    · have hsame : ticked lst = lst := by
        cases lst
        simp only at hz
        subst hz
        rfl
      rw [hsame]
      simp [tickOne, hz]
    · by_cases hone : lst.timeout = 1
      · cases hg : lst.fnTimeout with
        | none => simp [tickOne, ticked, expire, hone, hf, hg, cleanedUp, cleanupIdListener]
        | some g => simp [tickOne, ticked, expire, hone, hf, hg, cleanedUp, cleanupIdListener]
      · simp [tickOne, ticked, hz, hone]

/-- A tick with every slot looked at. -/
theorem tick_slots [DecidableEq L] (cb : Callbacks L T σ) (t : Tables L T) (a : σ) :
    Tables.step cb (t, a) .tick =
      ({ t with ids := t.ids.map fun lst => if liveId lst then ticked lst else lst },
        (t.ids.filter expiring).foldl (expire cb) a) := by
  have hcalls : (fun a lst => if liveId lst then if lst.timeout = 1 then expire cb a lst else a
        else a) =
      fun a (lst : IdListener L T) => if expiring lst then expire cb a lst else a := by
    funext a lst
    cases hl : liveId lst with
    | false =>
      rw [liveId] at hl
      simp [expiring, hl]
    | true =>
      rw [liveId] at hl
      simp [expiring, hl]
  simp only [Tables.step]
  rw [sweepAll_map (tickOne_live cb), hcalls, List.foldl_filter]

/-! ### Until it expires -/

/-- The operations that look for a listener of this ID. -/
def Concerns (id : UInt8) : TableOp L T → Prop
  | .received msg => msg.frameId = id
  | .removeIdListener i => i = id
  | .renewIdListener i => i = id
  | _ => False

def ticks (ops : List (TableOp L T)) : Nat :=
  ops.countP fun
    | .tick => true
    | _ => false

theorem fillFirst_keeps {α : Type} (free : α → Bool) {new : α → α} {x : α} (hx : free x = false)
    {slots : List α} {j : Nat} (hj : slots[j]? = some x) :
    (fillFirst free new slots)[j]? = some x := by
  induction slots generalizing j with
  | nil => simp at hj
  | cons y rest ih =>
    cases hf : free y with
    | true =>
      cases j with
      | zero =>
        simp only [List.getElem?_cons_zero, Option.some.injEq] at hj
        rw [hj, hx] at hf
        cases hf
      | succ j =>
        simp only [fillFirst, hf, if_true]
        exact hj
    | false =>
      cases j with
      | zero =>
        simp only [fillFirst, hf, Bool.false_eq_true, if_false]
        exact hj
      | succ j =>
        simp only [fillFirst, hf, Bool.false_eq_true, if_false]
        exact ih hj

/-- The ID listeners come first, so the others leave no mark on them. -/
theorem received_ids (cb : Callbacks L T σ) (msg : TfMsg) (t : Tables L T) (a : σ) :
    (t.received cb msg a).1.ids = (sweepAll liveId (offerId cb msg) a t.ids).2.1 := by
  simp only [Tables.received]
  rcases sweepAll liveId (offerId cb msg) a t.ids with ⟨handled, ids, a⟩
  cases handled with
  | true => rfl
  | false =>
    dsimp only
    split
    · rfl
    · rfl

theorem received_keeps (cb : Callbacks L T σ) {msg : TfMsg} {lst : IdListener L T}
    (hid : msg.frameId ≠ lst.id) (t : Tables L T) (a : σ) {j : Nat} (hj : t.ids[j]? = some lst) :
    (t.received cb msg a).1.ids[j]? = some lst := by
  rw [received_ids]
  apply sweepAll_keeps _ a hj
  intro a
  unfold offerId
  split
  · rfl
  · rw [if_neg (Ne.symm hid)]

/-- What becomes of a live listener that the operation does not look for. -/
theorem step_keeps [DecidableEq L] (cb : Callbacks L T σ) {op : TableOp L T} (lst : IdListener L T)
    (hl : liveId lst = true) (hq : ¬ Concerns lst.id op) (s : Tables L T × σ) {j : Nat}
    (hj : s.1.ids[j]? = some lst) :
    (Tables.step cb s op).1.ids[j]? = some (if ticks [op] = 1 then ticked lst else lst) := by
  have hfull : lst.fn.isNone = false := by
    rw [liveId] at hl
    simpa using hl
  have hother : ∀ id : UInt8, ¬ id = lst.id → (lst.id == id) = false := by
    intro id hne
    rw [beq_eq_false_iff_ne]
    exact Ne.symm hne
  cases op with
  | received msg => exact received_keeps cb hq s.1 s.2 hj
  | tick =>
    rw [tick_slots]
    simp [hj, hl, ticks]
  | addIdListener msg l ftimeout timeout =>
    exact fillFirst_keeps (fun lst : IdListener L T => lst.fn.isNone) hfull hj
  | addTypeListener | addGenericListener | removeTypeListener | removeGenericListener => exact hj
  | removeIdListener id =>
    apply sweepAll_keeps (x := lst) _ s.2 hj
    intro a
    simp [onFirst, hother id hq]
  | renewIdListener id =>
    apply sweepAll_keeps (x := lst) _ () hj
    intro a
    simp [onFirst, hother id hq]

/-- A listener that `n` more ticks have gone by for. -/
def aged (n : Nat) (lst : IdListener L T) : IdListener L T := { lst with timeout := lst.timeout - n }

theorem aged_step {lst : IdListener L T} {op : TableOp L T} {n : Nat}
    (hn : lst.timeout = 0 ∨ n + ticks [op] < lst.timeout) :
    (if ticks [op] = 1 then ticked (aged n lst) else aged n lst) = aged (n + ticks [op]) lst := by
  have hone : ticks [op] ≤ 1 := by
    cases op <;> simp [ticks]
  split
  · rename_i htick
    have hlater : (aged n lst).timeout ≠ 1 := by
      simp only [aged]
      omega
    rw [ticked, if_neg hlater, htick]
    simp only [aged, Nat.sub_sub]
  · have hzero : ticks [op] = 0 := by omega
    rw [hzero, Nat.add_zero]

theorem run_keeps [DecidableEq L] (cb : Callbacks L T σ) {lst : IdListener L T}
    (hl : liveId lst = true) {ops : List (TableOp L T)} (hq : ∀ op ∈ ops, ¬ Concerns lst.id op)
    (s : Tables L T × σ) {j n : Nat} (hj : s.1.ids[j]? = some (aged n lst))
    (hn : lst.timeout = 0 ∨ n + ticks ops < lst.timeout) :
    (Runs.run (Tables.step cb) s ops).1.ids[j]? = some (aged (n + ticks ops) lst) := by
  induction ops generalizing s n with
  | nil => exact hj
  | cons op ops ih =>
    have hsplit : ticks ([op] ++ ops) = ticks [op] + ticks ops := List.countP_append
    rw [List.singleton_append] at hsplit
    have hstep := step_keeps cb (aged n lst) hl (hq op (by simp)) s hj
    rw [aged_step (by omega)] at hstep
    rw [hsplit, ← Nat.add_assoc]
    exact ih (fun o ho => hq o (by simp [ho])) _ hstep (by omega)

/-- A tick, in any state the tables can get into: every listener on its last tick is
emptied, and its calls are made, in the order of the slots; every other one has a tick less;
the other two tables stay. -/
theorem tick_exact [DecidableEq L] (cb : Callbacks L T σ) (peer : TfPeer) (a : σ)
    (ops : List (TableOp L T)) :
    let s := reached cb peer a ops
    (tfTick cb s.1 s.2).1.idListeners =
        s.1.idListeners.map (fun lst => if liveId lst then ticked lst else lst) ∧
      (tfTick cb s.1 s.2).2 = (s.1.idListeners.filter expiring).foldl (expire cb) s.2 ∧
      (tfTick cb s.1 s.2).1.typeListeners = s.1.typeListeners ∧
      (tfTick cb s.1 s.2).1.genericListeners = s.1.genericListeners := by
  intro s
  have hcounted := (reached_tables cb peer a ops).2
  have htick := (tick_counted cb hcounted s.2).1.trans (tick_slots cb _ s.2)
  have hslots := congrArg (·.1.ids) htick
  have hcalls := congrArg (·.2) htick
  have htypes := congrArg (·.1.types) htick
  have hgenerics := congrArg (·.1.generics) htick
  exact ⟨hslots, hcalls, htypes, hgenerics⟩

/-- A listener stays as long as its timeout has ticks left, and goes with the last one,
whatever is received for other IDs, added, removed or renewed in the meantime. Without a
timeout it stays for good. -/
theorem listener_expires [DecidableEq L] (cb : Callbacks L T σ) (peer : TfPeer) (a : σ)
    (before ops : List (TableOp L T)) (j : Nat) (lst : IdListener L T)
    (hj : (reached cb peer a before).1.idListeners[j]? = some lst) (hl : lst.fn.isSome = true)
    (hq : ∀ op ∈ ops, ¬ Concerns lst.id op) :
    (lst.timeout = 0 ∨ ticks ops < lst.timeout →
      (reached cb peer a (before ++ ops)).1.idListeners[j]? = some (aged (ticks ops) lst)) ∧
    (lst.timeout = ticks ops + 1 →
      (reached cb peer a (before ++ ops ++ [.tick])).1.idListeners[j]? =
        some { lst with fn := none, fnTimeout := none, timeout := 0 }) := by
  have hseen := fun ops' => (reached_tables cb peer a ops').1
  have hstart : (shown (reached cb peer a before)).1.ids[j]? = some (aged 0 lst) := hj
  have hkept : lst.timeout = 0 ∨ ticks ops < lst.timeout →
      (shown (reached cb peer a (before ++ ops))).1.ids[j]? = some (aged (ticks ops) lst) := by
    intro hn
    rw [hseen, Runs.run_append, ← hseen]
    have hrun := run_keeps cb hl hq (shown (reached cb peer a before)) hstart (by omega)
    rw [Nat.zero_add] at hrun
    exact hrun
  refine ⟨hkept, ?_⟩
  intro hlast
  have hnow := hkept (Or.inr (by omega))
  change (shown (reached cb peer a (before ++ ops ++ [.tick]))).1.ids[j]? = _
  rw [hseen, Runs.run_append, ← hseen]
  have hgone := step_keeps cb (aged (ticks ops) lst) hl (fun h => h : ¬ Concerns lst.id .tick) _ hnow
  have hone : (aged (ticks ops) lst).timeout = 1 := by
    simp only [aged]
    omega
  have htick : ticks [(.tick : TableOp L T)] = 1 := rfl
  rw [Runs.run_cons, Runs.run_nil, hgone, if_pos htick, ticked, if_pos hone]
  rfl

def silent : Callbacks Unit Unit Nat where
  fn := fun _ _ a => (.stay, a)
  fnTimeout := fun _ a => a + 1

/-- With a timeout of two ticks, a message for another ID and a new listener in between. -/
theorem two_ticks_expire :
    (reached silent .slave 0 ([.addIdListener { tfClearMsg with frameId := 3 } () (some ()) 2] ++
        [.tick, .received { tfClearMsg with frameId := 4 }, .addTypeListener 1 ()] ++
        [.tick])).1.idListeners[0]? =
      some { id := 3, fn := none, fnTimeout := none, timeout := 0, timeoutMax := 2,
             userdata := none, userdata2 := none } :=
  (listener_expires silent .slave 0 [.addIdListener { tfClearMsg with frameId := 3 } () (some ()) 2]
    [.tick, .received { tfClearMsg with frameId := 4 }, .addTypeListener 1 ()] 0
    { id := 3, fn := some (), fnTimeout := some (), timeout := 2, timeoutMax := 2,
      userdata := none, userdata2 := none } rfl rfl
    (by simp [Concerns, tfClearMsg])).2 rfl

end UpAndDownESP.Proofs.Expiry
