import UpAndDownESP.Proofs.Expiry
import UpAndDownESP.Proofs.FrameFormat
import UpAndDownESP.Proofs.Sending

namespace UpAndDownESP.Proofs.Exchange
open HighWater Spec Sending Receiving FrameFormat ListenerCounts Expiry

variable {L T σ : Type}

/-! ### Instances at rest -/

/-- An instance between two frames, with its transmitter and its parser at rest. -/
structure Ready (tf : TinyFrame L T) : Prop where
  counted : Counted tf
  idle : Idle tf.tx
  parser : tf.parser.state = .sof

/-- A message leaves its mark on the tables only. -/
theorem handle_rest (cb : Callbacks L T σ) (tf : TinyFrame L T) (msg : TfMsg) (a : σ) :
    (tfHandleReceivedMessage cb tf msg a).1.parser = tf.parser ∧
      (tfHandleReceivedMessage cb tf msg a).1.tx = tf.tx := by
  unfold tfHandleReceivedMessage
  split
  · exact ⟨rfl, rfl⟩
  · dsimp only
    split
    · exact ⟨rfl, rfl⟩
    · exact ⟨rfl, rfl⟩

theorem tableStep_rest [DecidableEq L] (cb : Callbacks L T σ) (s : TinyFrame L T × σ)
    (op : TableOp L T) :
    (tableStep cb s op).1.parser.state = s.1.parser.state ∧ (tableStep cb s op).1.tx = s.1.tx := by
  cases op with
  | received msg =>
    obtain ⟨hp, htx⟩ := handle_rest cb s.1 msg s.2
    exact ⟨congrArg (·.state) hp, htx⟩
  | tick =>
    refine ⟨?_, rfl⟩
    change (tickParser s.1.parser).state = _
    unfold tickParser
    split
    · rfl
    · rfl
  | addIdListener | addTypeListener | addGenericListener =>
    simp only [tableStep, tfAddIdListener, tfAddTypeListener, tfAddGenericListener]
    split
    · exact ⟨rfl, rfl⟩
    · exact ⟨rfl, rfl⟩
  | removeIdListener | removeTypeListener | removeGenericListener | renewIdListener =>
    exact ⟨rfl, rfl⟩

theorem step_ready [DecidableEq L] (cb : Callbacks L T σ) (s : TinyFrame L T × σ)
    (op : TableOp L T) (h : Ready s.1) : Ready (tableStep cb s op).1 := by
  obtain ⟨hstate, htx⟩ := tableStep_rest cb s op
  refine ⟨(step_counted cb s op h.counted).2, ?_, hstate.trans h.parser⟩
  rw [htx]
  exact h.idle

/-! ### Bytes into the tables -/

/-- Accepting bytes is delivering the messages they complete. -/
theorem accept_tables (cb : Callbacks L T σ) (rx : List UInt8) {tf : TinyFrame L T}
    (h : Counted tf) (a : σ) :
    let r := tfAccept cb tf rx a
    shown r = (Mealy.run parseChar tf.parser rx).2.foldl (fun s msg => s.1.received cb msg s.2)
        (shown (tf, a)) ∧
      Counted r.1 ∧ r.1.parser = (Mealy.run parseChar tf.parser rx).1 ∧ r.1.tx = tf.tx := by
  induction rx generalizing tf a with
  | nil => exact ⟨rfl, h, rfl, rfl⟩
  | cons c rx ih =>
    let moved := { tf with parser := (parseChar tf.parser c).1 }
    have hmoved : Counted moved := ⟨h.ids, h.types, h.generics⟩
    rw [tfAccept, List.foldl_cons]
    cases hm : (parseChar tf.parser c).2 with
    | none =>
      rw [accept_quiet cb tf a hm, Mealy.run, hm]
      exact ih hmoved a
    | some msg =>
      obtain ⟨hshown, hcounted⟩ := received_counted cb msg hmoved a
      obtain ⟨hp, htx⟩ := handle_rest cb moved msg a
      obtain ⟨hrest, hc, hparser, htx'⟩ := ih hcounted (tfHandleReceivedMessage cb moved msg a).2
      rw [hp] at hrest hparser
      rw [accept_msg cb tf a hm, Mealy.run, hm]
      refine ⟨?_, hc, hparser, htx'.trans htx⟩
      refine hrest.trans ?_
      rw [List.foldl_append, shown, hshown]
      rfl

/-! ### The only listener of its ID -/

/-- The listener is in this slot, and no other live one has its ID. -/
structure Waits (j : Nat) (lst : IdListener L T) (slots : List (IdListener L T)) : Prop where
  there : slots[j]? = some lst
  only : ∀ k y, slots[k]? = some y → liveId y = true → y.id = lst.id → k = j

/-- The operations that may put in a listener of this ID. -/
def Adds (id : UInt8) : TableOp L T → Prop
  | .addIdListener msg _ _ _ => msg.frameId = id
  | _ => False

theorem fillFirst_origin {α : Type} {free : α → Bool} {new : α → α} {slots : List α} {k : Nat}
    {y : α} (h : (fillFirst free new slots)[k]? = some y) : slots[k]? = some y ∨ ∃ x, y = new x := by
  induction slots generalizing k with
  | nil => simp [fillFirst] at h
  | cons x rest ih =>
    cases hf : free x with
    | true =>
      simp only [fillFirst, hf, if_true] at h
      cases k with
      | zero => exact Or.inr ⟨x, (Option.some.inj h).symm⟩
      | succ k => exact Or.inl h
    | false =>
      simp only [fillFirst, hf, Bool.false_eq_true, if_false] at h
      cases k with
      | zero => exact Or.inl h
      | succ k => exact ih h

/-- A sweep whose visits leave the IDs alone finds every ID where it was. -/
theorem sweep_origin {τ : Type} {visit : IdListener L T → τ → IdListener L T × τ × Bool}
    (hid : ∀ x s, (visit x s).1.id = x.id) {s : τ} {slots : List (IdListener L T)} {k : Nat}
    {y : IdListener L T} (h : (sweepAll liveId visit s slots).2.1[k]? = some y)
    (hl : liveId y = true) : ∃ x, slots[k]? = some x ∧ liveId x = true ∧ x.id = y.id := by
  obtain ⟨x, hx, rfl | ⟨hlx, s', rfl⟩⟩ := sweepAll_origin h
  · exact ⟨y, hx, hl, rfl⟩
  · exact ⟨x, hx, hlx, (hid x s').symm⟩

theorem offerId_id (cb : Callbacks L T σ) (msg : TfMsg) (x : IdListener L T) (a : σ) :
    (offerId cb msg x a).1.id = x.id := by
  unfold offerId
  split
  · rfl
  · split
    · split
      all_goals rfl
    · rfl

theorem cleanedUp_id (cb : Callbacks L T σ) (x : IdListener L T) (a : σ) :
    (cleanedUp cb x a).1.id = x.id := by
  simp only [cleanedUp, cleanupIdListener]
  split
  · rfl
  · rfl

theorem tickOne_id (cb : Callbacks L T σ) (x : IdListener L T) (a : σ) :
    (tickOne cb x a).1.id = x.id := by
  unfold tickOne
  split
  · rfl
  · split
    · exact cleanedUp_id cb _ _
    · rfl

theorem onFirst_id {τ : Type} {wanted : IdListener L T → Bool}
    {act : IdListener L T → τ → IdListener L T × τ} (hact : ∀ x s, (act x s).1.id = x.id)
    (x : IdListener L T) (s : τ) : (onFirst wanted act x s).1.id = x.id := by
  unfold onFirst
  split
  · exact hact x s
  · rfl

/-- Where a live listener was before the operation, unless that put it in. -/
theorem step_origin [DecidableEq L] (cb : Callbacks L T σ) (s : Tables L T × σ)
    (op : TableOp L T) {k : Nat} {y : IdListener L T}
    (h : (Tables.step cb s op).1.ids[k]? = some y) (hl : liveId y = true) :
    (∃ x, s.1.ids[k]? = some x ∧ liveId x = true ∧ x.id = y.id) ∨ Adds y.id op := by
  cases op with
  | received msg =>
    change (s.1.received cb msg s.2).1.ids[k]? = some y at h
    rw [received_ids] at h
    exact Or.inl (sweep_origin (offerId_id cb msg) h hl)
  | tick => exact Or.inl (sweep_origin (tickOne_id cb) h hl)
  | addIdListener msg l ftimeout timeout =>
    rcases fillFirst_origin h with hk | ⟨x, rfl⟩
    · exact Or.inl ⟨y, hk, hl, rfl⟩
    · exact Or.inr rfl
  | addTypeListener | addGenericListener | removeTypeListener | removeGenericListener =>
    exact Or.inl ⟨y, h, hl, rfl⟩
  | removeIdListener id => exact Or.inl (sweep_origin (onFirst_id (cleanedUp_id cb)) h hl)
  | renewIdListener id => exact Or.inl (sweep_origin (onFirst_id fun _ _ => rfl) h hl)

/-- Over a run that puts in no listener of this ID, every one of it was there before. -/
theorem run_origin [DecidableEq L] (cb : Callbacks L T σ) {id : UInt8} {ops : List (TableOp L T)}
    (hadd : ∀ op ∈ ops, ¬ Adds id op) (s : Tables L T × σ) {k : Nat} {y : IdListener L T}
    (hk : (Runs.run (Tables.step cb) s ops).1.ids[k]? = some y) (hl : liveId y = true)
    (hid : y.id = id) : ∃ x, s.1.ids[k]? = some x ∧ liveId x = true ∧ x.id = id := by
  induction ops generalizing s with
  | nil => exact ⟨y, hk, hl, hid⟩
  | cons op ops ih =>
    obtain ⟨x, hx, hlx, hidx⟩ := ih (fun o ho => hadd o (by simp [ho])) (Tables.step cb s op) hk
    rcases step_origin cb s op hx hlx with ⟨z, hz, hlz, hidz⟩ | hnew
    · exact ⟨z, hz, hlz, hidz.trans hidx⟩
    · rw [hidx] at hnew
      exact absurd hnew (hadd op (by simp))

/-- It keeps waiting, a tick older for every tick, as long as nothing looks for its ID or
puts in another, and its timeout has ticks left. -/
theorem run_waits [DecidableEq L] (cb : Callbacks L T σ) {lst : IdListener L T}
    (hl : liveId lst = true) {ops : List (TableOp L T)} (hq : ∀ op ∈ ops, ¬ Concerns lst.id op)
    (hadd : ∀ op ∈ ops, ¬ Adds lst.id op) (s : Tables L T × σ) {j : Nat}
    (hw : Waits j lst s.1.ids) (hn : lst.timeout = 0 ∨ Expiry.ticks ops < lst.timeout) :
    Waits j (aged (Expiry.ticks ops) lst) (Runs.run (Tables.step cb) s ops).1.ids := by
  have hkept := run_keeps cb hl hq s (n := 0) hw.there (by omega)
  rw [Nat.zero_add] at hkept
  refine ⟨hkept, ?_⟩
  intro k y hk hly hid
  obtain ⟨x, hx, hlx, hidx⟩ := run_origin cb hadd s hk hly hid
  exact hw.only k x hx hlx hidx

/-- A message for the only listener of its ID goes to that one. If it closes there is none
of that ID any more. -/
theorem received_waits (cb : Callbacks L T σ) {msg : TfMsg} {lst : IdListener L T} {l : L}
    (hf : lst.fn = some l) (hid : lst.id = msg.frameId) {t : Tables L T} {j : Nat}
    (hw : Waits j lst t.ids) (a : σ)
    (hclose : (cb.fn l { msg with userdata := lst.userdata, userdata2 := lst.userdata2 } a).1 =
      .close) :
    (t.received cb msg a).2 =
        (cb.fn l { msg with userdata := lst.userdata, userdata2 := lst.userdata2 } a).2 ∧
      ∀ y ∈ (t.received cb msg a).1.ids, liveId y = true → y.id ≠ msg.frameId := by
  obtain ⟨closed, hclosed, hdead⟩ : ∃ closed : IdListener L T, offerId cb msg lst a =
      (closed, (cb.fn l { msg with userdata := lst.userdata, userdata2 := lst.userdata2 } a).2,
        true) ∧ liveId closed = false := by
    refine ⟨{ lst with fn := none, fnTimeout := none, userdata := none, userdata2 := none }, ?_, rfl⟩
    cases hr : cb.fn l { msg with userdata := lst.userdata, userdata2 := lst.userdata2 } a with
    | mk res b =>
      rw [hr] at hclose
      change res = .close at hclose
      subst hclose
      simp only [offerId, hf, hid, if_true]
      rw [hr]
  have hl : liveId lst = true := by
    rw [liveId, hf]
    rfl
  have hbefore : ∀ k < j, ∀ y, t.ids[k]? = some y → liveId y = true →
      offerId cb msg y a = (y, a, false) := by
    intro k hk y hy hly
    have hne : ¬ y.id = msg.frameId := by
      intro he
      have := hw.only k y hy hly (he.trans hid.symm)
      omega
    unfold offerId
    split
    · rfl
    · rw [if_neg hne]
  have hreach := sweepAll_reaches hw.there hl (by rw [hclosed]) hbefore
  rw [hclosed] at hreach
  have hreceived : t.received cb msg a = ({ t with ids := t.ids.set j closed },
      (cb.fn l { msg with userdata := lst.userdata, userdata2 := lst.userdata2 } a).2) := by
    simp only [Tables.received]
    rw [hreach]
  rw [hreceived]
  refine ⟨rfl, ?_⟩
  intro y hy hly he
  obtain ⟨k, hk⟩ := List.mem_iff_getElem?.mp hy
  by_cases hkj : k = j
  · subst hkj
    have hlt : k < t.ids.length := (List.getElem?_eq_some_iff.mp hw.there).1
    change (t.ids.set k closed)[k]? = some y at hk
    rw [List.getElem?_set_self hlt, Option.some.injEq] at hk
    rw [← hk, hdead] at hly
    cases hly
  · change (t.ids.set j closed)[k]? = some y at hk
    rw [List.getElem?_set_ne (Ne.symm hkj)] at hk
    exact hkj (hw.only k y hk hly (he.trans hid.symm))

/-! ### The query and the reply -/

/-- Where a slot is free the listener finds one. -/
theorem fillSlot_at {α : Type} (free : α → Bool) (new : α → α) (i : Nat) {slots : List α}
    (h : ∃ x ∈ slots, free x = true) :
    ∃ j x, slots[j]? = some x ∧ free x = true ∧
      fillSlot free new i slots = some (i + j, slots.set j (new x)) := by
  induction slots generalizing i with
  | nil => simp at h
  | cons y rest ih =>
    cases hf : free y with
    | true => exact ⟨0, y, rfl, hf, by simp [fillSlot, hf]⟩
    | false =>
      obtain ⟨x, hx, hfx⟩ := h
      have hrest : x ∈ rest := by
        rcases List.mem_cons.mp hx with rfl | hx
        · rw [hf] at hfx
          cases hfx
        · exact hx
      obtain ⟨j, z, hz, hfz, hfill⟩ := ih (i + 1) ⟨x, hrest, hfx⟩
      refine ⟨j + 1, z, hz, hfz, ?_⟩
      simp only [fillSlot, hf, Bool.false_eq_true, if_false, hfill, Option.map_some,
        List.set_cons_succ]
      congr 2
      omega

/-- The listener a query puts in. -/
def asking (id : UInt8) (l : L) (ftimeout : Option T) (timeout : Nat) : IdListener L T :=
  { id := id, fn := some l, fnTimeout := ftimeout, timeout := timeout, timeoutMax := timeout,
    userdata := none, userdata2 := none }

/-- With a free slot and an unused ID the listener is put in and waits. -/
theorem add_waits {tf : TinyFrame L T} (h : Counted tf) (msg : TfMsg)
    (hplain : msg.userdata = none ∧ msg.userdata2 = none)
    (hfree : ∃ lst ∈ tf.idListeners, lst.fn = none)
    (hunused : ∀ lst ∈ tf.idListeners, liveId lst = true → lst.id ≠ msg.frameId) (l : L)
    (ftimeout : Option T) (timeout : Nat) :
    ∃ slots count j, tfAddIdListener tf msg l ftimeout timeout =
        (true, { tf with idListeners := slots, countIdLst := count }) ∧
      Marked liveId tfMaxIdLst count slots ∧
      Waits j (asking msg.frameId l ftimeout timeout) slots := by
  obtain ⟨free, hmem, hnone⟩ := hfree
  obtain ⟨j, x, hj, hx, hfill⟩ := fillSlot_at (fun lst : IdListener L T => lst.fn.isNone)
    (fun lst => { lst with
      fn := some l, fnTimeout := ftimeout, id := msg.frameId, userdata := msg.userdata,
      userdata2 := msg.userdata2, timeoutMax := timeout, timeout := timeout }) 0
    ⟨free, hmem, by rw [hnone]; rfl⟩
  obtain ⟨_, hmarked⟩ := fill_marked h.ids hfill
  rw [hplain.1, hplain.2] at hfill hmarked
  refine ⟨_, _, j, ?_, hmarked, ?_, ?_⟩
  · simp only [tfAddIdListener, hplain]
    rw [hfill]
  · have hlt : j < tf.idListeners.length := (List.getElem?_eq_some_iff.mp hj).1
    exact List.getElem?_set_self hlt
  · intro k y hk hly hid
    by_contra hne
    rw [List.getElem?_set_ne (Ne.symm hne)] at hk
    exact hunused y (List.mem_of_getElem? hk) hly hid

/-- Added or not, a listener leaves the others as they are. -/
theorem add_spec {tf : TinyFrame L T} (h : Counted tf) (msg : TfMsg) (l : L) (ftimeout : Option T)
    (timeout : Nat) :
    ∃ ok slots count, tfAddIdListener tf msg l ftimeout timeout =
        (ok, { tf with idListeners := slots, countIdLst := count }) ∧
      Marked liveId tfMaxIdLst count slots ∧
      ∀ lst ∈ slots, lst ∈ tf.idListeners ∨
        lst.userdata = msg.userdata ∧ lst.userdata2 = msg.userdata2 := by
  simp only [tfAddIdListener]
  split
  · exact ⟨false, tf.idListeners, tf.countIdLst, rfl, h.ids, fun lst hm => Or.inl hm⟩
  · rename_i j slots hfill
    obtain ⟨hsame, hmarked⟩ := fill_marked h.ids hfill
    refine ⟨true, slots, _, rfl, hmarked, ?_⟩
    intro lst hm
    rw [hsame] at hm
    obtain ⟨k, hk⟩ := List.mem_iff_getElem?.mp hm
    rcases fillFirst_origin hk with hk | ⟨x, rfl⟩
    · exact Or.inl (List.mem_of_getElem? hk)
    · exact Or.inr ⟨rfl, rfl⟩

/-- The message of `TF_QuerySimple`. -/
def queryMsg (type : UInt8) (bs : List UInt8) (len : UInt16) : TfMsg :=
  { tfClearMsg with type := type, data := some bs, len := len }

/-- A query goes out as one frame if its listener is put in, and not at all if not. -/
theorem query_spec {tf : TinyFrame L T} (hi : Idle tf.tx) (type : UInt8) {bs : List UInt8}
    {len : UInt16} (hlen : len.toNat ≤ bs.length) {l : L} {ftimeout : Option T} {timeout : Nat}
    {ok : Bool} {slots : List (IdListener L T)} {count : Nat}
    (hadd : tfAddIdListener (withHead tf (queryMsg type bs len))
        { queryMsg type bs len with frameId := composeId tf } l ftimeout timeout =
      (ok, { withHead tf (queryMsg type bs len) with
        idListeners := slots, countIdLst := count })) :
    ∃ tx writes, Idle tx ∧
      tfQuerySimple tf type (some bs) len (some l) ftimeout timeout =
        (ok, { tf with
          nextId := tf.nextId + 1, tx := tx, idListeners := slots, countIdLst := count }, writes) ∧
      if ok then OneFrame (frameBytes (composeId tf) type (bs.take len.toNat)) writes
      else writes = [] := by
  have hbegin := begin_listening hi hadd
  simp only [tfQuerySimple, tfSendFrame]
  change tfSendFrameBegin tf { tfClearMsg with type := type, data := some bs, len := len } (some l)
    ftimeout timeout = _ at hbegin
  rw [hbegin]
  cases ok with
  | false =>
    have hsize := (headed_room hi (composeId tf) len type).size
    exact ⟨tfReleaseTx (withHead tf (queryMsg type bs len)).tx, [], ⟨rfl, hsize⟩, rfl, by simp⟩
  | true =>
    obtain ⟨hone, hidle⟩ := finish_spec hi (composeId tf) type hlen
    have hdata : (queryMsg type bs len).len = 0 ∨ (queryMsg type bs len).data ≠ none :=
      Or.inr (Option.some_ne_none bs)
    refine ⟨_, _, hidle, ?_, hone⟩
    dsimp only
    rw [if_pos hdata]
    rfl

/-- A query with a free slot and an unused ID goes out as one frame, and its listener
waits for the answer. -/
theorem query_waits {tf : TinyFrame L T} (h : Ready tf)
    (hfree : ∃ lst ∈ tf.idListeners, lst.fn = none)
    (hunused : ∀ lst ∈ tf.idListeners, liveId lst = true → lst.id ≠ composeId tf) (type : UInt8)
    {bs : List UInt8} {len : UInt16} (hlen : len.toNat ≤ bs.length) (l : L) (ftimeout : Option T)
    (timeout : Nat) :
    ∃ tf' writes j, tfQuerySimple tf type (some bs) len (some l) ftimeout timeout = (true, tf', writes) ∧
      OneFrame (frameBytes (composeId tf) type (bs.take len.toNat)) writes ∧ Ready tf' ∧
      Waits j (asking (composeId tf) l ftimeout timeout) tf'.idListeners := by
  have hcounted : Counted (withHead tf (queryMsg type bs len)) :=
    ⟨h.counted.ids, h.counted.types, h.counted.generics⟩
  obtain ⟨slots, count, j, hadd, hmarked, hwaits⟩ :=
    add_waits hcounted { queryMsg type bs len with frameId := composeId tf } ⟨rfl, rfl⟩ hfree
      hunused l ftimeout timeout
  obtain ⟨tx, writes, hidle, hquery, hone⟩ := query_spec h.idle type hlen hadd
  exact ⟨_, writes, j, hquery, hone,
    ⟨⟨hmarked, h.counted.types, h.counted.generics⟩, hidle, h.parser⟩, hwaits⟩

/-- A reply goes out under the ID of the message it answers. -/
theorem respond_spec {tf : TinyFrame L T} (hi : Idle tf.tx) (msg : TfMsg) {bs : List UInt8}
    (hdata : msg.data = some bs) (hlen : msg.len.toNat ≤ bs.length) :
    ∃ tx writes, Idle tx ∧ tfRespond tf msg = (true, { tf with tx := tx }, writes) ∧
      OneFrame (frameBytes msg.frameId msg.type (bs.take msg.len.toNat)) writes := by
  obtain ⟨hone, hidle⟩ := finish_spec hi msg.frameId msg.type hlen
  refine ⟨_, _, hidle, ?_, hone⟩
  simp only [tfRespond, tfSend, tfSendFrame]
  rw [begin_alone hi]
  dsimp only
  rw [hdata, if_pos (Or.inr (Option.some_ne_none bs))]
  rfl

/-- What an idle instance hears of one frame, however it was written. -/
theorem heard_frame {p : Parser} (hs : p.state = .sof) {id type : UInt8} {payload : List UInt8}
    (hfit : payload.length ≤ tfMaxPayloadRx) {writes : List (List UInt8)}
    (h : OneFrame (frameBytes id type payload) writes) :
    (Mealy.run parseChar p writes.flatten).1.state = .sof ∧
      ∃ q, (Mealy.run parseChar p writes.flatten).2 = [receivedMsg q] ∧
        said (receivedMsg q) = (id, type, payload) := by
  rw [h.bytes]
  exact read_frame hs id type hfit

theorem len_toNat {bs : List UInt8} (h : bs.length ≤ tfMaxPayloadRx) :
    (UInt16.ofNat bs.length).toNat = bs.length := by
  rw [UInt16.toNat_ofNat']
  exact Nat.mod_eq_of_lt (by simp only [tfMaxPayloadRx] at h; omega)

/-- An idle instance that hears a frame can reply to it under the ID it came with. -/
theorem frame_answered {tf : TinyFrame L T} (h : Ready tf) {id type : UInt8} {bs : List UInt8}
    (hbs : bs.length ≤ tfMaxPayloadRx) {sent : List (List UInt8)}
    (hone : OneFrame (frameBytes id type bs) sent) (answerType : UInt8) {answer : List UInt8}
    (hanswer : answer.length ≤ tfMaxPayloadRx) :
    ∃ heard tf' reply, (Mealy.run parseChar tf.parser sent.flatten).2 = [heard] ∧
      said heard = (id, type, bs) ∧
      tfRespond { tf with parser := (Mealy.run parseChar tf.parser sent.flatten).1 }
          { heard with
            type := answerType, data := some answer, len := UInt16.ofNat answer.length } =
        (true, tf', reply) ∧
      OneFrame (frameBytes id answerType answer) reply ∧ Ready tf' := by
  obtain ⟨hsof, q, hheard, hsaid⟩ := heard_frame h.parser hbs hone
  have hid : (receivedMsg q).frameId = id := congrArg (·.1) hsaid
  have hlen := len_toNat hanswer
  let moved := { tf with parser := (Mealy.run parseChar tf.parser sent.flatten).1 }
  have hidle : Idle moved.tx := h.idle
  obtain ⟨tx, reply, htx, hrespond, hreply⟩ := respond_spec hidle
    { receivedMsg q with
      type := answerType, data := some answer, len := UInt16.ofNat answer.length } rfl
    (Nat.le_of_eq hlen)
  dsimp only at hreply
  rw [hlen, List.take_length, hid] at hreply
  exact ⟨receivedMsg q, { moved with tx := tx }, reply, hheard, hsaid, hrespond, hreply,
    ⟨h.counted.ids, h.counted.types, h.counted.generics⟩, htx, hsof⟩

/-- A reply reaches the listener that waits for it, and that one is gone with it. -/
theorem reply_delivered (cb : Callbacks L T σ) {tf : TinyFrame L T} (h : Ready tf) {j : Nat}
    {lst : IdListener L T} (hw : Waits j lst tf.idListeners) {l : L} (hf : lst.fn = some l)
    (hplain : lst.userdata = none ∧ lst.userdata2 = none)
    (hclose : ∀ msg a, (cb.fn l msg a).1 = .close) {type : UInt8} {bs : List UInt8}
    (hbs : bs.length ≤ tfMaxPayloadRx) {reply : List (List UInt8)}
    (hone : OneFrame (frameBytes lst.id type bs) reply) (a : σ) :
    ∃ got, said got = (lst.id, type, bs) ∧
      (tfAccept cb tf reply.flatten a).2 = (cb.fn l got a).2 ∧
      Ready (tfAccept cb tf reply.flatten a).1 ∧
      ∀ y ∈ (tfAccept cb tf reply.flatten a).1.idListeners, y.fn.isSome → y.id ≠ lst.id := by
  obtain ⟨hsof, r, hgot, hsaid⟩ := heard_frame h.parser hbs hone
  have hid : lst.id = (receivedMsg r).frameId := (congrArg (·.1) hsaid).symm
  obtain ⟨hshown, hcounted, hparser, htx⟩ := accept_tables cb reply.flatten h.counted a
  rw [hgot, List.foldl_cons, List.foldl_nil] at hshown
  obtain ⟨hcalled, hgone⟩ := received_waits cb (t := tables tf) hf hid hw a (hclose _ a)
  rw [hplain.1, hplain.2] at hcalled
  refine ⟨receivedMsg r, hsaid, (congrArg (·.2) hshown).trans hcalled, ⟨hcounted, ?_, ?_⟩, ?_⟩
  · rw [htx]
    exact h.idle
  · rw [hparser]
    exact hsof
  · intro y hy hl
    have hids : (tfAccept cb tf reply.flatten a).1.idListeners =
        ((tables tf).received cb (receivedMsg r) a).1.ids := congrArg (·.1.ids) hshown
    rw [hids] at hy
    rw [hid]
    exact hgone y hy hl

/-- A query reaches an idle peer, and the peer's reply reaches the query's own listener and
no other, whatever the tables go through in between, as long as nothing of that looks for
the ID or puts in another listener for it and the timeout does not run out. Both ends are
then as ready as before, and nothing waits for the ID any more. -/
theorem query_answered [DecidableEq L] {L' T' : Type} (cb : Callbacks L T σ) {tf : TinyFrame L T}
    (h : Ready tf) (a : σ) {peer : TinyFrame L' T'} (hp : Ready peer)
    (hfree : ∃ lst ∈ tf.idListeners, lst.fn = none)
    (hunused : ∀ lst ∈ tf.idListeners, lst.fn.isSome → lst.id ≠ composeId tf)
    (type answerType : UInt8) (question answer : List UInt8)
    (hquestion : question.length ≤ tfMaxPayloadRx) (hanswer : answer.length ≤ tfMaxPayloadRx)
    (l : L) (hclose : ∀ msg a, (cb.fn l msg a).1 = .close) (ftimeout : Option T) (timeout : Nat)
    (ops : List (TableOp L T))
    (hops : ∀ op ∈ ops, ¬ Concerns (composeId tf) op ∧ ¬ Adds (composeId tf) op)
    (hticks : timeout = 0 ∨ Expiry.ticks ops < timeout) :
    ∃ tf' sent heard peer' reply got,
      tfQuerySimple tf type (some question) (UInt16.ofNat question.length) (some l) ftimeout timeout =
          (true, tf', sent) ∧
        (Mealy.run parseChar peer.parser sent.flatten).2 = [heard] ∧
        said heard = (composeId tf, type, question) ∧
        tfRespond { peer with parser := (Mealy.run parseChar peer.parser sent.flatten).1 }
            { heard with
              type := answerType, data := some answer, len := UInt16.ofNat answer.length } =
          (true, peer', reply) ∧
        said got = (composeId tf, answerType, answer) ∧
        let s := Runs.run (tableStep cb) (tf', a) ops
        let s' := tfAccept cb s.1 reply.flatten s.2
        s'.2 = (cb.fn l got s.2).2 ∧ Ready s'.1 ∧ Ready peer' ∧
          ∀ lst ∈ s'.1.idListeners, lst.fn.isSome → lst.id ≠ composeId tf := by
  have hlen := len_toNat hquestion
  obtain ⟨tf', sent, j, hquery, hone, hready, hwaits⟩ :=
    query_waits h hfree hunused type (Nat.le_of_eq hlen) l ftimeout timeout
  rw [hlen, List.take_length] at hone
  obtain ⟨heard, peer', reply, hheard, hsaid, hrespond, hreply, hpeer⟩ :=
    frame_answered hp hquestion hone answerType hanswer
  let s := Runs.run (tableStep cb) (tf', a) ops
  have hs : Ready s.1 :=
    Runs.invariant (tableStep cb) (I := fun s => Ready s.1) (step_ready cb) hready ops
  have hstart : Counted (tf', a).1 := hready.counted
  have hshown : shown s = Runs.run (Tables.step cb) (shown (tf', a)) ops :=
    (Runs.simulates (tableStep cb) (I := fun s => Counted s.1) (step_counted cb) hstart ops).1
  have hstill : Waits j (aged (Expiry.ticks ops) (asking (composeId tf) l ftimeout timeout))
      (shown s).1.ids := by
    rw [hshown]
    exact run_waits cb rfl (fun op ho => (hops op ho).1) (fun op ho => (hops op ho).2)
      (shown (tf', a)) hwaits hticks
  obtain ⟨got, hgot, hcalled, hready', hgone⟩ :=
    reply_delivered cb hs hstill rfl ⟨rfl, rfl⟩ hclose hanswer hreply s.2
  exact ⟨tf', sent, heard, peer', reply, got, hquery, hheard, hsaid, hrespond, hgot, hcalled,
    hready', hpeer, hgone⟩

theorem init_ready (peer : TfPeer) : Ready (tfInitStatic L T peer) :=
  ⟨init_counted peer, ⟨rfl, List.length_replicate⟩, rfl⟩

/-- Keeps what each answer says. -/
def oneShot : Callbacks Unit Empty (List (UInt8 × UInt8 × List UInt8)) where
  fn := fun _ msg log => (.close, log ++ [said msg])
  fnTimeout := fun e _ => e.elim

/-- The master asks the slave, with a tick and a message for another ID before the answer. -/
theorem master_answered :
    ∃ tf' sent heard peer' reply,
      tfQuerySimple (tfInitStatic Unit Empty .master) 1 (some [7]) 1 (some ()) none 10 =
          (true, tf', sent) ∧
        said heard = (0x80, 1, [7]) ∧
        tfRespond { tfInitStatic Unit Empty .slave with
              parser := (Mealy.run parseChar (tfInitStatic Unit Empty .slave).parser sent.flatten).1 }
            { heard with type := 2, data := some [8, 9], len := 2 } = (true, peer', reply) ∧
        let s := Runs.run (tableStep oneShot) (tf', [])
          [.tick, .received { tfClearMsg with frameId := 4 }]
        (tfAccept oneShot s.1 reply.flatten s.2).2 = s.2 ++ [(0x80, 2, [8, 9])] := by
  have hslave : Ready (tfInitStatic Unit Empty .slave) := init_ready .slave
  obtain ⟨tf', sent, heard, peer', reply, got, hquery, _, hsaid, hrespond, hgot, hcalled, _⟩ :=
    query_answered oneShot (init_ready .master) [] hslave ⟨_, List.mem_cons_self, rfl⟩
      (by simp [tfInitStatic]) 1 2 [7] [8, 9] (by decide) (by decide) () (fun _ _ => rfl) none 10
      [.tick, .received { tfClearMsg with frameId := 4 }]
      (by simp [Concerns, Adds, tfClearMsg, composeId, tfInitStatic]) (Or.inr (by decide))
  refine ⟨tf', sent, heard, peer', reply, hquery, hsaid, hrespond, hcalled.trans ?_⟩
  change _ ++ [said got] = _
  rw [hgot]
  rfl

end UpAndDownESP.Proofs.Exchange
