import UpAndDownESP.Spec.Tables

namespace UpAndDownESP.Proofs.ListenerCounts
open HighWater Spec

variable {L T σ : Type}

/-! ### The loops as sweeps -/

/-- An ID listener gets its own userdata, whatever the message carried before. -/
theorem offerId_userdata (cb : Callbacks L T σ) (msg : TfMsg) (x y : Option Nat) :
    (offerId cb { msg with userdata := x, userdata2 := y } : IdListener L T → _) =
      offerId cb msg := rfl

theorem offerToIds_sweep (cb : Callbacks L T σ) (msg : TfMsg) (i count : Nat) (a : σ)
    (slots : List (IdListener L T)) :
    offerToIds cb i count msg a slots = sweep liveId (offerId cb msg) i count a slots := by
  induction slots generalizing i count a msg with
  | nil => rfl
  | cons lst rest ih =>
    by_cases hi : i < count
    · cases hf : lst.fn with
      | none => simp [offerToIds, sweep, hi, hf, liveId, ih]
      | some f =>
        by_cases hid : lst.id = msg.frameId
        · cases hr : cb.fn f { msg with userdata := lst.userdata, userdata2 := lst.userdata2 } a with
          | mk res b =>
            cases res with
            | next =>
              simp [offerToIds, sweep, hi, hf, liveId, offerId, hid, hr, ih, offerId_userdata]
            | stay | renew =>
              simp [offerToIds, sweep, hi, hf, liveId, offerId, hid, hr, renewIdListener]
            | close =>
              simp [offerToIds, sweep, hi, hf, liveId, offerId, hid, hr, cleanupIdListener]
        · simp [offerToIds, sweep, hi, hf, liveId, offerId, hid, ih]
    · simp [offerToIds, sweep, hi]

theorem offerTo_sweep {α : Type} (cb : Callbacks L T σ) {fn : α → Option L} (wants : α → Bool)
    {discard : α → α} (hd : ∀ lst, fn (discard lst) = none) (msg : TfMsg) (i count : Nat) (a : σ)
    (slots : List α) :
    offerTo cb fn wants discard i count msg a slots =
      sweep (fun lst => (fn lst).isSome) (offerOne cb fn wants discard msg) i count a slots := by
  induction slots generalizing i count a with
  | nil => rfl
  | cons lst rest ih =>
    by_cases hi : i < count
    · cases hf : fn lst with
      | none => simp [offerTo, sweep, hi, hf, ih]
      | some f =>
        cases hw : wants lst with
        | false => simp [offerTo, sweep, hi, hf, hw, offerOne, ih]
        | true =>
          cases hr : cb.fn f msg a with
          | mk res b =>
            cases res with
            | next | stay | renew => simp [offerTo, sweep, hi, hf, hw, offerOne, hr, ih]
            | close => simp [offerTo, sweep, hi, hf, hw, offerOne, hr, hd]
    · simp [offerTo, sweep, hi]

theorem offerToTypes_sweep (cb : Callbacks L T σ) (msg : TfMsg) (i count : Nat) (a : σ)
    (slots : List (TypeListener L)) :
    offerTo cb (fun lst => lst.fn) (fun lst => lst.type == msg.type)
        (fun lst => { lst with fn := none }) i count msg a slots =
      sweep liveType (offerType cb msg) i count a slots :=
  offerTo_sweep cb _ (fun _ => rfl) msg i count a slots

theorem offerToGenerics_sweep (cb : Callbacks L T σ) (msg : TfMsg) (i count : Nat) (a : σ)
    (slots : List (GenericListener L)) :
    offerTo cb (fun lst => lst.fn) (fun _ => true) (fun lst => { lst with fn := none })
        i count msg a slots = sweep liveGeneric (offerGeneric cb msg) i count a slots :=
  offerTo_sweep cb _ (fun _ => rfl) msg i count a slots

theorem tickIds_sweep (cb : Callbacks L T σ) (i count : Nat) (a : σ)
    (slots : List (IdListener L T)) :
    tickIds cb i count a slots = (sweep liveId (tickOne cb) i count a slots).2 := by
  induction slots generalizing i count a with
  | nil => rfl
  | cons lst rest ih =>
    by_cases hi : i < count
    · cases hf : lst.fn with
      | none => simp [tickIds, sweep, hi, hf, liveId, ih]
      | some f =>
        by_cases hz : lst.timeout = 0
        · simp [tickIds, sweep, hi, hf, liveId, tickOne, hz, ih]
        · by_cases hone : lst.timeout = 1
          · cases hg : lst.fnTimeout with
            | none =>
              simp [tickIds, sweep, hi, hf, liveId, tickOne, hone, hg, ih, cleanedUp,
                cleanupIdListener]
            | some g =>
              simp [tickIds, sweep, hi, hf, liveId, tickOne, hone, hg, ih, cleanedUp,
                cleanupIdListener]
          · have hleft : lst.timeout - 1 ≠ 0 := by omega
            simp [tickIds, sweep, hi, hf, liveId, tickOne, hz, hone, hleft, ih]
    · simp [tickIds, sweep, hi]

/-! ### Filling and searching -/

theorem fillSlot_none {α : Type} {free : α → Bool} {new : α → α} {i : Nat} {slots : List α}
    (h : fillSlot free new i slots = none) : fillFirst free new slots = slots := by
  induction slots generalizing i with
  | nil => rfl
  | cons lst rest ih =>
    cases hf : free lst with
    | true => simp [fillSlot, hf] at h
    | false =>
      simp only [fillSlot, hf, Bool.false_eq_true, if_false, Option.map_eq_none_iff] at h
      simp [fillFirst, hf, ih h]

/-- A filled slot is covered, and so is what was before. -/
theorem fillSlot_some {α : Type} {live free : α → Bool} {new : α → α} {count i j : Nat}
    {slots filled : List α} (hc : Covers live count i slots)
    (h : fillSlot free new i slots = some (j, filled)) :
    filled = fillFirst free new slots ∧ i ≤ j ∧
      Covers live (if count ≤ j then j + 1 else count) i filled := by
  induction slots generalizing i filled with
  | nil => cases h
  | cons lst rest ih =>
    cases hf : free lst with
    | true =>
      simp only [fillSlot, hf, if_true, Option.some.injEq, Prod.mk.injEq] at h
      obtain ⟨rfl, rfl⟩ := h
      refine ⟨by simp [fillFirst, hf], Nat.le_refl _, ?_, hc.2.raise (by split <;> omega)⟩
      intro _
      split <;> omega
    | false =>
      simp only [fillSlot, hf, Bool.false_eq_true, if_false, Option.map_eq_some_iff] at h
      obtain ⟨⟨k, rest'⟩, hr, he⟩ := h
      simp only [Prod.mk.injEq] at he
      obtain ⟨rfl, rfl⟩ := he
      obtain ⟨hsame, hle, hcov⟩ := ih hc.2 hr
      refine ⟨by simp [fillFirst, hf, hsame], by omega, ?_, hcov⟩
      intro hl
      have := hc.1 hl
      split <;> omega

theorem fillSlot_length {α : Type} {free : α → Bool} {new : α → α} {i j : Nat}
    {slots filled : List α} (h : fillSlot free new i slots = some (j, filled)) :
    j < i + slots.length ∧ filled.length = slots.length := by
  induction slots generalizing i filled with
  | nil => cases h
  | cons lst rest ih =>
    cases hf : free lst with
    | true =>
      simp only [fillSlot, hf, if_true, Option.some.injEq, Prod.mk.injEq] at h
      obtain ⟨rfl, rfl⟩ := h
      simp
    | false =>
      simp only [fillSlot, hf, Bool.false_eq_true, if_false, Option.map_eq_some_iff] at h
      obtain ⟨⟨k, rest'⟩, hr, he⟩ := h
      simp only [Prod.mk.injEq] at he
      obtain ⟨rfl, rfl⟩ := he
      obtain ⟨hlt, hlen⟩ := ih hr
      simp only [List.length_cons]
      omega

/-- A search that tests for live slots is a sweep. What it does to a slot lowers the count
only if it empties the last one. -/
theorem onMatch_sweep {α : Type} (live : α → Bool) {wanted : α → Bool}
    (act : Nat → Nat → α → σ → α × Nat × σ) {act' : α → σ → α × σ}
    (hact : ∀ i count lst a, live lst = true → act i count lst a =
      ((act' lst a).1,
        if live (act' lst a).1 then count else if i + 1 = count then count - 1 else count,
        (act' lst a).2))
    (i count : Nat) (a : σ) (slots : List α) :
    onMatch (fun lst => live lst && wanted lst) act i count a slots =
      sweep live (onFirst wanted act') i count a slots := by
  induction slots generalizing i count with
  | nil => rfl
  | cons lst rest ih =>
    by_cases hi : i < count
    · cases hl : live lst with
      | false => simp [onMatch, sweep, hi, hl, ih]
      | true =>
        cases hw : wanted lst with
        | false => simp [onMatch, sweep, hi, hl, onFirst, hw, ih]
        | true => simp [onMatch, sweep, hi, hl, onFirst, hw, hact i count lst a hl]
    · simp [onMatch, sweep, hi]

/-- What a search of the live slots does for one function. -/
def removedGeneric [DecidableEq L] (cb : Option L) (slots : List (GenericListener L)) :
    List (GenericListener L) :=
  (sweepAll liveGeneric (onFirst (fun lst => decide (lst.fn = cb))
    fun lst a => ({ lst with fn := none }, a)) () slots).2.1

theorem removedGeneric_same [DecidableEq L] {cb : Option L} {slots : List (GenericListener L)}
    (h : ∀ lst ∈ slots, liveGeneric lst = true → decide (lst.fn = cb) = false) :
    removedGeneric cb slots = slots := by
  rw [removedGeneric, sweepAll_onFirst_none _ _ h]

/-- A search for NULL finds a free slot and empties it once more. The count may go down
then, but not below a live slot. -/
theorem removeGeneric_agrees [DecidableEq L] (cb : Option L) {i count : Nat}
    {slots : List (GenericListener L)} (hc : Covers liveGeneric count i slots) :
    ∃ found count', onMatch (fun lst => decide (lst.fn = cb)) cleanupGenericListener i count ()
        slots = (found, removedGeneric cb slots, count', ()) ∧
      Covers liveGeneric count' i (removedGeneric cb slots) ∧ min i count ≤ count' ∧
      count' ≤ count := by
  induction slots generalizing i with
  | nil => exact ⟨false, count, rfl, trivial, Nat.min_le_right _ _, Nat.le_refl _⟩
  | cons lst rest ih =>
    by_cases hi : i < count
    · by_cases hf : lst.fn = cb
      · have hgone : removedGeneric cb (lst :: rest) = { fn := none } :: rest := by
          cases hfn : lst.fn with
          | some f => simp [removedGeneric, sweepAll, liveGeneric, onFirst, hfn, ← hf]
          | none =>
            have hsame : lst = { fn := none } := by
              rw [← hfn]
            rw [removedGeneric_same, hsame]
            intro x _ hl
            rw [← hf, hfn, decide_eq_false_iff_not]
            intro hx
            simp [liveGeneric, hx] at hl
        rw [hgone]
        refine ⟨true, if i + 1 = count then count - 1 else count, ?_, ⟨?_, hc.2.lower⟩, ?_, ?_⟩
        · simp [onMatch, hi, hf, cleanupGenericListener]
        · intro hl
          cases hl
        · split <;> omega
        · split <;> omega
      · obtain ⟨found, count', hrun, hcov, hmin, hle⟩ := ih hc.2
        have hkeep : removedGeneric cb (lst :: rest) = lst :: removedGeneric cb rest := by
          cases hl : liveGeneric lst with
          | false => simp [removedGeneric, sweepAll, hl]
          | true => simp [removedGeneric, sweepAll, hl, onFirst, hf]
        rw [hkeep]
        refine ⟨found, count', ?_, ⟨?_, hcov⟩, ?_, hle⟩
        · simp [onMatch, hi, hf, hrun]
        · intro _
          omega
        · omega
    · have hdead := hc.dead (Nat.not_lt.mp hi)
      have hsame : removedGeneric cb (lst :: rest) = lst :: rest := by
        apply removedGeneric_same
        intro x hx hl
        rw [hdead x hx] at hl
        cases hl
      rw [hsame]
      exact ⟨false, count, by simp [onMatch, hi], hc, Nat.min_le_right _ _, Nat.le_refl _⟩

/-! ### Steps -/

/-- The three tables have the sizes they were built with, and their counts are marks. -/
structure Counted (tf : TinyFrame L T) : Prop where
  ids : Marked liveId tfMaxIdLst tf.countIdLst tf.idListeners
  types : Marked liveType tfMaxTypeLst tf.countTypeLst tf.typeListeners
  generics : Marked liveGeneric tfMaxGenLst tf.countGenericLst tf.genericListeners

theorem init_counted (peer : TfPeer) : Counted (tfInitStatic L T peer) where
  ids := ⟨List.length_replicate, Nat.zero_le _, covers_dead (by simp [tfInitStatic, liveId]) _ _⟩
  types := ⟨List.length_replicate, Nat.zero_le _, covers_dead (by simp [tfInitStatic, liveType]) _ _⟩
  generics :=
    ⟨List.length_replicate, Nat.zero_le _, covers_dead (by simp [tfInitStatic, liveGeneric]) _ _⟩

theorem received_counted (cb : Callbacks L T σ) (msg : TfMsg) {tf : TinyFrame L T} (h : Counted tf)
    (a : σ) :
    (tables (tfHandleReceivedMessage cb tf msg a).1, (tfHandleReceivedMessage cb tf msg a).2) =
      (tables tf).received cb msg a ∧ Counted (tfHandleReceivedMessage cb tf msg a).1 := by
  obtain ⟨_, hids, hm⟩ := h.ids.sweeps (offerId cb msg) a
  simp only [tfHandleReceivedMessage, Tables.received, offerToIds_sweep, hids, tables]
  generalize sweepAll liveId (offerId cb msg) a tf.idListeners = r at hm ⊢
  obtain ⟨handled, ids, a⟩ := r
  cases handled with
  | true => exact ⟨rfl, hm, h.types, h.generics⟩
  | false =>
    obtain ⟨_, htypes, hn⟩ :=
      h.types.sweeps (offerType cb { msg with userdata := none, userdata2 := none }) a
    have hoffer := (offerToTypes_sweep cb { msg with userdata := none, userdata2 := none } 0
      tf.countTypeLst a tf.typeListeners).trans htypes
    dsimp only at hoffer ⊢
    rw [hoffer]
    generalize sweepAll liveType _ a tf.typeListeners = r at hn ⊢
    obtain ⟨handled, types, a⟩ := r
    cases handled with
    | true => exact ⟨rfl, hm, hn, h.generics⟩
    | false =>
      obtain ⟨_, hgenerics, hk⟩ :=
        h.generics.sweeps (offerGeneric cb { msg with userdata := none, userdata2 := none }) a
      dsimp only
      rw [offerToGenerics_sweep, hgenerics]
      exact ⟨rfl, hm, hn, hk⟩

theorem tick_counted [DecidableEq L] (cb : Callbacks L T σ) {tf : TinyFrame L T} (h : Counted tf)
    (a : σ) :
    (tables (tfTick cb tf a).1, (tfTick cb tf a).2) = Tables.step cb (tables tf, a) .tick ∧
      Counted (tfTick cb tf a).1 := by
  obtain ⟨_, hids, hm⟩ := h.ids.sweeps (tickOne cb) a
  rw [tfTick, tickIds_sweep, hids]
  exact ⟨rfl, hm, h.types, h.generics⟩

/-- Filling the first free slot of a marked row, its count raised if need be. -/
theorem fill_marked {α : Type} {live free : α → Bool} {new : α → α} {n count j : Nat}
    {slots filled : List α} (h : Marked live n count slots)
    (hf : fillSlot free new 0 slots = some (j, filled)) :
    filled = fillFirst free new slots ∧
      Marked live n (if count ≤ j then j + 1 else count) filled := by
  obtain ⟨hsame, _, hcov⟩ := fillSlot_some h.covers hf
  obtain ⟨hlt, hlen⟩ := fillSlot_length hf
  refine ⟨hsame, hlen.trans h.size, ?_, hcov⟩
  have hsize := h.size
  have hinside := h.inside
  split <;> omega

theorem add_id_counted [DecidableEq L] (cb : Callbacks L T σ) (msg : TfMsg) (l : L)
    (ftimeout : Option T) (timeout : Nat) {tf : TinyFrame L T} (h : Counted tf) (a : σ) :
    (tables (tfAddIdListener tf msg l ftimeout timeout).2, a) =
        Tables.step cb (tables tf, a) (.addIdListener msg l ftimeout timeout) ∧
      Counted (tfAddIdListener tf msg l ftimeout timeout).2 := by
  simp only [tfAddIdListener, Tables.step, tables]
  split
  · rename_i hfull
    rw [fillSlot_none hfull]
    exact ⟨rfl, h⟩
  · rename_i j slots hf
    obtain ⟨hsame, hm⟩ := fill_marked h.ids hf
    rw [hsame] at hm ⊢
    exact ⟨rfl, hm, h.types, h.generics⟩

theorem add_type_counted [DecidableEq L] (cb : Callbacks L T σ) (type : UInt8) (l : L)
    {tf : TinyFrame L T} (h : Counted tf) (a : σ) :
    (tables (tfAddTypeListener tf type l).2, a) =
        Tables.step cb (tables tf, a) (.addTypeListener type l) ∧
      Counted (tfAddTypeListener tf type l).2 := by
  simp only [tfAddTypeListener, Tables.step, tables]
  split
  · rename_i hfull
    rw [fillSlot_none hfull]
    exact ⟨rfl, h⟩
  · rename_i j slots hf
    obtain ⟨hsame, hm⟩ := fill_marked h.types hf
    rw [hsame] at hm ⊢
    exact ⟨rfl, h.ids, hm, h.generics⟩

theorem add_generic_counted [DecidableEq L] (cb : Callbacks L T σ) (l : L) {tf : TinyFrame L T}
    (h : Counted tf) (a : σ) :
    (tables (tfAddGenericListener tf l).2, a) =
        Tables.step cb (tables tf, a) (.addGenericListener l) ∧
      Counted (tfAddGenericListener tf l).2 := by
  simp only [tfAddGenericListener, Tables.step, tables]
  split
  · rename_i hfull
    rw [fillSlot_none hfull]
    exact ⟨rfl, h⟩
  · rename_i j slots hf
    obtain ⟨hsame, hm⟩ := fill_marked h.generics hf
    rw [hsame] at hm ⊢
    exact ⟨rfl, h.ids, h.types, hm⟩

theorem cleanup_once (cb : Callbacks L T σ) (i count : Nat) (lst : IdListener L T) (a : σ)
    (hl : liveId lst = true) : cleanupIdListener cb i count lst a =
      ((cleanedUp cb lst a).1,
        if liveId (cleanedUp cb lst a).1 then count else if i + 1 = count then count - 1 else count,
        (cleanedUp cb lst a).2) := by
  cases hf : lst.fn with
  | none => simp [liveId, hf] at hl
  | some f => simp [cleanedUp, cleanupIdListener, hf, liveId]

theorem remove_id_counted [DecidableEq L] (cb : Callbacks L T σ) (id : UInt8)
    {tf : TinyFrame L T} (h : Counted tf) (a : σ) :
    (tables (tfRemoveIdListener cb tf id a).2.1, (tfRemoveIdListener cb tf id a).2.2) =
        Tables.step cb (tables tf, a) (.removeIdListener id) ∧
      Counted (tfRemoveIdListener cb tf id a).2.1 := by
  obtain ⟨_, hids, hm⟩ := h.ids.sweeps (onFirst (fun lst => lst.id == id) (cleanedUp cb)) a
  have hrow := (onMatch_sweep liveId (cleanupIdListener cb) (cleanup_once cb) 0 tf.countIdLst a
    tf.idListeners).trans hids
  simp only [tfRemoveIdListener, liveId] at hrow ⊢
  rw [hrow]
  exact ⟨rfl, hm, h.types, h.generics⟩

theorem remove_type_counted [DecidableEq L] (cb : Callbacks L T σ) (type : UInt8)
    {tf : TinyFrame L T} (h : Counted tf) (a : σ) :
    (tables (tfRemoveTypeListener tf type).2, a) =
        Tables.step cb (tables tf, a) (.removeTypeListener type) ∧
      Counted (tfRemoveTypeListener tf type).2 := by
  obtain ⟨_, htypes, hm⟩ := h.types.sweeps (onFirst (fun lst => lst.type == type)
    fun lst a => ({ lst with fn := none }, a)) ()
  have hrow := (onMatch_sweep liveType cleanupTypeListener
    (fun _ _ _ _ _ => rfl) 0 tf.countTypeLst () tf.typeListeners).trans htypes
  simp only [tfRemoveTypeListener, liveType] at hrow ⊢
  rw [hrow]
  exact ⟨rfl, h.ids, hm, h.generics⟩

theorem remove_generic_counted [DecidableEq L] (cb : Callbacks L T σ) (l : Option L)
    {tf : TinyFrame L T} (h : Counted tf) (a : σ) :
    (tables (tfRemoveGenericListener tf l).2, a) =
        Tables.step cb (tables tf, a) (.removeGenericListener l) ∧
      Counted (tfRemoveGenericListener tf l).2 := by
  obtain ⟨found, count', hrun, hcov, _, hle⟩ := removeGeneric_agrees l h.generics.covers
  have hsize : (removedGeneric l tf.genericListeners).length = tfMaxGenLst := by
    rw [removedGeneric, sweepAll_length]
    exact h.generics.size
  rw [tfRemoveGenericListener, hrun]
  exact ⟨rfl, h.ids, h.types, hsize, Nat.le_trans hle h.generics.inside, hcov⟩

theorem renew_counted [DecidableEq L] (cb : Callbacks L T σ) (id : UInt8)
    {tf : TinyFrame L T} (h : Counted tf) (a : σ) :
    (tables (tfRenewIdListener tf id).2, a) =
        Tables.step cb (tables tf, a) (.renewIdListener id) ∧
      Counted (tfRenewIdListener tf id).2 := by
  obtain ⟨_, hids, hm⟩ := h.ids.sweeps (onFirst (fun lst => lst.id == id)
    fun lst a => (renewIdListener lst, a)) ()
  have honce : ∀ i count (lst : IdListener L T) (a : Unit), liveId lst = true →
      (renewIdListener lst, count, a) = (renewIdListener lst,
        if liveId (renewIdListener lst) then count
        else if i + 1 = count then count - 1 else count, a) := by
    intro i count lst a hl
    have hstill : liveId (renewIdListener lst) = true := hl
    rw [hstill]
    rfl
  have hrow := (onMatch_sweep liveId (fun _ count lst a => (renewIdListener lst, count, a)) honce 0
    tf.countIdLst () tf.idListeners).trans hids
  simp only [tfRenewIdListener, liveId] at hrow ⊢
  rw [hrow]
  exact ⟨rfl, hm, h.types, h.generics⟩

/-- One step of the tables with their counts is one step without them. -/
theorem step_counted [DecidableEq L] (cb : Callbacks L T σ) (s : TinyFrame L T × σ)
    (op : TableOp L T) (h : Counted s.1) :
    shown (tableStep cb s op) = Tables.step cb (shown s) op ∧ Counted (tableStep cb s op).1 := by
  cases op with
  | received msg => exact received_counted cb msg h s.2
  | tick => exact tick_counted cb h s.2
  | addIdListener msg l ftimeout timeout => exact add_id_counted cb msg l ftimeout timeout h s.2
  | addTypeListener type l => exact add_type_counted cb type l h s.2
  | addGenericListener l => exact add_generic_counted cb l h s.2
  | removeIdListener id => exact remove_id_counted cb id h s.2
  | removeTypeListener type => exact remove_type_counted cb type h s.2
  | removeGenericListener l => exact remove_generic_counted cb l h s.2
  | renewIdListener id => exact renew_counted cb id h s.2

/-! ### Runs -/

theorem reached_tables [DecidableEq L] (cb : Callbacks L T σ) (peer : TfPeer) (a : σ)
    (ops : List (TableOp L T)) :
    shown (reached cb peer a ops) =
        Runs.run (Tables.step cb) (shown (tfInitStatic L T peer, a)) ops ∧
      Counted (reached cb peer a ops).1 :=
  Runs.simulates (tableStep cb) (I := fun s => Counted s.1) (step_counted cb) (init_counted peer) ops

/-- A search passes over a slot that is not under the count. -/
theorem onMatch_found {α : Type} (test : α → Bool) (act : Nat → Nat → α → σ → α × Nat × σ)
    (i count : Nat) (a : σ) (slots : List α) :
    (onMatch test act i count a slots).1 = true ↔
      ∃ lst ∈ slots.take (count - i), test lst = true := by
  induction slots generalizing i with
  | nil => simp [onMatch]
  | cons lst rest ih =>
    by_cases hi : i < count
    · have htake : count - i = count - (i + 1) + 1 := by omega
      rw [htake, List.take_succ_cons]
      cases ht : test lst with
      | true => simp [onMatch, hi, ht]
      | false => simp [onMatch, hi, ht, ih]
    · have htake : count - i = 0 := by omega
      simp [onMatch, hi, htake]

theorem covers_take {α : Type} {live : α → Bool} {mark i : Nat} {slots : List α}
    (hc : Covers live mark i slots) {lst : α} (hm : lst ∈ slots) (hl : live lst = true) :
    lst ∈ slots.take (mark - i) := by
  induction slots generalizing i with
  | nil => simp at hm
  | cons x rest ih =>
    rcases List.mem_cons.mp hm with rfl | hm
    · have hi := hc.1 hl
      have htake : mark - i = mark - (i + 1) + 1 := by omega
      rw [htake, List.take_succ_cons]
      exact List.mem_cons_self
    · have hrest := ih hc.2 hm
      have hpos : 0 < mark - (i + 1) := by
        apply Nat.pos_of_ne_zero
        intro hz
        simp [hz] at hrest
      have htake : mark - i = mark - (i + 1) + 1 := by omega
      rw [htake, List.take_succ_cons]
      exact List.mem_cons_of_mem _ hrest

/-- A search for live slots finds one wherever there is one. -/
theorem found_live {α : Type} {live : α → Bool} {n mark : Nat} {slots : List α}
    (h : Marked live n mark slots) {test : α → Bool} (ht : ∀ lst, test lst = true → live lst = true)
    (act : Nat → Nat → α → σ → α × Nat × σ) (a : σ) :
    (onMatch test act 0 mark a slots).1 = true ↔ ∃ lst ∈ slots, test lst = true := by
  rw [onMatch_found]
  constructor
  · rintro ⟨lst, hm, hw⟩
    exact ⟨lst, List.mem_of_mem_take hm, hw⟩
  · rintro ⟨lst, hm, hw⟩
    exact ⟨lst, covers_take h.covers hm (ht lst hw), hw⟩

/-- The counts only save time. Whatever the callbacks do to the program's own state and in
whatever order listeners are added, removed, renewed, ticked and offered messages, every
count stays within its table and above every listener in it, no listener is missed for
it, and a removal or a renewal succeeds just when there is a listener for it. -/
theorem counts_unseen [DecidableEq L] (cb : Callbacks L T σ) (peer : TfPeer) (a : σ)
    (ops : List (TableOp L T)) :
    let s := reached cb peer a ops
    shown s = Runs.run (Tables.step cb) (shown (tfInitStatic L T peer, a)) ops ∧
    Counted s.1 ∧
    (∀ id, ((tfRemoveIdListener cb s.1 id s.2).1 = true ↔
        ∃ lst ∈ s.1.idListeners, lst.fn.isSome ∧ lst.id = id) ∧
      ((tfRenewIdListener s.1 id).1 = true ↔
        ∃ lst ∈ s.1.idListeners, lst.fn.isSome ∧ lst.id = id)) ∧
    (∀ type, (tfRemoveTypeListener s.1 type).1 = true ↔
      ∃ lst ∈ s.1.typeListeners, lst.fn.isSome ∧ lst.type = type) ∧
    ∀ f, (tfRemoveGenericListener s.1 (some f)).1 = true ↔
      ∃ lst ∈ s.1.genericListeners, lst.fn = some f := by
  intro s
  obtain ⟨hshown, hc⟩ := reached_tables cb peer a ops
  refine ⟨hshown, hc, ?_, ?_, ?_⟩
  · intro id
    have htest : ∀ lst : IdListener L T, (lst.fn.isSome && lst.id == id) = true →
        liveId lst = true := fun lst h => (Bool.and_eq_true_iff.mp h).1
    have hremoved := found_live hc.ids htest (cleanupIdListener cb) s.2
    have hrenewed := found_live hc.ids htest
      (fun _ count lst (a : Unit) => (renewIdListener lst, count, a)) ()
    simp only [Bool.and_eq_true, beq_iff_eq] at hremoved hrenewed
    exact ⟨hremoved, hrenewed⟩
  · intro type
    have htest : ∀ lst : TypeListener L, (lst.fn.isSome && lst.type == type) = true →
        liveType lst = true := fun lst h => (Bool.and_eq_true_iff.mp h).1
    have hremoved := found_live hc.types htest cleanupTypeListener ()
    simp only [Bool.and_eq_true, beq_iff_eq] at hremoved
    exact hremoved
  · intro f
    have htest : ∀ lst : GenericListener L, decide (lst.fn = some f) = true →
        liveGeneric lst = true := by
      intro lst h
      rw [liveGeneric, of_decide_eq_true h]
      rfl
    have hremoved := found_live hc.generics htest cleanupGenericListener ()
    simp only [decide_eq_true_eq] at hremoved
    exact hremoved

/-- Removing the generic listener NULL removes nothing, yet it succeeds whenever a free
slot lies under the count. -/
theorem null_removal [DecidableEq L] (cb : Callbacks L T σ) (peer : TfPeer) (a : σ)
    (ops : List (TableOp L T)) :
    let s := reached cb peer a ops
    ((tfRemoveGenericListener s.1 none).1 = true ↔
      ∃ lst ∈ s.1.genericListeners.take s.1.countGenericLst, lst.fn = none) ∧
    tables (tfRemoveGenericListener s.1 none).2 = tables s.1 ∧
    Counted (tfRemoveGenericListener s.1 none).2 := by
  intro s
  have hc := (reached_tables cb peer a ops).2
  have hstep := remove_generic_counted cb none hc s.2
  have hkept : removedGeneric none s.1.genericListeners = s.1.genericListeners := by
    apply removedGeneric_same
    intro lst _ hl
    rw [liveGeneric] at hl
    simpa [Option.isSome_iff_ne_none] using hl
  refine ⟨?_, ?_, hstep.2⟩
  · have hfound := onMatch_found (fun lst : GenericListener L => decide (lst.fn = none))
      cleanupGenericListener 0 s.1.countGenericLst () s.1.genericListeners
    simp only [decide_eq_true_eq, Nat.sub_zero] at hfound
    exact hfound
  · have htables := congrArg (·.1) hstep.1
    refine htables.trans ?_
    change { tables s.1 with generics := removedGeneric none s.1.genericListeners } = _
    rw [hkept]
    rfl

end UpAndDownESP.Proofs.ListenerCounts
