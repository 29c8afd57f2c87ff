import UpAndDownESP.Proofs.Exchange
import UpAndDownESP.Proofs.Recovery
import UpAndDownESP.System.Duplex

namespace UpAndDownESP.Proofs.Duplex
open HighWater Spec Sending FrameFormat Proofs.Stream ListenerCounts Expiry Exchange Decoding
  Integrity Recovery

/-! ### A station -/

/-- Between two calls: the transmitter is free, nothing waits with userdata, and every
message finds a listener. -/
structure Working (tf : TinyFrame Unit Empty) : Prop where
  counted : Counted tf
  idle : Idle tf.tx
  plain : ∀ lst ∈ tf.idListeners, lst.userdata = none ∧ lst.userdata2 = none
  hears : ∃ lst ∈ tf.genericListeners, liveGeneric lst = true

theorem offerId_records (msg : TfMsg) (lst : IdListener Unit Empty) (log : List TfMsg) :
    (offerId recorder msg lst log).1 = lst ∧
      ((offerId recorder msg lst log).2.2 = false → (offerId recorder msg lst log).2.1 = log) ∧
      ((offerId recorder msg lst log).2.2 = true →
        ∃ got, said got = said msg ∧ (offerId recorder msg lst log).2.1 = log ++ [got]) := by
  cases hf : lst.fn with
  | none => simp [offerId, hf]
  | some f =>
    by_cases hid : lst.id = msg.frameId
    · simp only [offerId, hf, hid, recorder, if_true]
      exact ⟨trivial, by simp, fun _ =>
        ⟨{ msg with userdata := lst.userdata, userdata2 := lst.userdata2 }, rfl, rfl⟩⟩
    · simp [offerId, hf, hid]

/-- Type and generic listeners: the first that wants the message records it. -/
theorem offer_records {α : Type} (fn : α → Option Unit) (wants : α → Bool) (discard : α → α)
    (msg : TfMsg) (log : List TfMsg) (slots : List α) :
    let r := sweepAll (fun lst => (fn lst).isSome) (offerOne recorder fn wants discard msg) log slots
    (r = (false, slots, log) ∧ ∀ lst ∈ slots, (fn lst).isSome = true → wants lst = false) ∨
      r = (true, slots, log ++ [msg]) := by
  let visit := offerOne recorder fn wants discard msg
  have hvisit : ∀ lst, (fn lst).isSome = true →
      visit lst log = if wants lst then (lst, log ++ [msg], true) else (lst, log, false) := by
    intro lst hl
    obtain ⟨f, hf⟩ := Option.isSome_iff_exists.mp hl
    cases hw : wants lst with
    | false => simp [visit, offerOne, hf, hw]
    | true => simp [visit, offerOne, hf, hw, recorder]
  have hkeep : ∀ lst ∈ slots, (fn lst).isSome = true → (visit lst log).1 = lst := by
    intro lst _ hl
    rw [hvisit lst hl]
    split
    · rfl
    · rfl
  have hwants : ∀ lst, (fn lst).isSome = true → (visit lst log).2.2 = wants lst := by
    intro lst hl
    rw [hvisit lst hl]
    cases wants lst with
    | false | true => rfl
  have hidle : ∀ lst ∈ slots, (fn lst).isSome = true → (visit lst log).2.2 = false →
      (visit lst log).2.1 = log := by
    intro lst _ hl hstop
    rw [hwants lst hl] at hstop
    rw [hvisit lst hl, hstop]
    rfl
  rcases sweepAll_first visit log slots hkeep hidle with ⟨hnone, hall⟩ | ⟨x, -, hl, hstop, hrun⟩
  · refine Or.inl ⟨hnone, ?_⟩
    intro lst hm hl
    rw [← hwants lst hl]
    exact hall lst hm hl
  · refine Or.inr (hrun.trans ?_)
    rw [hwants x hl] at hstop
    rw [hvisit x hl, hstop]
    rfl

/-- Whoever it goes to, a message is recorded once, and no listener is lost for it. -/
theorem message_recorded (msg : TfMsg) {t : Tables Unit Empty}
    (hears : ∃ lst ∈ t.generics, liveGeneric lst = true) (log : List TfMsg) :
    ∃ got, said got = said msg ∧ t.received recorder msg log = (t, log ++ [got]) := by
  let plain : TfMsg := { msg with userdata := none, userdata2 := none }
  simp only [Tables.received]
  rcases sweepAll_first (offerId recorder msg) log t.ids (fun x _ _ => (offerId_records msg x log).1)
      (fun x _ _ => (offerId_records msg x log).2.1) with ⟨hids, -⟩ | ⟨x, -, -, hstop, hids⟩
  · rw [hids]
    dsimp only
    rcases offer_records (fun lst : TypeListener Unit => lst.fn) (fun lst => lst.type == msg.type)
      (fun lst => { lst with fn := none }) plain log t.types with ⟨htypes, -⟩ | htypes
    · change sweepAll liveType (offerType recorder plain) log t.types = _ at htypes
      rw [htypes]
      dsimp only
      rcases offer_records (fun lst : GenericListener Unit => lst.fn) (fun _ => true)
        (fun lst => { lst with fn := none }) plain log t.generics with ⟨-, hnone⟩ | hgenerics
      · obtain ⟨lst, hm, hl⟩ := hears
        cases hnone lst hm hl
      · change sweepAll liveGeneric (offerGeneric recorder plain) log t.generics = _ at hgenerics
        rw [hgenerics]
        exact ⟨plain, rfl, rfl⟩
    · change sweepAll liveType (offerType recorder plain) log t.types = _ at htypes
      rw [htypes]
      exact ⟨plain, rfl, rfl⟩
  · obtain ⟨got, hgot, hlog⟩ := (offerId_records msg x log).2.2 hstop
    rw [hids, hlog]
    exact ⟨got, hgot, rfl⟩

theorem messages_recorded (msgs : List TfMsg) {t : Tables Unit Empty}
    (hears : ∃ lst ∈ t.generics, liveGeneric lst = true) (log : List TfMsg) :
    ∃ log', log'.map said = log.map said ++ msgs.map said ∧
      msgs.foldl (fun s msg => s.1.received recorder msg s.2) (t, log) = (t, log') := by
  induction msgs generalizing log with
  | nil => exact ⟨log, by simp, rfl⟩
  | cons msg msgs ih =>
    obtain ⟨got, hgot, hone⟩ := message_recorded msg hears log
    obtain ⟨log', hlog, hrest⟩ := ih (log ++ [got])
    refine ⟨log', by simp [hlog, hgot], ?_⟩
    rw [List.foldl_cons]
    dsimp only
    rw [hone]
    exact hrest

/-- Bytes: the parser takes them, and what it hands up is recorded in order. -/
theorem station_accepts {tf : TinyFrame Unit Empty} (h : Working tf) (chunk : List UInt8)
    (log : List TfMsg) :
    Working (tfAccept recorder tf chunk log).1 ∧
      (tfAccept recorder tf chunk log).1.parser = (Mealy.run parseChar tf.parser chunk).1 ∧
      (tfAccept recorder tf chunk log).2.map said =
        log.map said ++ (Mealy.run parseChar tf.parser chunk).2.map said := by
  obtain ⟨hshown, hcounted, hparser, htx⟩ := accept_tables recorder chunk h.counted log
  have hears : ∃ lst ∈ (tables tf).generics, liveGeneric lst = true := h.hears
  obtain ⟨log', hlog, hsame⟩ :=
    messages_recorded (Mealy.run parseChar tf.parser chunk).2 hears log
  have hend := hshown.trans hsame
  have hids : (tfAccept recorder tf chunk log).1.idListeners = tf.idListeners :=
    congrArg (·.1.ids) hend
  have hgenerics : (tfAccept recorder tf chunk log).1.genericListeners = tf.genericListeners :=
    congrArg (·.1.generics) hend
  refine ⟨⟨hcounted, ?_, ?_, ?_⟩, hparser, ?_⟩
  · rw [htx]
    exact h.idle
  · rw [hids]
    exact h.plain
  · rw [hgenerics]
    exact h.hears
  · rw [← hlog]
    exact congrArg (fun s => s.2.map said) hend

/-- A tick may take a query's listener, but makes no call. -/
theorem station_ticks {tf : TinyFrame Unit Empty} (h : Working tf) (log : List TfMsg) :
    Working (tfTick recorder tf log).1 ∧
      (tfTick recorder tf log).1.parser = tickParser tf.parser ∧
      (tfTick recorder tf log).2 = log := by
  obtain ⟨hshown, hcounted⟩ := tick_counted recorder h.counted log
  have htick := hshown.trans (tick_slots recorder (tables tf) log)
  have hids : (tfTick recorder tf log).1.idListeners =
      tf.idListeners.map fun lst => if liveId lst then ticked lst else lst :=
    congrArg (·.1.ids) htick
  have hcalls : (tfTick recorder tf log).2 =
      (tf.idListeners.filter expiring).foldl (expire recorder) log := congrArg (·.2) htick
  have hquiet : ∀ lst ∈ tf.idListeners, ∀ log : List TfMsg, expire recorder log lst = log := by
    intro lst hm log
    obtain ⟨hu, hu2⟩ := h.plain lst hm
    cases hg : lst.fnTimeout with
    | some g => exact g.elim
    | none =>
      cases hf : lst.fn with
      | none => simp [expire, hf, hg]
      | some f => simp [expire, hf, hg, hu, hu2]
  refine ⟨⟨hcounted, h.idle, ?_, h.hears⟩, rfl, ?_⟩
  · intro lst hm
    rw [hids] at hm
    obtain ⟨x, hx, rfl⟩ := List.mem_map.mp hm
    have hplain := h.plain x hx
    split
    · unfold ticked
      split
      · exact hplain
      · exact hplain
    · exact hplain
  · rw [hcalls]
    rw [List.foldl_ext (expire recorder) (fun log _ => log) log
      fun log lst hm => hquiet lst (List.mem_of_mem_filter hm) log]
    exact List.foldl_fixed _

theorem payload_len (payload : Payload) : payload.len.toNat = payload.1.length := by
  rw [Payload.len, UInt16.toNat_ofNat']
  exact Nat.mod_eq_of_lt payload.2

/-- A call that returns true writes its frame, and one that returns false nothing. -/
theorem station_calls {tf : TinyFrame Unit Empty} (h : Working tf) (c : SendCall) :
    ∃ ok tf' writes, c.run tf = (ok, tf', writes) ∧ Working tf' ∧ tf'.parser = tf.parser ∧
      writes.flatten = (if ok then [c.message tf] else []).flatMap frameOf := by
  cases c with
  | send type payload =>
    have hlen := payload_len payload
    obtain ⟨tx, writes, hidle, hone, hsend⟩ :=
      sendSimple_spec h.idle type payload.1 payload.len (Nat.le_of_eq hlen)
    rw [hlen, List.take_length] at hone
    refine ⟨true, _, writes, hsend, ⟨⟨h.counted.ids, h.counted.types, h.counted.generics⟩, hidle,
      h.plain, h.hears⟩, rfl, ?_⟩
    rw [hone.bytes]
    simp [SendCall.message, frameOf]
  | query type payload timeout =>
    have hlen := payload_len payload
    have hcounted : Counted (withHead tf (queryMsg type payload.1 payload.len)) :=
      ⟨h.counted.ids, h.counted.types, h.counted.generics⟩
    obtain ⟨ok, slots, count, hadd, hmarked, hslots⟩ := add_spec hcounted
      { queryMsg type payload.1 payload.len with frameId := composeId tf } () none timeout
    obtain ⟨tx, writes, hidle, hquery, hone⟩ := query_spec h.idle type (Nat.le_of_eq hlen) hadd
    refine ⟨ok, _, writes, hquery, ⟨⟨hmarked, h.counted.types, h.counted.generics⟩, hidle, ?_,
      h.hears⟩, rfl, ?_⟩
    · intro lst hm
      rcases hslots lst hm with hm | hplain
      · exact h.plain lst hm
      · exact hplain
    · cases ok with
      | false =>
        rw [if_neg Bool.false_ne_true] at hone
        rw [hone]
        rfl
      | true =>
        rw [if_pos rfl, hlen, List.take_length] at hone
        rw [hone.bytes]
        simp [SendCall.message, frameOf]
  | respond id type payload =>
    have hlen := payload_len payload
    obtain ⟨tx, writes, hidle, hrespond, hone⟩ := respond_spec h.idle
      { tfClearMsg with
        frameId := id, type := type, data := some payload.1, len := payload.len } rfl
      (Nat.le_of_eq hlen)
    dsimp only at hone
    rw [hlen, List.take_length] at hone
    refine ⟨true, _, writes, hrespond, ⟨⟨h.counted.ids, h.counted.types, h.counted.generics⟩,
      hidle, h.plain, h.hears⟩, rfl, ?_⟩
    rw [hone.bytes]
    simp [SendCall.message, frameOf]

theorem station_acts {p : Peer} (h : Working p.tf) (a : PeerAct) :
    Working (peerStep p a).tf ∧
      (peerStep p a).tf.parser = (Mealy.run parserStep p.tf.parser (inputs a)).1 ∧
      (peerStep p a).received.map said =
        p.received.map said ++ (Mealy.run parserStep p.tf.parser (inputs a)).2.map said := by
  cases a with
  | accept chunk =>
    rw [inputs, run_bytes]
    exact station_accepts h chunk p.received
  | tick =>
    obtain ⟨hworking, hparser, hlog⟩ := station_ticks h p.received
    refine ⟨hworking, hparser, ?_⟩
    change (tfTick recorder p.tf p.received).2.map said = _
    rw [hlog]
    exact (List.append_nil _).symm

/-! ### The wire -/

theorem other_ne (side : TfPeer) : side.other ≠ side := by
  cases side with
  | slave | master => exact nofun

theorem other_other (side : TfPeer) : side.other.other = side := by
  cases side with
  | slave | master => rfl

theorem eq_other {s t : TfPeer} (h : s ≠ t) : s = t.other := by
  cases s with
  | slave | master =>
    cases t with
    | slave | master => first | rfl | exact absurd rfl h

/-- One direction. What the receiver's parser has taken in and what is still on its way are
together the frames of the sender's messages; what the parser handed up is recorded. -/
structure Direction (d : Duplex) (side : TfPeer) (is : List (Option UInt8)) : Prop where
  timely : Timely (tfInitStatic Unit Empty side).parser is
  parser : (d.station side).tf.parser =
    (Mealy.run parserStep (tfInitStatic Unit Empty side).parser is).1
  received : (d.station side).received.map said =
    (Mealy.run parserStep (tfInitStatic Unit Empty side).parser is).2.map said
  bytes : is.filterMap id ++ d.line side = (d.station side.other).sent.flatMap frameOf
  short : ∀ m ∈ (d.station side.other).sent, m.2.2.length < 2 ^ 16

/-- What happens elsewhere makes no difference. -/
theorem Direction.same {d d' : Duplex} {side : TfPeer} {is : List (Option UInt8)}
    (h : Direction d side is) (hparser : (d'.station side).tf.parser = (d.station side).tf.parser)
    (hreceived : (d'.station side).received = (d.station side).received)
    (hline : d'.line side = d.line side)
    (hsent : (d'.station side.other).sent = (d.station side.other).sent) :
    Direction d' side is := by
  refine ⟨h.timely, hparser.trans h.parser, ?_, ?_, ?_⟩
  · rw [hreceived]
    exact h.received
  · rw [hline, hsent]
    exact h.bytes
  · rw [hsent]
    exact h.short

structure Running (d : Duplex) : Prop where
  working : ∀ side, Working (d.station side).tf
  direction : ∀ side, ∃ is, Direction d side is

theorem start_working (side : TfPeer) : Working (Duplex.start.station side).tf where
  counted := (add_generic_counted recorder () (init_counted side) []).2
  idle := ⟨rfl, List.length_replicate⟩
  plain := by
    intro lst hm
    rw [List.eq_of_mem_replicate hm]
    exact ⟨rfl, rfl⟩
  hears := ⟨{ fn := some () }, List.mem_cons_self, rfl⟩

theorem running_start : Running Duplex.start :=
  ⟨start_working, fun _ => ⟨[], trivial, rfl, rfl, rfl, nofun⟩⟩

/-- Bytes or a tick at one end: only what is on its way to it may get less. -/
theorem running_act {d : Duplex} (h : Running d) (side : TfPeer) {a : PeerAct}
    (ht : NoTimeout (d.station side).toPeer a) (line : List UInt8)
    (hline : (inputs a).filterMap id ++ line = d.line side) :
    Running { station := d.act side a, line := Function.update d.line side line } := by
  obtain ⟨hworking, hparser, hreceived⟩ := station_acts (h.working side) a
  have hhere : d.act side a side =
      { d.station side with toPeer := peerStep (d.station side).toPeer a } := Function.update_self ..
  have hthere : ∀ t, t ≠ side → d.act side a t = d.station t :=
    fun t ht => Function.update_of_ne ht ..
  constructor
  · intro t
    by_cases hs : t = side
    · subst hs
      dsimp only
      rw [hhere]
      exact hworking
    · dsimp only
      rw [hthere t hs]
      exact h.working t
  · intro t
    obtain ⟨is, hd⟩ := h.direction t
    have hsent : (d.act side a t.other).sent = (d.station t.other).sent := by
      by_cases hs : t.other = side
      · rw [hs, hhere]
      · rw [hthere t.other hs]
    by_cases hs : t = side
    · subst hs
      refine ⟨is ++ inputs a, ?_, ?_, ?_, ?_, ?_⟩
      · rw [timely_append, ← hd.parser]
        exact ⟨hd.timely, step_timely ht⟩
      · dsimp only
        rw [hhere, Mealy.run_append, ← hd.parser]
        exact hparser
      · dsimp only
        rw [hhere, Mealy.run_append, ← hd.parser, List.map_append, ← hd.received]
        exact hreceived
      · dsimp only
        rw [hsent, Function.update_self, List.filterMap_append, List.append_assoc, hline]
        exact hd.bytes
      · dsimp only
        rw [hsent]
        exact hd.short
    · have hstation := hthere t hs
      exact ⟨is, hd.same (congrArg (·.tf.parser) hstation) (congrArg (·.received) hstation)
        (Function.update_of_ne hs ..) hsent⟩

theorem message_short (tf : TinyFrame Unit Empty) (c : SendCall) :
    (c.message tf).2.2.length < 2 ^ 16 := by
  cases c with
  | send type payload | query type payload timeout | respond id type payload => exact payload.2

/-- A call at one end: what is on its way to the other may get more. -/
theorem running_call {d : Duplex} (h : Running d) (side : TfPeer) (c : SendCall) :
    Running (d.call side c) := by
  obtain ⟨ok, tf, writes, hrun, hworking, hparser, hbytes⟩ := station_calls (h.working side) c
  have hcall : d.call side c =
      { station := Function.update d.station side
          { d.station side with
            tf := tf
            sent := if ok then (d.station side).sent ++ [c.message (d.station side).tf]
              else (d.station side).sent }
        line := Function.update d.line side.other (d.line side.other ++ writes.flatten) } := by
    simp only [Duplex.call]
    rw [hrun]
  rw [hcall]
  constructor
  · intro t
    by_cases hs : t = side
    · subst hs
      dsimp only
      rw [Function.update_self]
      exact hworking
    · dsimp only
      rw [Function.update_of_ne hs]
      exact h.working t
  · intro t
    obtain ⟨is, hd⟩ := h.direction t
    by_cases hs : t = side
    · subst hs
      refine ⟨is, hd.same ?_ ?_ (Function.update_of_ne (other_ne t).symm ..) ?_⟩
      · dsimp only
        rw [Function.update_self]
        exact hparser
      · dsimp only
        rw [Function.update_self]
      · dsimp only
        rw [Function.update_of_ne (other_ne t)]
    · have ht : t.other = side := by
        rw [eq_other hs, other_other]
      subst ht
      refine ⟨is, hd.timely, ?_, ?_, ?_, ?_⟩
      · dsimp only
        rw [Function.update_of_ne hs]
        exact hd.parser
      · dsimp only
        rw [Function.update_of_ne hs]
        exact hd.received
      · dsimp only
        rw [other_other, Function.update_self, Function.update_self, ← List.append_assoc, hd.bytes,
          hbytes]
        cases ok with
        | false => simp
        | true => simp
      · dsimp only
        rw [Function.update_self]
        cases ok with
        | false => exact hd.short
        | true =>
          intro m hm
          rcases List.mem_append.mp hm with hm | hm
          · exact hd.short m hm
          · rw [List.mem_singleton.mp hm]
            exact message_short _ c

theorem accepted_bytes (chunk : List UInt8) : (inputs (.accept chunk)).filterMap id = chunk := by
  simp [inputs]

theorem running_step (d : Duplex) (m : WireMove) (h : Running d) (ht : d.InTime m) :
    Running (d.step m) := by
  cases m with
  | call side c => exact running_call h side c
  | deliver side n =>
    have hchunk : (inputs (.accept ((d.line side).take n))).filterMap id = (d.line side).take n :=
      accepted_bytes _
    apply running_act h side (a := .accept ((d.line side).take n)) ht
    rw [hchunk]
    exact List.take_append_drop n (d.line side)
  | tick side =>
    have htick := running_act h side (a := .tick) trivial (d.line side) rfl
    rw [Function.update_eq_self] at htick
    exact htick

/-! ### What arrives -/

def fits (m : Message) : Bool := m.2.2.length ≤ tfMaxPayloadRx

/-- Frames are read back one by one, those too long for the receiver left out. -/
theorem decode_frames (ms : List Message) (h : ∀ m ∈ ms, m.2.2.length < 2 ^ 16) :
    decode (ms.flatMap frameOf) = ms.filter fits := by
  induction ms with
  | nil => exact reader.decode_none rfl
  | cons m ms ih =>
    obtain ⟨id, type, payload⟩ := m
    have hrest := ih fun m hm => h m (by simp [hm])
    rw [List.flatMap_cons]
    by_cases hfit : payload.length ≤ tfMaxPayloadRx
    · have hkeep : fits (id, type, payload) = true := decide_eq_true hfit
      rw [List.filter_cons_of_pos hkeep, ← hrest]
      exact decode_frame id type hfit _
    · have hlarge : tfMaxPayloadRx < payload.length := Nat.lt_of_not_le hfit
      have hne : payload ≠ [] := by
        rintro rfl
        exact hfit (Nat.zero_le _)
      obtain ⟨hi, lo, hc, -⟩ := word_writeNum (cksum payload)
      have hframe : frameOf (id, type, payload) ++ ms.flatMap frameOf =
          frameHead id (UInt16.ofNat payload.length) type ++
            (payload ++ hi :: lo :: ms.flatMap frameOf) := by
        rw [frameOf, frame_body id type hne, body, hc]
        simp
      have hskip : ¬ fits (id, type, payload) = true := fun hf => hfit (of_decide_eq_true hf)
      rw [List.filter_cons_of_neg hskip, ← hrest, hframe]
      exact decode_oversized id type hlarge (h (id, type, payload) (by simp)) hi lo _

/-- A slave and a master that send, query and respond as they like, over a wire that
delivers in chunks of any size: as long as no frame stalls until it times out, each end
has been handed the other's messages in order, none twice and none made up, except those
too long for its buffer; and nothing is missing but what is still on its way. -/
theorem wire_fifo (moves : List WireMove)
    (h : Runs.Meets Duplex.step Duplex.InTime Duplex.start moves) (side : TfPeer) :
    let d := Runs.run Duplex.step Duplex.start moves
    let handed := (d.station side).received.map said
    let sent := (d.station side.other).sent.filter fits
    handed <+: sent ∧ (d.line side = [] → handed = sent) := by
  intro d handed sent
  have hrun : Running d := Runs.invariant_of_meets Duplex.step running_step running_start h
  obtain ⟨is, hd⟩ := hrun.direction side
  have hsent : decode ((d.station side.other).sent.flatMap frameOf) = sent :=
    decode_frames _ hd.short
  have hhanded : handed = decode (is.filterMap id) := by
    have hidle : (tfInitStatic Unit Empty side).parser.state = .sof := rfl
    rw [← parser_decodes hidle, ← (timely_run rfl hd.timely).2]
    exact hd.received
  constructor
  · rw [hhanded, ← hsent, ← hd.bytes]
    exact decode_prefix (is.filterMap id) (d.line side)
  · intro hline
    rw [hhanded, ← hsent, ← hd.bytes, hline, List.append_nil]

/-- Both ends send at once; the master's query arrives in two pieces. -/
def crossing : List WireMove :=
  [.call .master (.query 0x02 ⟨[0x07], by decide⟩ 10), .call .slave (.send 0x03 ⟨[], by decide⟩),
    .tick .slave, .deliver .slave 4, .tick .slave, .deliver .slave 32, .deliver .master 32]

theorem crossing_arrives :
    ((Runs.run Duplex.step Duplex.start crossing).station .slave).received.map said =
      [(0x80, 0x02, [0x07])] := by
  have hmeets : Runs.Meets Duplex.step Duplex.InTime Duplex.start crossing :=
    ⟨trivial, trivial, trivial, Or.inr (Or.inl rfl), trivial,
      Or.inr (Or.inr (by decide +kernel)), Or.inr (Or.inl rfl), trivial⟩
  have hempty : (Runs.run Duplex.step Duplex.start crossing).line .slave = [] := by decide +kernel
  refine ((wire_fifo crossing hmeets .slave).2 hempty).trans ?_
  decide +kernel

end UpAndDownESP.Proofs.Duplex
