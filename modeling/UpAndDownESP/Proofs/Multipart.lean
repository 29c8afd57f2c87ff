import UpAndDownESP.Proofs.Integrity
import UpAndDownESP.Proofs.Sending
import UpAndDownESP.TinyFrame.Multipart

namespace UpAndDownESP.Proofs.Multipart
open BigEndian Sending Integrity

variable {L T : Type}

/-! ### The send buffer, whatever is called -/

/-- The buffer keeps its size and the position stays in it. -/
structure Held (tx : Transmitter) : Prop where
  size : tx.sendbuf.length = tfSendbufLen
  pos : tx.txPos ≤ tfSendbufLen

/-- The chunk loop from any position: nothing is lost, reordered or written twice. -/
structure Composed (tx : Transmitter) (rest : List UInt8)
    (r : Transmitter × List (List UInt8)) : Prop where
  held : Held r.1
  bytes : r.2.flatten ++ unsent r.1 = unsent tx ++ rest
  cksum : r.1.txCksum = rest.foldl cksumAdd tx.txCksum
  txLen : r.1.txLen = tx.txLen
  softLock : r.1.softLock = tx.softLock
  writes : ∀ w ∈ r.2, w.length = tfSendbufLen

/-- A full buffer costs one turn more than there are bytes. -/
theorem chunkLoop_composed (fuel : Nat) (tx : Transmitter) (rest : List UInt8) (h : Held tx)
    (hf : rest.length + (if tx.txPos = tfSendbufLen then 1 else 0) ≤ fuel) :
    Composed tx rest (chunkLoop fuel tx rest) := by
  induction fuel generalizing tx rest with
  | zero =>
    have he : rest = [] := List.length_eq_zero_iff.mp (by omega)
    subst he
    exact ⟨h, by simp [chunkLoop], rfl, rfl, rfl, by simp [chunkLoop]⟩
  | succ fuel ih =>
    obtain ⟨hsize, hpos⟩ := h
    by_cases hnil : rest.length = 0
    · have he : rest = [] := List.length_eq_zero_iff.mp hnil
      subst he
      exact ⟨⟨hsize, hpos⟩, by simp [chunkLoop], rfl, rfl, rfl, by simp [chunkLoop]⟩
    · let chunk := min (tfSendbufLen - tx.txPos) rest.length
      have hchunk : chunk ≤ rest.length ∧ tx.txPos + chunk ≤ tfSendbufLen := by
        simp only [chunk]
        omega
      have hpart : (rest.take chunk).length = chunk := List.length_take_of_le hchunk.1
      let tx1 : Transmitter := { tx with
        sendbuf := putAt tx.sendbuf tx.txPos (rest.take chunk)
        txPos := tx.txPos + chunk
        txCksum := (rest.take chunk).foldl cksumAdd tx.txCksum }
      have hsize1 : tx1.sendbuf.length = tfSendbufLen := by
        rw [← hsize]
        exact putAt_length (by rw [hpart, hsize]; exact hchunk.2)
      have hunsent : unsent tx1 = unsent tx ++ rest.take chunk := by
        have := putAt_take tx.sendbuf (rest.take chunk) (show tx.txPos ≤ _ by rw [hsize]; omega)
        rwa [hpart] at this
      have hsum : (rest.drop chunk).foldl cksumAdd tx1.txCksum =
          rest.foldl cksumAdd tx.txCksum := by
        rw [← List.foldl_append, List.take_append_drop]
      by_cases hfull : tx1.txPos = tfSendbufLen
      · have hr := ih { tx1 with txPos := 0 } (rest.drop chunk) ⟨hsize1, Nat.zero_le _⟩ (by
          have hzero : ¬ (0 = tfSendbufLen) := by decide
          rw [List.length_drop, if_neg hzero]
          have hturn : 0 < chunk ∨ tx.txPos = tfSendbufLen := by
            simp only [chunk]
            omega
          rcases hturn with hc | hat
          · split at hf <;> omega
          · rw [if_pos hat] at hf
            omega)
        have he : chunkLoop (fuel + 1) tx rest =
            ((chunkLoop fuel { tx1 with txPos := 0 } (rest.drop chunk)).1,
              unsent tx1 :: (chunkLoop fuel { tx1 with txPos := 0 } (rest.drop chunk)).2) := by
          simp only [chunkLoop, hnil, if_false]
          rw [if_pos hfull]
          rfl
        rw [he]
        refine ⟨hr.held, ?_, hr.cksum.trans hsum, hr.txLen, hr.softLock, ?_⟩
        · rw [List.flatten_cons, List.append_assoc, hr.bytes, hunsent]
          simp [unsent]
        · intro w hw
          rcases List.mem_cons.mp hw with rfl | hw
          · simp [unsent, hfull, hsize1]
          · exact hr.writes w hw
      · -- room is left, so that was all
        have hall : chunk = rest.length := by
          have hne : tx.txPos + chunk ≠ tfSendbufLen := hfull
          simp only [chunk] at hne ⊢
          omega
        have hr := ih tx1 (rest.drop chunk) ⟨hsize1, hchunk.2⟩ (by
          rw [if_neg hfull, List.length_drop]
          omega)
        have he : chunkLoop (fuel + 1) tx rest = chunkLoop fuel tx1 (rest.drop chunk) := by
          simp only [chunkLoop, hnil, if_false]
          rw [if_neg hfull]
        rw [he]
        refine ⟨hr.held, ?_, hr.cksum.trans hsum, hr.txLen, hr.softLock, hr.writes⟩
        rw [hr.bytes, hunsent, List.append_assoc, List.take_append_drop]

theorem sendFrameChunk_composed {tx : Transmitter} (h : Held tx) (buff : List UInt8) (length : Nat) :
    Composed tx (buff.take length) (tfSendFrameChunk tx buff length) := by
  apply chunkLoop_composed _ _ _ h
  rw [List.length_take]
  split <;> omega

/-- The end of a frame: what was unsent and the checksum, and the buffer keeps what was
written last. -/
structure Ended (tx : Transmitter) (r : Transmitter × List (List UInt8)) : Prop where
  held : Held r.1
  bytes : r.2.flatten =
    unsent tx ++ if 0 < tx.txLen then writeNum 2 (cksumEnd tx.txCksum).toNat else []
  free : r.1.softLock = false
  txLen : r.1.txLen = tx.txLen
  last : ∃ before, r.2 = before ++ [unsent r.1]
  writes : ∀ w ∈ r.2, w.length ≤ tfSendbufLen

theorem take_fits (buf : List UInt8) {pos : Nat} (h : pos ≤ tfSendbufLen) :
    (buf.take pos).length ≤ tfSendbufLen :=
  (List.length_take_le pos buf).trans h

theorem sendFrameEnd_ended {tx : Transmitter} (h : Held tx) : Ended tx (tfSendFrameEnd tx) := by
  obtain ⟨hsize, hpos⟩ := h
  by_cases hlen : 0 < tx.txLen
  · by_cases hfull : tfSendbufLen - tx.txPos < 2
    · have hput : (putAt tx.sendbuf 0 (writeNum 2 (cksumEnd tx.txCksum).toNat)).length =
          tfSendbufLen := by
        rw [putAt_length] <;> simp [hsize, tfSendbufLen]
      simp only [tfSendFrameEnd, hlen, if_true, hfull, tfReleaseTx]
      refine ⟨⟨hput, ?_⟩, ?_, rfl, rfl, ⟨_, rfl⟩, ?_⟩
      · simp [tfSendbufLen]
      · rw [putAt_take _ _ (Nat.zero_le _)]
        simp [unsent, hlen]
      · intro w hw
        simp only [List.cons_append, List.nil_append, List.mem_cons, List.not_mem_nil,
          or_false] at hw
        rcases hw with rfl | rfl
        · exact take_fits _ hpos
        · exact take_fits _ (by simp [tfSendbufLen])
    · have hput : (putAt tx.sendbuf tx.txPos (writeNum 2 (cksumEnd tx.txCksum).toNat)).length =
          tfSendbufLen := by
        rw [putAt_length] <;> simp only [hsize, writeNum_length]
        omega
      simp only [tfSendFrameEnd, hlen, if_true, hfull, if_false, tfReleaseTx]
      refine ⟨⟨hput, ?_⟩, ?_, rfl, rfl, ⟨_, rfl⟩, ?_⟩
      · simp only [writeNum_length]
        omega
      · rw [putAt_take _ _ (by omega)]
        simp [unsent, hlen]
      · intro w hw
        simp only [List.nil_append, List.mem_singleton] at hw
        rw [hw]
        exact take_fits _ (by simp only [writeNum_length]; omega)
  · simp only [tfSendFrameEnd, hlen, if_false, tfReleaseTx]
    refine ⟨⟨hsize, hpos⟩, by rw [if_neg hlen]; simp [unsent], rfl, rfl, ⟨[], rfl⟩, ?_⟩
    intro w hw
    rw [List.mem_singleton.mp hw]
    exact take_fits _ hpos

/-! ### One call -/

theorem addIdListener_tx (tf : TinyFrame L T) (msg : TfMsg) (cb : L) (ftimeout : Option T)
    (timeout : Nat) : (tfAddIdListener tf msg cb ftimeout timeout).2.tx = tf.tx := by
  unfold tfAddIdListener
  dsimp only
  split <;> rfl

/-- What a sending function leaves of the transmitter, and what it writes. -/
structure Sane (r : TinyFrame L T × List (List UInt8)) : Prop where
  held : Held r.1.tx
  writes : ∀ w ∈ r.2, w.length ≤ tfSendbufLen

theorem headed_held {tx : Transmitter} (h : Held tx) (id : UInt8) (len : UInt16) (type : UInt8) :
    Held (headed tx (frameHead id len type) len) := by
  constructor
  · change (putAt tx.sendbuf 0 (frameHead id len type)).length = tfSendbufLen
    rw [putAt_length] <;> simp [h.size, frameHead_length, tfSendbufLen]
  · change (frameHead id len type).length ≤ tfSendbufLen
    rw [frameHead_length]
    decide

theorem begin_held {tf : TinyFrame L T} (h : Held tf.tx) (msg : TfMsg) (listener : Option L)
    (ftimeout : Option T) (timeout : Nat) :
    Held (tfSendFrameBegin tf msg listener ftimeout timeout).2.1.tx := by
  by_cases hlock : tf.tx.softLock = true
  · simpa [tfSendFrameBegin, tfClaimTx, hlock] using h
  · have hi : Idle tf.tx := ⟨by simpa using hlock, h.size⟩
    have hopened := headed_held h (headId tf msg) msg.len msg.type
    cases listener with
    | none =>
      rw [begin_alone hi]
      exact ⟨hopened.size, hopened.pos⟩
    | some l =>
      cases ha : tfAddIdListener (withHead tf msg) { msg with frameId := headId tf msg } l ftimeout
        timeout with
      | mk ok tf' =>
        have htx := addIdListener_tx (withHead tf msg) { msg with frameId := headId tf msg } l
          ftimeout timeout
        rw [ha] at htx
        have hheld : Held tf'.tx := by
          change Held (withHead tf msg).tx at hopened
          rw [← htx] at hopened
          exact hopened
        rw [begin_listening hi ha]
        cases ok with
        | false => exact ⟨hheld.size, hheld.pos⟩
        | true => exact ⟨hheld.size, hheld.pos⟩

theorem sendFrame_sane {tf : TinyFrame L T} (h : Held tf.tx) (msg : TfMsg) (listener : Option L)
    (ftimeout : Option T) (timeout : Nat) :
    Sane (tfSendFrame tf msg listener ftimeout timeout).2 := by
  have hb := begin_held h msg listener ftimeout timeout
  unfold tfSendFrame
  split
  · rename_i hbegin
    rw [hbegin] at hb
    exact ⟨hb, by simp⟩
  · rename_i hbegin
    rw [hbegin] at hb
    split
    · rename_i tf1 msg1 _
      have hc := sendFrameChunk_composed hb (msg1.data.getD []) msg1.len.toNat
      have he := sendFrameEnd_ended hc.held
      refine ⟨he.held, ?_⟩
      intro w hw
      rcases List.mem_append.mp hw with hw | hw
      · exact (hc.writes w hw).le
      · exact he.writes w hw
    · exact ⟨hb, by simp⟩

/-- Every call composes a whole frame or the head of one, part of a payload, or an end. -/
theorem txCall_cases (tf : TinyFrame L T) (c : TxCall L T) :
    (∃ msg l ftimeout timeout, (txCall tf c).2 = (tfSendFrame tf msg l ftimeout timeout).2 ∧
      ((txCall tf c).1 = some (tfSendFrame tf msg l ftimeout timeout).1 ∨
        (txCall tf c).1 = none)) ∨
    (∃ buff length, c = .multipartPayload buff length) ∨ c = .multipartClose := by
  cases c with
  | send msg => exact Or.inl ⟨msg, none, none, 0, rfl, Or.inl rfl⟩
  | sendSimple type data len =>
    exact Or.inl ⟨{ tfClearMsg with type := type, data := data, len := len }, none, none, 0, rfl,
      Or.inl rfl⟩
  | query msg l ftimeout timeout => exact Or.inl ⟨msg, l, ftimeout, timeout, rfl, Or.inl rfl⟩
  | querySimple type data len l ftimeout timeout =>
    exact Or.inl ⟨{ tfClearMsg with type := type, data := data, len := len }, l, ftimeout, timeout,
      rfl, Or.inl rfl⟩
  | respond msg => exact Or.inl ⟨{ msg with isResponse := true }, none, none, 0, rfl, Or.inl rfl⟩
  | sendMultipart msg => exact Or.inl ⟨{ msg with data := none }, none, none, 0, rfl, Or.inl rfl⟩
  | sendSimpleMultipart type len =>
    exact Or.inl ⟨{ tfClearMsg with type := type, data := none, len := len }, none, none, 0, rfl,
      Or.inl rfl⟩
  | queryMultipart msg l ftimeout timeout =>
    exact Or.inl ⟨{ msg with data := none }, l, ftimeout, timeout, rfl, Or.inl rfl⟩
  | querySimpleMultipart type len l ftimeout timeout =>
    exact Or.inl ⟨{ tfClearMsg with type := type, data := none, len := len }, l, ftimeout, timeout,
      rfl, Or.inl rfl⟩
  | respondMultipart msg =>
    exact Or.inl ⟨{ msg with data := none, isResponse := true }, none, none, 0, rfl, Or.inr rfl⟩
  | multipartPayload buff length => exact Or.inr (Or.inl ⟨buff, length, rfl⟩)
  | multipartClose => exact Or.inr (Or.inr rfl)

theorem txCall_sane {tf : TinyFrame L T} (h : Held tf.tx) (c : TxCall L T) :
    Sane (txCall tf c).2 := by
  rcases txCall_cases tf c with ⟨msg, l, ftimeout, timeout, he, -⟩ | ⟨buff, length, rfl⟩ | rfl
  · rw [he]
    exact sendFrame_sane h msg l ftimeout timeout
  · have hc := sendFrameChunk_composed h buff length
    exact ⟨hc.held, fun w hw => (hc.writes w hw).le⟩
  · have he := sendFrameEnd_ended h
    exact ⟨he.held, he.writes⟩

/-- No order of calls of the sending API, right or wrong, composes outside the send
buffer or writes out more than it holds. -/
theorem send_buffer_safe (peer : TfPeer) (calls : List (TxCall L T)) :
    let s := Runs.run txStep (tfInitStatic L T peer, []) calls
    s.1.tx.sendbuf.length = tfSendbufLen ∧ s.1.tx.txPos ≤ tfSendbufLen ∧
      ∀ w ∈ s.2, w.length ≤ tfSendbufLen := by
  intro s
  have hs : Held s.1.tx ∧ ∀ w ∈ s.2, w.length ≤ tfSendbufLen := by
    refine Runs.invariant txStep (I := fun s : Sender L T =>
      Held s.1.tx ∧ ∀ w ∈ s.2, w.length ≤ tfSendbufLen) ?_ ⟨⟨by rfl, Nat.zero_le _⟩, by simp⟩ calls
    intro t c ht
    have hc := txCall_sane ht.1 c
    refine ⟨hc.held, ?_⟩
    intro w hw
    rcases List.mem_append.mp hw with hw | hw
    · exact ht.2 w hw
    · exact hc.writes w hw
  exact ⟨hs.1.size, hs.1.pos, hs.2⟩

/-! ### A multipart frame among other calls -/

/-- The payload bytes that a call adds to an open frame. -/
def payloadOf : TxCall L T → List UInt8
  | .multipartPayload buff length => buff.take length
  | _ => []

/-- While the lock is taken a send fails and does nothing else. -/
theorem locked_call {tf : TinyFrame L T} (h : tf.tx.softLock = true) {c : TxCall L T}
    (hp : ∀ buff length, c ≠ .multipartPayload buff length) (hc : c ≠ .multipartClose) :
    (txCall tf c).1 ≠ some true ∧ (txCall tf c).2 = (tf, []) := by
  rcases txCall_cases tf c with ⟨msg, l, ftimeout, timeout, he, hr⟩ | ⟨buff, length, rfl⟩ | rfl
  · have hsend : tfSendFrame tf msg l ftimeout timeout = (false, tf, []) := by
      simp [tfSendFrame, tfSendFrameBegin, tfClaimTx, h]
    rw [hsend] at he hr
    refine ⟨?_, he⟩
    rcases hr with hr | hr
    · rw [hr]
      simp
    · rw [hr]
      simp
  · exact absurd rfl (hp buff length)
  · exact absurd rfl hc

/-- A multipart frame of which some payload has been composed; apart from its transmitter
the instance is `tf`. -/
structure Open (tf : TinyFrame L T) (len : Nat) (prior data : List UInt8) (s : Sender L T) :
    Prop where
  rest : { s.1 with tx := tf.tx } = tf
  lock : s.1.tx.softLock = true
  held : Held s.1.tx
  bytes : s.2.flatten ++ unsent s.1.tx = prior ++ data
  cksum : s.1.tx.txCksum = data.foldl cksumAdd cksumStart
  txLen : s.1.tx.txLen = len

theorem Open.step {tf : TinyFrame L T} {len : Nat} {prior data : List UInt8} {s : Sender L T}
    (h : Open tf len prior data s) {c : TxCall L T} (hc : c ≠ .multipartClose) :
    Open tf len prior (data ++ payloadOf c) (txStep s c) := by
  by_cases hp : ∃ buff length, c = .multipartPayload buff length
  · obtain ⟨buff, length, rfl⟩ := hp
    have hcomp := sendFrameChunk_composed h.held buff length
    refine ⟨h.rest, hcomp.softLock.trans h.lock, hcomp.held, ?_, ?_, hcomp.txLen.trans h.txLen⟩
    · change (s.2 ++ (tfSendFrameChunk s.1.tx buff length).2).flatten ++
        unsent (tfSendFrameChunk s.1.tx buff length).1 = _
      rw [List.flatten_append, List.append_assoc, hcomp.bytes, ← List.append_assoc, h.bytes,
        List.append_assoc]
      rfl
    · change (tfSendFrameChunk s.1.tx buff length).1.txCksum = _
      rw [hcomp.cksum, h.cksum, ← List.foldl_append]
      rfl
  · have hnone : payloadOf c = [] := by
      cases c with
      | multipartPayload buff length => exact absurd ⟨buff, length, rfl⟩ hp
      | _ => rfl
    obtain ⟨-, hsame⟩ := locked_call h.lock (fun buff length he => hp ⟨buff, length, he⟩) hc
    have hstep : txStep s c = s := by rw [txStep, hsame, List.append_nil]
    rw [hstep, hnone, List.append_nil]
    exact h

theorem Open.run {tf : TinyFrame L T} {len : Nat} {prior data : List UInt8} {s : Sender L T}
    (h : Open tf len prior data s) {mid : List (TxCall L T)} (hmid : .multipartClose ∉ mid) :
    Open tf len prior (data ++ mid.flatMap payloadOf) (Runs.run txStep s mid) := by
  induction mid generalizing s data with
  | nil => simpa using h
  | cons c mid ih =>
    have hc : c ≠ .multipartClose := by
      rintro rfl
      exact hmid (by simp)
    have hrest := ih (h.step hc) fun hm => hmid (by simp [hm])
    rw [List.append_assoc] at hrest
    exact hrest

theorem multipart_opens {tf : TinyFrame L T} (hi : Idle tf.tx) (sent : List (List UInt8))
    (msg : TfMsg) (hlen : msg.len ≠ 0) :
    Open (withHead tf msg) msg.len.toNat
      (sent.flatten ++ frameHead (headId tf msg) msg.len msg.type) []
      (txStep (tf, sent) (.sendMultipart msg)) := by
  have hcall : txCall tf (.sendMultipart msg) = (some true,
      { withHead tf msg with tx := opened tf.tx (headId tf msg) msg.type msg.len }, []) := by
    simp only [txCall, tfSendMultipart, tfSend, tfSendFrame]
    rw [begin_alone hi]
    simp only [hlen, false_or, ne_eq, not_true_eq_false, if_false]
    rfl
  have hroom := headed_room hi (headId tf msg) msg.len msg.type
  have hunsent := headed_unsent tf.tx (frameHead (headId tf msg) msg.len msg.type) msg.len
  rw [txStep, hcall]
  refine ⟨rfl, rfl, ⟨hroom.size, hroom.pos.le⟩, ?_, rfl, rfl⟩
  rw [List.append_nil, List.append_nil]
  exact congrArg (sent.flatten ++ ·) hunsent

/-- However its payload is split, and whatever else is tried before it is closed, a
multipart frame goes out as one: every other send fails and leaves no trace. With the
payload it announced it is the frame a plain send writes. -/
theorem multipart_isolated (tf : TinyFrame L T) (hi : Idle tf.tx) (sent : List (List UInt8))
    (msg : TfMsg) (hlen : msg.len ≠ 0) (mid : List (TxCall L T)) (hmid : .multipartClose ∉ mid) :
    let started := txStep (tf, sent) (.sendMultipart msg)
    let s := Runs.run txStep started (mid ++ [.multipartClose])
    let data := mid.flatMap payloadOf
    (∀ before c after, mid = before ++ c :: after →
      (∀ buff length, c ≠ .multipartPayload buff length) →
        (txCall (Runs.run txStep started before).1 c).1 ≠ some true) ∧
    s.2.flatten = sent.flatten ++ frameHead (headId tf msg) msg.len msg.type ++ data ++
      writeNum 2 (cksum data).toNat ∧
    (data.length = msg.len.toNat →
      s.2.flatten = sent.flatten ++ frameBytes (headId tf msg) msg.type data) ∧
    { s.1 with tx := tf.tx } = { withHead tf msg with tx := tf.tx } ∧ Idle s.1.tx := by
  intro started s data
  have hstart := multipart_opens hi sent msg hlen
  have hopen := hstart.run hmid
  have hended := sendFrameEnd_ended hopen.held
  have hs : s = txStep (Runs.run txStep started mid) .multipartClose := Runs.run_append _ _ _ _
  have hbytes : s.2.flatten = sent.flatten ++ frameHead (headId tf msg) msg.len msg.type ++ data ++
      writeNum 2 (cksum data).toNat := by
    have hpos' : 0 < (Runs.run txStep started mid).1.tx.txLen := by
      rw [hopen.txLen]
      apply Nat.pos_of_ne_zero
      intro hz
      exact hlen (UInt16.toNat_inj.mp hz)
    rw [hs]
    change ((Runs.run txStep started mid).2 ++
      (tfSendFrameEnd (Runs.run txStep started mid).1.tx).2).flatten = _
    rw [List.flatten_append, hended.bytes, if_pos hpos', ← List.append_assoc, hopen.bytes,
      hopen.cksum, List.nil_append]
    rfl
  refine ⟨?_, hbytes, ?_, ?_, ?_⟩
  · intro before c after hsplit hp
    have hbefore : .multipartClose ∉ before := fun hm => hmid (by simp [hsplit, hm])
    have hc : c ≠ .multipartClose := by
      rintro rfl
      exact hmid (by simp [hsplit])
    exact (locked_call (hstart.run hbefore).lock hp hc).1
  · intro hdata
    have hne : data.length ≠ 0 := by
      intro hz
      rw [hz] at hdata
      exact hlen (UInt16.toNat_inj.mp hdata.symm)
    rw [hbytes, frameBytes, if_neg hne, hdata, UInt16.ofNat_toNat]
    simp only [List.append_assoc]
  · rw [hs]
    exact congrArg (fun t : TinyFrame L T => { t with tx := tf.tx }) hopen.rest
  · rw [hs]
    exact ⟨hended.free, hended.held.size⟩

/-- Sixteen data bytes in three parts, with a send and a query tried in between. -/
def threeParts : List (TxCall Unit Empty) :=
  [.multipartPayload (List.replicate 60 0x11) 10, .send tfClearMsg,
    .multipartPayload (List.replicate 4 0x22) 4, .query tfClearMsg (some ()) none 5,
    .multipartPayload [0x33, 0x34] 2]

theorem three_parts_isolated :
    let started : Sender Unit Empty := txStep (tfInitStatic Unit Empty .master, [])
      (.sendMultipart { tfClearMsg with type := 7, len := 16 })
    let s := Runs.run txStep started (threeParts ++ [.multipartClose])
    s.2.flatten =
      frameBytes 0x80 7 (List.replicate 10 0x11 ++ List.replicate 4 0x22 ++ [0x33, 0x34]) :=
  (multipart_isolated (tfInitStatic Unit Empty .master) ⟨rfl, rfl⟩ []
    { tfClearMsg with type := 7, len := 16 } (by decide) threeParts
    (by simp [threeParts])).2.2.1 (by decide)

/-! ### Closing what is not open -/

/-- After a frame that fits the send buffer the buffer still holds all of it. -/
theorem finish_keeps (hi : Idle tx) (id type : UInt8) {data : List UInt8} {len : UInt16}
    (hlen : len.toNat ≤ data.length) (hfit : len.toNat ≤ 55) :
    let chunked := tfSendFrameChunk (opened tx id type len) data len.toNat
    let ended := tfSendFrameEnd chunked.1
    let frame := frameBytes id type (data.take len.toNat)
    chunked.2 ++ ended.2 = [frame] ∧ Held ended.1 ∧ unsent ended.1 = frame := by
  intro chunked ended frame
  have hroom := headed_room hi id len type
  have hheld : Held (opened tx id type len) := ⟨hroom.size, hroom.pos.le⟩
  have hended := sendFrameEnd_ended (sendFrameChunk_composed hheld data len.toNat).held
  have hwrites : chunked.2 ++ ended.2 = [frame] := by
    apply (finish_spec hi id type hlen).1.single
    rw [frameBytes_length, List.length_take_of_le hlen]
    simp only [tfSendbufLen]
    split <;> omega
  refine ⟨hwrites, hended.held, ?_⟩
  obtain ⟨before, hlast⟩ := hended.last
  change ended.2 = before ++ [unsent ended.1] at hlast
  rw [hlast, ← List.append_assoc] at hwrites
  have hsame := hwrites.trans (List.nil_append [frame]).symm
  exact List.singleton_inj.mp (List.append_inj_right' hsame rfl)

/-- A close with no frame open sends the last frame once more, if that fitted the send
buffer: the peer receives it twice. For an empty payload the calls of a multipart frame,
made in order, end in such a close. -/
theorem stray_close_repeats (tf : TinyFrame L T) (hi : Idle tf.tx) (msg : TfMsg)
    (listener : Option L) (hslot : listener ≠ none → ¬ NoSlot tf)
    (hwhole : msg.len = 0 ∨ msg.data ≠ none) (hlen : msg.len.toNat ≤ (msg.data.getD []).length)
    (hfit : msg.len.toNat ≤ 55) (ftimeout : Option T) (timeout : Nat) :
    let bs := (msg.data.getD []).take msg.len.toNat
    let sent := tfSendFrame tf msg listener ftimeout timeout
    let closed := tfMultipartClose sent.2.1
    sent.1 = true ∧
      hears (sent.2.2.flatten ++ closed.2.flatten) =
        [(headId tf msg, msg.type, bs), (headId tf msg, msg.type, bs)] := by
  intro bs sent closed
  obtain ⟨hwrites, hheld, hkept⟩ := finish_keeps hi (headId tf msg) msg.type hlen hfit
  obtain ⟨nextId, slots, count, hbegin⟩ := begin_accepted hi hslot msg ftimeout timeout
  let ended := tfSendFrameEnd (tfSendFrameChunk (opened tf.tx (headId tf msg) msg.type msg.len)
    (msg.data.getD []) msg.len.toNat).1
  have hsend : sent = (true, { tf with
      nextId := nextId, tx := ended.1, idListeners := slots, countIdLst := count },
      [frameBytes (headId tf msg) msg.type bs]) := by
    rw [← hwrites]
    simp only [sent, tfSendFrame]
    rw [hbegin]
    simp only [if_pos hwhole]
    rfl
  have hclosed : closed.2.flatten = frameBytes (headId tf msg) msg.type bs ++
      if 0 < ended.1.txLen then writeNum 2 (cksumEnd ended.1.txCksum).toNat else [] := by
    have hwritten := (sendFrameEnd_ended hheld).bytes
    rw [hkept] at hwritten
    simp only [closed, hsend]
    exact hwritten
  refine ⟨by rw [hsend], ?_⟩
  have hheard : bs.length ≤ tfMaxPayloadRx :=
    ((List.length_take_le _ _).trans hfit).trans (by decide)
  rw [hsend, hclosed, List.flatten_singleton, hears_decode, decode_frame _ _ hheard,
    decode_frame _ _ hheard, decode_short]
  split
  · simp
  · simp

/-- A query for two bytes, and the calls for an empty multipart frame, whose head goes
out at once and again. -/
theorem query_and_empty_repeat :
    let tf := tfInitStatic Unit Empty .master
    let asked := tfQuerySimple tf 1 (some [0x07, 0x2a]) 2 (some ()) none 500
    let empty := tfSendSimpleMultipart tf 4 0
    (asked.1 = true ∧ hears (asked.2.2.flatten ++ (tfMultipartClose asked.2.1).2.flatten) =
      [(0x80, 1, [0x07, 0x2a]), (0x80, 1, [0x07, 0x2a])]) ∧
    (empty.1 = true ∧ hears (empty.2.2.flatten ++ (tfMultipartClose empty.2.1).2.flatten) =
      [(0x80, 4, []), (0x80, 4, [])]) := by
  have hi : Idle (tfInitStatic Unit Empty .master).tx := ⟨rfl, rfl⟩
  have hslot : ¬ NoSlot (tfInitStatic Unit Empty .master) := by
    intro h
    exact h _ List.mem_cons_self rfl
  have hasked := stray_close_repeats (tfInitStatic Unit Empty .master) hi
    { tfClearMsg with type := 1, data := some [0x07, 0x2a], len := 2 } (some ())
    (fun _ => hslot) (Or.inr (by simp)) (by decide) (by decide) none 500
  have hempty := stray_close_repeats (tfInitStatic Unit Empty .master) hi
    { tfClearMsg with type := 4, data := none, len := 0 } none
    (fun h => absurd rfl h) (Or.inl rfl) (by decide) (by decide) none 0
  exact ⟨hasked, hempty⟩

end UpAndDownESP.Proofs.Multipart
