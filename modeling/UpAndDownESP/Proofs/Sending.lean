import UpAndDownESP.Proofs.Table
import UpAndDownESP.Spec.Decoder
import UpAndDownESP.TinyFrame.Compose

namespace UpAndDownESP.Proofs.Sending
open BigEndian Table

variable {L T : Type}

/-! ### The send buffer -/

theorem putAt_length {buf bs : List UInt8} {pos : Nat} (h : pos + bs.length ≤ buf.length) :
    (putAt buf pos bs).length = buf.length := by
  simp only [putAt, List.length_append, List.length_take, List.length_drop]
  omega

/-- What lies before the written bytes stays; what lay under them is gone. -/
theorem putAt_take (buf bs : List UInt8) {pos : Nat} (h : pos ≤ buf.length) :
    (putAt buf pos bs).take (pos + bs.length) = buf.take pos ++ bs := by
  have hl : (buf.take pos ++ bs).length = pos + bs.length := by simp [Nat.min_eq_left h]
  rw [putAt, ← hl, List.take_left]

theorem frameHead_length (id : UInt8) (len : UInt16) (type : UInt8) :
    (frameHead id len type).length = 7 := by
  simp [frameHead]

theorem writeNum_pair (x : UInt16) : writeNum 2 x.toNat = Spec.pair x := by
  have hhi : UInt8.ofNat (x.toNat >>> 8) = (x >>> 8).toUInt8 := by
    apply UInt8.toNat_inj.mp
    simp
  simp only [writeNum, Nat.mul_one, Nat.mul_zero, Nat.shiftRight_zero, hhi]
  rfl

/-- The composer's frame is the one of the format. -/
theorem frameBytes_eq (id type : UInt8) {payload : List UInt8} (h : payload.length < 65536) :
    frameBytes id type payload = Spec.frame (id, type, payload) := by
  have hone : ∀ x : UInt8, writeNum 1 x.toNat = [x] := fun x => by simp [writeNum]
  have hlen : writeNum 2 (UInt16.ofNat payload.length).toNat =
      [UInt8.ofNat (payload.length / 256), UInt8.ofNat payload.length] := by
    rw [UInt16.toNat_ofNat', Nat.mod_eq_of_lt h]
    simp [writeNum, Nat.shiftRight_eq_div_pow]
  simp only [frameBytes, frameHead, Spec.frame, writeNum_pair, hlen, hone, List.length_eq_zero_iff]
  rfl

/-- The bytes composed but not yet handed to `TF_WriteImpl`. -/
def unsent (tx : Transmitter) : List UInt8 := tx.sendbuf.take tx.txPos

/-- Between two operations on a frame the buffer has room and keeps its size. -/
structure Room (tx : Transmitter) : Prop where
  size : tx.sendbuf.length = tfSendbufLen
  pos : tx.txPos < tfSendbufLen

theorem room_zero : 0 < tfSendbufLen := by decide

/-- The transmitter after the chunk loop: nothing is lost, reordered or written twice. -/
structure Chunked (tx : Transmitter) (rest : List UInt8)
    (r : Transmitter × List (List UInt8)) : Prop where
  room : Room r.1
  bytes : r.2.flatten ++ unsent r.1 = unsent tx ++ rest
  cksum : r.1.txCksum = rest.foldl cksumAdd tx.txCksum
  txLen : r.1.txLen = tx.txLen
  quiet : tx.txPos + rest.length < tfSendbufLen →
    r.2 = [] ∧ r.1.txPos = tx.txPos + rest.length

theorem chunkLoop_spec (fuel : Nat) (tx : Transmitter) (rest : List UInt8) (hr : Room tx)
    (hf : rest.length < fuel) : Chunked tx rest (chunkLoop fuel tx rest) := by
  induction fuel generalizing tx rest with
  | zero => omega
  | succ fuel ih =>
    obtain ⟨hsize, hpos⟩ := hr
    by_cases hnil : rest.length = 0
    · have he : rest = [] := List.length_eq_zero_iff.mp hnil
      subst he
      exact ⟨⟨hsize, hpos⟩, by simp [chunkLoop], rfl, rfl, fun _ => ⟨rfl, rfl⟩⟩
    · let chunk := min (tfSendbufLen - tx.txPos) rest.length
      have hchunk : chunk ≤ rest.length ∧ 0 < chunk ∧ tx.txPos + chunk ≤ tfSendbufLen := by
        simp only [chunk, tfSendbufLen] at hpos ⊢
        omega
      have hpart : (rest.take chunk).length = chunk := List.length_take_of_le hchunk.1
      have hdrop : (rest.drop chunk).length < fuel := by
        rw [List.length_drop]
        omega
      let tx1 : Transmitter := { tx with
        sendbuf := putAt tx.sendbuf tx.txPos (rest.take chunk)
        txPos := tx.txPos + chunk
        txCksum := (rest.take chunk).foldl cksumAdd tx.txCksum }
      have hsize1 : tx1.sendbuf.length = tfSendbufLen := by
        rw [← hsize]
        exact putAt_length (by rw [hpart, hsize]; exact hchunk.2.2)
      have hunsent : unsent tx1 = unsent tx ++ rest.take chunk := by
        have := putAt_take tx.sendbuf (rest.take chunk) (show tx.txPos ≤ _ by rw [hsize]; omega)
        rwa [hpart] at this
      have hsum : (rest.drop chunk).foldl cksumAdd tx1.txCksum =
          rest.foldl cksumAdd tx.txCksum := by
        rw [← List.foldl_append, List.take_append_drop]
      by_cases hfull : tx1.txPos = tfSendbufLen
      · -- the buffer is full: it is written out and composing starts over
        have h := ih { tx1 with txPos := 0 } (rest.drop chunk) ⟨hsize1, room_zero⟩ hdrop
        have he : chunkLoop (fuel + 1) tx rest =
            ((chunkLoop fuel { tx1 with txPos := 0 } (rest.drop chunk)).1,
              unsent tx1 :: (chunkLoop fuel { tx1 with txPos := 0 } (rest.drop chunk)).2) := by
          simp only [chunkLoop, hnil, if_false]
          rw [if_pos hfull]
          rfl
        rw [he]
        refine ⟨h.room, ?_, h.cksum.trans hsum, h.txLen, ?_⟩
        · rw [List.flatten_cons, List.append_assoc, h.bytes, hunsent]
          simp [unsent]
        · intro hsmall
          have : tx.txPos + chunk = tfSendbufLen := hfull
          omega
      · have h := ih tx1 (rest.drop chunk) ⟨hsize1, by
          have := hchunk.2.2
          have hne : tx.txPos + chunk ≠ tfSendbufLen := hfull
          change tx.txPos + chunk < tfSendbufLen
          omega⟩ hdrop
        have he : chunkLoop (fuel + 1) tx rest = chunkLoop fuel tx1 (rest.drop chunk) := by
          simp only [chunkLoop, hnil, if_false]
          rw [if_neg hfull]
        rw [he]
        refine ⟨h.room, ?_, h.cksum.trans hsum, h.txLen, ?_⟩
        · rw [h.bytes, hunsent, List.append_assoc, List.take_append_drop]
        · intro hsmall
          have hall : chunk = rest.length := by
            simp only [chunk, tfSendbufLen] at hsmall ⊢
            omega
          have hz : (rest.drop chunk).length = 0 := by rw [List.length_drop]; omega
          obtain ⟨hw, hp⟩ := h.quiet (by
            rw [hz]
            change tx.txPos + chunk + 0 < tfSendbufLen
            omega)
          refine ⟨hw, hp.trans ?_⟩
          rw [hz]
          change tx.txPos + chunk + 0 = _
          omega

/-- The end of a frame: the rest of it is written and the lock is free again. -/
theorem sendFrameEnd_spec (tx : Transmitter) (hr : Room tx) :
    let tail := if 0 < tx.txLen then writeNum 2 (cksumEnd tx.txCksum).toNat else []
    (tfSendFrameEnd tx).2.flatten = unsent tx ++ tail ∧
      (tfSendFrameEnd tx).1.softLock = false ∧
      (tfSendFrameEnd tx).1.sendbuf.length = tfSendbufLen ∧
      (tx.txPos + 2 ≤ tfSendbufLen → (tfSendFrameEnd tx).2.length = 1) := by
  obtain ⟨hsize, hpos⟩ := hr
  by_cases hlen : 0 < tx.txLen
  · by_cases hfull : tfSendbufLen - tx.txPos < 2
    · simp only [tfSendFrameEnd, hlen, if_true, hfull, tfReleaseTx]
      refine ⟨?_, trivial, ?_, ?_⟩
      · rw [putAt_take _ _ (Nat.zero_le _)]
        simp [unsent]
      · rw [putAt_length] <;> simp [hsize, tfSendbufLen]
      · intro hroom
        omega
    · simp only [tfSendFrameEnd, hlen, if_true, hfull, if_false, tfReleaseTx]
      refine ⟨?_, trivial, ?_, fun _ => rfl⟩
      · rw [putAt_take _ _ (by omega)]
        simp [unsent]
      · rw [putAt_length] <;> simp only [hsize, writeNum_length]
        omega
  · simp only [tfSendFrameEnd, hlen, if_false, tfReleaseTx]
    exact ⟨by simp [unsent], trivial, hsize, fun _ => rfl⟩

/-! ### Whole frames -/

/-- A transmitter at rest: no frame is being composed. What the buffer and the
position were left at does not matter. -/
structure Idle (tx : Transmitter) : Prop where
  free : tx.softLock = false
  size : tx.sendbuf.length = tfSendbufLen

/-- The transmitter once the head is composed. -/
def headed (tx : Transmitter) (head : List UInt8) (len : UInt16) : Transmitter :=
  { tx with
    sendbuf := putAt tx.sendbuf 0 head, txPos := head.length, txLen := len.toNat, softLock := true }

theorem headed_room (hi : Idle tx) (id : UInt8) (len : UInt16) (type : UInt8) :
    Room (headed tx (frameHead id len type) len) := by
  constructor
  · change (putAt tx.sendbuf 0 (frameHead id len type)).length = tfSendbufLen
    rw [putAt_length] <;> simp [hi.size, frameHead_length, tfSendbufLen]
  · change (frameHead id len type).length < tfSendbufLen
    rw [frameHead_length]
    decide

theorem headed_unsent (tx : Transmitter) (head : List UInt8) (len : UInt16) :
    unsent (headed tx head len) = head := by
  have h := putAt_take tx.sendbuf head (Nat.zero_le _)
  simpa [unsent, headed] using h

/-- What one call writes: exactly one frame, in a single write if it fits the buffer. -/
structure OneFrame (frame : List UInt8) (writes : List (List UInt8)) : Prop where
  bytes : writes.flatten = frame
  single : frame.length ≤ tfSendbufLen → writes = [frame]

theorem frameBytes_length (id type : UInt8) (payload : List UInt8) :
    (frameBytes id type payload).length =
      7 + if payload.length = 0 then 0 else payload.length + 2 := by
  by_cases h : payload.length = 0
  · simp [frameBytes, frameHead_length, h]
  · simp [frameBytes, frameHead_length, h]

/-- Body and end after the head make one complete frame. -/
theorem body_spec (hi : Idle tx) (id type : UInt8) (payload : List UInt8)
    (hp : payload.length < 65536) :
    let len := UInt16.ofNat payload.length
    let tx1 := { headed tx (frameHead id len type) len with txCksum := cksumStart }
    let r := chunkLoop (payload.length + 1) tx1 payload
    OneFrame (frameBytes id type payload) (r.2 ++ (tfSendFrameEnd r.1).2) ∧
      Idle (tfSendFrameEnd r.1).1 := by
  intro len tx1 r
  have hlen : len.toNat = payload.length := by
    simp only [len, UInt16.toNat_ofNat']
    exact Nat.mod_eq_of_lt hp
  have hroom : Room tx1 := ⟨(headed_room hi id len type).1, (headed_room hi id len type).2⟩
  have hchunk : Chunked tx1 payload r := chunkLoop_spec _ tx1 payload hroom (by omega)
  obtain ⟨hbytes, hfree, hsize, hone⟩ := sendFrameEnd_spec r.1 hchunk.room
  have hunsent : unsent tx1 = frameHead id len type := headed_unsent tx _ len
  have htx : r.1.txLen = payload.length := hchunk.txLen.trans hlen
  have hpos : tx1.txPos = 7 := frameHead_length id len type
  have hflat : (r.2 ++ (tfSendFrameEnd r.1).2).flatten = frameBytes id type payload := by
    rw [List.flatten_append, hbytes, htx, ← List.append_assoc, hchunk.bytes, hunsent, hchunk.cksum]
    by_cases hz : payload.length = 0
    · simp [frameBytes, List.length_eq_zero_iff.mp hz, len]
    · have : 0 < payload.length := by omega
      simp [frameBytes, hz, this, len, cksum, tx1]
  refine ⟨⟨hflat, ?_⟩, hfree, hsize⟩
  intro hfit
  rw [frameBytes_length] at hfit
  have hsmall : tx1.txPos + payload.length < tfSendbufLen := by
    rw [hpos]
    simp only [tfSendbufLen] at hfit ⊢
    split at hfit <;> omega
  obtain ⟨hw, hp'⟩ := hchunk.quiet hsmall
  have hl : (tfSendFrameEnd r.1).2.length = 1 := by
    by_cases hz : payload.length = 0
    · simp [tfSendFrameEnd, htx, hz]
    · apply hone
      rw [hp', hpos]
      simp only [hz, if_false, tfSendbufLen] at hfit ⊢
      omega
  obtain ⟨w, hw'⟩ := List.length_eq_one_iff.mp hl
  rw [hw, List.nil_append, hw'] at hflat ⊢
  rw [← hflat]
  simp

/-- Adding a listener fills the first free slot of the table, or fails and changes
nothing. -/
theorem addIdListener_spec {tf : TinyFrame L T} (hb : Below tf.countIdLst 0 tf.idListeners)
    (msg : TfMsg) (hmsg : msg.userdata = none ∧ msg.userdata2 = none) (cb : L)
    (ftimeout : Option T) {timeout : Nat} (ht : 0 < timeout) :
    (Slots.insert ⟨msg.frameId, cb, ftimeout⟩ timeout (view tf.idListeners) = none ∧
      tfAddIdListener tf msg cb ftimeout timeout = (false, tf)) ∨
    ∃ slots count,
      Slots.insert ⟨msg.frameId, cb, ftimeout⟩ timeout (view tf.idListeners) = some (view slots) ∧
      Below count 0 slots ∧
      tfAddIdListener tf msg cb ftimeout timeout =
        (true, { tf with idListeners := slots, countIdLst := count }) := by
  let fill := fun lst : IdListener L T =>
    { lst with
      fn := some cb, fnTimeout := ftimeout, id := msg.frameId, userdata := msg.userdata,
      userdata2 := msg.userdata2, timeoutMax := timeout, timeout := timeout }
  have hview := fill_view fill (q := ⟨msg.frameId, cb, ftimeout⟩) (n := timeout)
    (fun _ => rfl) 0 tf.idListeners
  cases hf : fillSlot (fun lst => lst.fn.isNone) fill 0 tf.idListeners with
  | none =>
    rw [hf] at hview
    exact Or.inl ⟨hview.symm, by simp only [tfAddIdListener]; rw [hf]⟩
  | some r =>
    obtain ⟨j, slots⟩ := r
    rw [hf] at hview
    obtain ⟨_, hbelow⟩ := fill_below fill (fun _ _ => ⟨ht, hmsg⟩) hb hf
    exact Or.inr ⟨slots, _, hview.symm, hbelow, by simp only [tfAddIdListener]; rw [hf]⟩

/-- The transmitter when the body of frame `id` is about to be sent. -/
def opened (tx : Transmitter) (id type : UInt8) (len : UInt16) : Transmitter :=
  { headed tx (frameHead id len type) len with txCksum := cksumStart }

/-- The ID a frame goes out with. -/
def headId (tf : TinyFrame L T) (msg : TfMsg) : UInt8 :=
  if msg.isResponse then msg.frameId else composeId tf

/-- The instance with the head in its buffer and the lock taken. -/
def withHead (tf : TinyFrame L T) (msg : TfMsg) : TinyFrame L T :=
  { tf with
    nextId := if msg.isResponse then tf.nextId else tf.nextId + 1
    tx := headed tf.tx (frameHead (headId tf msg) msg.len msg.type) msg.len }

/-- A frame without a listener. -/
theorem begin_alone {tf : TinyFrame L T} (hi : Idle tf.tx) (msg : TfMsg) (ftimeout : Option T)
    (timeout : Nat) :
    tfSendFrameBegin tf msg none ftimeout timeout =
      (true, { withHead tf msg with tx := opened tf.tx (headId tf msg) msg.type msg.len },
        { msg with frameId := headId tf msg }) := by
  simp only [tfSendFrameBegin, tfClaimTx, hi.free, Bool.false_eq_true, if_false, tfComposeHead,
    withHead, headId]
  cases hr : msg.isResponse with
  | false | true => simp only [Bool.false_eq_true, if_false, if_true]; rfl

/-- A frame with a listener is begun just when the listener finds a slot; otherwise the
lock is given back. -/
theorem begin_listening {tf tf' : TinyFrame L T} (hi : Idle tf.tx) {msg : TfMsg} {l : L}
    {ftimeout : Option T} {timeout : Nat} {ok : Bool}
    (ha : tfAddIdListener (withHead tf msg) { msg with frameId := headId tf msg } l ftimeout
      timeout = (ok, tf')) :
    tfSendFrameBegin tf msg (some l) ftimeout timeout =
      (ok, { tf' with
          tx := if ok then { tf'.tx with txCksum := cksumStart } else tfReleaseTx tf'.tx },
        { msg with frameId := headId tf msg }) := by
  simp only [tfSendFrameBegin, tfClaimTx, hi.free, Bool.false_eq_true, if_false, tfComposeHead]
  simp only [withHead, headId] at ha ⊢
  cases hr : msg.isResponse with
  | false | true =>
    simp only [hr, Bool.false_eq_true, if_false, if_true] at ha ⊢
    split
    · rename_i hadd
      cases hadd.symm.trans ha
      rfl
    · rename_i hadd
      cases hadd.symm.trans ha
      rfl

theorem begin_plain {tf : TinyFrame L T} (hi : Idle tf.tx) {msg : TfMsg}
    (hr : msg.isResponse = false) (ftimeout : Option T) (timeout : Nat) :
    tfSendFrameBegin tf msg none ftimeout timeout =
      (true, { tf with
          nextId := tf.nextId + 1, tx := opened tf.tx (composeId tf) msg.type msg.len },
        { msg with frameId := composeId tf }) := by
  simpa [withHead, headId, hr] using begin_alone hi msg ftimeout timeout

/-- A frame with a listener: the head uses up an ID before the listener is known to
find a slot. -/
theorem begin_query {tf : TinyFrame L T} (hi : Idle tf.tx)
    (hb : Below tf.countIdLst 0 tf.idListeners) (msg : TfMsg) (hr : msg.isResponse = false)
    (hmsg : msg.userdata = none ∧ msg.userdata2 = none) (l : L) (ftimeout : Option T)
    {timeout : Nat} (ht : 0 < timeout) :
    (Slots.insert ⟨composeId tf, l, ftimeout⟩ timeout (view tf.idListeners) = none ∧
      ∃ tx, Idle tx ∧ tfSendFrameBegin tf msg (some l) ftimeout timeout =
        (false, { tf with nextId := tf.nextId + 1, tx := tx },
          { msg with frameId := composeId tf })) ∨
    ∃ slots count,
      Slots.insert ⟨composeId tf, l, ftimeout⟩ timeout (view tf.idListeners) = some (view slots) ∧
      Below count 0 slots ∧ tfSendFrameBegin tf msg (some l) ftimeout timeout =
        (true, { tf with
            nextId := tf.nextId + 1, tx := opened tf.tx (composeId tf) msg.type msg.len,
            idListeners := slots, countIdLst := count },
          { msg with frameId := composeId tf }) := by
  have hid : headId tf msg = composeId tf := by simp [headId, hr]
  have hroom := headed_room hi (headId tf msg) msg.len msg.type
  have hbelow1 : Below (withHead tf msg).countIdLst 0 (withHead tf msg).idListeners := hb
  rcases addIdListener_spec hbelow1 { msg with frameId := headId tf msg } hmsg l ftimeout ht with
    ⟨hn, ha⟩ | ⟨slots, count, hs, hbelow, ha⟩
  · have hbegin := begin_listening hi ha
    rw [hid] at hn hbegin
    refine Or.inl ⟨hn, tfReleaseTx (withHead tf msg).tx, ⟨rfl, hroom.size⟩, ?_⟩
    simpa [withHead, hr] using hbegin
  · have hbegin := begin_listening hi ha
    rw [hid] at hs hbegin
    refine Or.inr ⟨slots, count, hs, hbelow, ?_⟩
    simpa [withHead, hr, hid, opened] using hbegin

/-! ### A frame with any listener -/

/-- No ID listener slot is free. -/
def NoSlot (tf : TinyFrame L T) : Prop := ∀ lst ∈ tf.idListeners, lst.fn ≠ none

/-- Filling fails just when no slot is free. -/
theorem fillSlot_eq_none {α β : Type} (fn : α → Option β) (fill : α → α) (i : Nat)
    (slots : List α) :
    fillSlot (fun lst => (fn lst).isNone) fill i slots = none ↔ ∀ lst ∈ slots, fn lst ≠ none := by
  induction slots generalizing i with
  | nil => simp [fillSlot]
  | cons lst rest ih =>
    cases hf : fn lst with
    | none => simp [fillSlot, hf]
    | some f => simp [fillSlot, hf, ih]

theorem addIdListener_full {tf : TinyFrame L T} (h : NoSlot tf) (msg : TfMsg) (cb : L)
    (ftimeout : Option T) (timeout : Nat) :
    tfAddIdListener tf msg cb ftimeout timeout = (false, tf) := by
  simp only [tfAddIdListener]
  rw [(fillSlot_eq_none _ _ _ _).mpr h]

theorem addIdListener_free {tf : TinyFrame L T} (h : ¬ NoSlot tf) (msg : TfMsg) (cb : L)
    (ftimeout : Option T) (timeout : Nat) :
    ∃ slots count, tfAddIdListener tf msg cb ftimeout timeout =
      (true, { tf with idListeners := slots, countIdLst := count }) := by
  simp only [tfAddIdListener]
  split
  · rename_i hnone
    exact absurd ((fillSlot_eq_none _ _ _ _).mp hnone) h
  · exact ⟨_, _, rfl⟩

section
variable {tf : TinyFrame L T} {listener : Option L}

/-- A listener that finds no slot ends the frame before anything is written. -/
theorem begin_refused (hi : Idle tf.tx) (h : NoSlot tf) (msg : TfMsg) (l : L)
    (ftimeout : Option T) (timeout : Nat) :
    ∃ nextId tx, Idle tx ∧ tfSendFrameBegin tf msg (some l) ftimeout timeout =
      (false, { tf with nextId := nextId, tx := tx }, { msg with frameId := headId tf msg }) := by
  have hroom := headed_room hi (headId tf msg) msg.len msg.type
  have ha := addIdListener_full (show NoSlot (withHead tf msg) from h)
    { msg with frameId := headId tf msg } l ftimeout timeout
  exact ⟨_, tfReleaseTx (withHead tf msg).tx, ⟨rfl, hroom.size⟩, begin_listening hi ha⟩

/-- Otherwise the frame is open. -/
theorem begin_accepted (hi : Idle tf.tx) (h : listener ≠ none → ¬ NoSlot tf) (msg : TfMsg)
    (ftimeout : Option T) (timeout : Nat) :
    ∃ nextId slots count, tfSendFrameBegin tf msg listener ftimeout timeout =
      (true, { tf with
          nextId := nextId, tx := opened tf.tx (headId tf msg) msg.type msg.len,
          idListeners := slots, countIdLst := count },
        { msg with frameId := headId tf msg }) := by
  cases listener with
  | none => exact ⟨_, _, _, begin_alone hi msg ftimeout timeout⟩
  | some l =>
    obtain ⟨slots, count, ha⟩ := addIdListener_free
      (show ¬ NoSlot (withHead tf msg) from h (by simp)) { msg with frameId := headId tf msg } l
      ftimeout timeout
    exact ⟨_, slots, count, begin_listening hi ha⟩

end

/-! ### The body and the end of a frame -/

/-- The body goes out and the lock is released, whoever opened the frame. -/
theorem finish_spec (hi : Idle tx) (id type : UInt8) {bs : List UInt8} {len : UInt16}
    (hlen : len.toNat ≤ bs.length) :
    let chunked := tfSendFrameChunk (opened tx id type len) bs len.toNat
    OneFrame (frameBytes id type (bs.take len.toNat)) (chunked.2 ++ (tfSendFrameEnd chunked.1).2) ∧
      Idle (tfSendFrameEnd chunked.1).1 := by
  have hl : (bs.take len.toNat).length = len.toNat := List.length_take_of_le hlen
  have h := body_spec hi id type (bs.take len.toNat) (by rw [hl]; exact len.toNat_lt)
  rw [hl] at h
  simpa [tfSendFrameChunk, opened] using h

/-- A send without a listener is never refused while the transmitter is idle. -/
theorem sendSimple_spec {tf : TinyFrame L T} (hi : Idle tf.tx) (type : UInt8) (bs : List UInt8)
    (len : UInt16) (hlen : len.toNat ≤ bs.length) :
    ∃ tx writes, Idle tx ∧
      OneFrame (frameBytes (composeId tf) type (bs.take len.toNat)) writes ∧
      tfSendSimple tf type (some bs) len =
        (true, { tf with nextId := tf.nextId + 1, tx := tx }, writes) := by
  obtain ⟨hone, hidle⟩ := finish_spec hi (composeId tf) type hlen
  refine ⟨_, _, hidle, hone, ?_⟩
  simp only [tfSendSimple, tfSend, tfSendFrame]
  rw [begin_plain hi rfl]
  simp

/-- A query is refused, having written nothing, exactly when no slot is free. Either
way it uses up an ID. -/
theorem querySimple_spec {tf : TinyFrame L T} (hi : Idle tf.tx)
    (hb : Below tf.countIdLst 0 tf.idListeners) (type : UInt8) (bs : List UInt8) (len : UInt16)
    (hlen : len.toNat ≤ bs.length) (l : L) (ftimeout : Option T) (timeout : Nat)
    (ht : 0 < timeout) :
    (Slots.insert ⟨composeId tf, l, ftimeout⟩ timeout (view tf.idListeners) = none ∧
      ∃ tx, Idle tx ∧ tfQuerySimple tf type (some bs) len (some l) ftimeout timeout =
        (false, { tf with nextId := tf.nextId + 1, tx := tx }, [])) ∨
    ∃ slots count tx writes,
      Slots.insert ⟨composeId tf, l, ftimeout⟩ timeout (view tf.idListeners) = some (view slots) ∧
      Below count 0 slots ∧ Idle tx ∧
      OneFrame (frameBytes (composeId tf) type (bs.take len.toNat)) writes ∧
      tfQuerySimple tf type (some bs) len (some l) ftimeout timeout =
        (true, { tf with
          nextId := tf.nextId + 1, tx := tx, idListeners := slots, countIdLst := count }, writes) := by
  let msg : TfMsg := { tfClearMsg with type := type, data := some bs, len := len }
  rcases begin_query hi hb msg rfl ⟨rfl, rfl⟩ l ftimeout ht with
    ⟨hn, tx, hidle, hbegin⟩ | ⟨slots, count, hs, hbelow, hbegin⟩
  · refine Or.inl ⟨hn, tx, hidle, ?_⟩
    simp only [tfQuerySimple, tfSendFrame]
    rw [hbegin]
  · obtain ⟨hone, hidle⟩ := finish_spec hi (composeId tf) type hlen
    refine Or.inr ⟨slots, count, _, _, hs, hbelow, hidle, hone, ?_⟩
    simp only [tfQuerySimple, tfSendFrame]
    rw [hbegin]
    simp [msg]

end UpAndDownESP.Proofs.Sending
