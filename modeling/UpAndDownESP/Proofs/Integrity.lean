import UpAndDownESP.Proofs.Checksum
import UpAndDownESP.Proofs.Decoding

namespace UpAndDownESP.Proofs.Integrity
open BigEndian Checksum FrameFormat Decoding Proofs.Stream Spec

/-! ### The checksum of a difference -/

/-- Bytes as they arrive when the set bits of `err` are flipped on the way. -/
def damage (bs err : List UInt8) : List UInt8 := List.zipWith (· ^^^ ·) bs err

theorem lineBits_damage {bs err : List UInt8} (h : bs.length = err.length) :
    lineBits (damage bs err) = List.zipWith xor (lineBits bs) (lineBits err) := by
  induction bs generalizing err with
  | nil => rfl
  | cons b bs ih =>
    cases err with
    | nil => cases h
    | cons e err =>
      have hrest : lineBits (damage bs err) = _ := ih (Nat.succ.inj h)
      simp only [lineBits, damage, List.zipWith_cons_cons, List.flatMap_cons] at hrest ⊢
      rw [hrest, bits_xor, List.zipWith_append (by simp)]

theorem cksum_damage {bs err : List UInt8} (h : bs.length = err.length) :
    cksum (damage bs err) = cksum bs ^^^ cksum err := by
  rw [cksum_feed, cksum_feed, cksum_feed]
  have hlen : (lineBits bs).length = (lineBits err).length := by
    rw [lineBits_length, lineBits_length, h]
  have hsum := register.feed_add 0 0 (lineBits bs) (lineBits err) hlen
  rw [← lineBits_damage h, add_zero] at hsum
  exact hsum

theorem word_toNat (hi lo : UInt8) : (word hi lo).toNat = hi.toNat * 256 + lo.toNat := by
  have hhi := hi.toNat_lt
  have hlo := lo.toNat_lt
  simp only [word, toNat_collect16, collect_eq, UInt16.toNat_zero]
  omega

/-- Two bytes as a number. -/
theorem word_eq (hi lo : UInt8) : word hi lo = hi.toUInt16 <<< 8 ^^^ lo.toUInt16 := by
  have hlo := lo.toNat_lt
  have hval := word_toNat hi lo
  have hupper : word hi lo >>> 8 = hi.toUInt16 := by
    apply UInt16.toNat_inj.mp
    simp [hval, Nat.shiftRight_eq_div_pow]
    omega
  have hlower : word hi lo &&& 0xff = lo.toUInt16 := by
    apply UInt16.toNat_inj.mp
    rw [low_byte, hval, UInt8.toNat_toUInt16]
    omega
  rw [← hupper, ← hlower, halves]

theorem word_xor (a b c d : UInt8) : word (a ^^^ c) (b ^^^ d) = word a b ^^^ word c d := by
  simp only [word_eq, UInt8.toUInt16_xor, UInt16.shiftLeft_xor]
  ac_rfl

theorem word_writeNum (x : UInt16) : ∃ hi lo, writeNum 2 x.toNat = [hi, lo] ∧ word hi lo = x := by
  obtain ⟨hi, lo, hl⟩ := writeNum_two x.toNat
  exact ⟨hi, lo, hl, collect16_writeNum 0 x hi lo hl⟩

/-- Fed after its bytes, the low byte first, a matching checksum clears the register. -/
theorem clears_iff (bs : List UInt8) (hi lo : UInt8) :
    feed 0 (lineBits bs ++ (bits lo ++ bits hi)) = 0 ↔ cksum bs = word hi lo := by
  have hshift : feed 0 (lineBits bs ++ (bits lo ++ bits hi)) =
      crcBit^[16] (cksum bs ^^^ word hi lo) := by
    rw [feed_append, feed_append, ← cksumAdd_feed, ← cksumAdd_feed, cksumAdd_shifts,
      cksumAdd_shifts, ← shift_upper hi, ← crcBit_iterate_xor, ← Function.iterate_add_apply,
      word_eq, UInt16.xor_assoc, UInt16.xor_comm lo.toUInt16, ← cksum_feed]
  rw [hshift]
  constructor
  · intro hz
    exact UInt16.xor_eq_zero_iff.mp ((register.shift_eq_zero 16 _).mp hz)
  · intro he
    rw [he, UInt16.xor_self]
    exact register.zero_stays 16

/-! ### Errors the checksum sees -/

/-- How many bits an error flips. -/
def flipped (err : List UInt8) : Nat := (lineBits err).count true

/-- `n` more shifts of `x` do not come by the tap. -/
def avoidsTap : Nat → UInt16 → Bool
  | 0, _ => true
  | n + 1, x => crcBit x != 1 && avoidsTap n (crcBit x)

theorem avoidsTap_spec {n : Nat} {x : UInt16} (h : avoidsTap n x = true) {k : Nat} (hk : 0 < k)
    (hn : k ≤ n) : crcBit^[k] x ≠ 1 := by
  induction n generalizing x k with
  | zero => omega
  | succ n ih =>
    simp only [avoidsTap, Bool.and_eq_true, bne_iff_ne, ne_eq] at h
    cases k with
    | zero => omega
    | succ k =>
      rw [Function.iterate_succ_apply]
      cases k with
      | zero => exact h.1
      | succ k => exact ih h.2 (Nat.succ_pos k) (by omega)

/-- The period of the polynomial is longer than the longest payload with its checksum. -/
theorem tap_period : ∀ k, 0 < k → k < 1040 → register.shift^[k] register.tap ≠ register.tap := by
  have h : avoidsTap 1039 1 = true := by decide +kernel
  intro k hk hlt
  exact avoidsTap_spec h hk (by omega)

/-- The same bits with the checksum's bytes in the order the register takes them. -/
theorem flipped_swap (err : List UInt8) (hi lo : UInt8) :
    (lineBits err ++ (bits lo ++ bits hi)).count true = flipped (err ++ [hi, lo]) := by
  have hpair : lineBits [hi, lo] = bits hi ++ bits lo := by simp [lineBits]
  rw [flipped, lineBits_append, hpair]
  simp only [List.count_append]
  omega

/-- One to three flipped bits of a string and its checksum do not go together. -/
theorem few_flips {err : List UInt8} {hi lo : UInt8} (hfit : err.length ≤ tfMaxPayloadRx)
    (hpos : 0 < flipped (err ++ [hi, lo])) (hfew : flipped (err ++ [hi, lo]) ≤ 3) :
    cksum err ≠ word hi lo := by
  intro he
  have hclear := (clears_iff err hi lo).mpr he
  have hlen : (lineBits err ++ (bits lo ++ bits hi)).length ≤ 1040 := by
    simp only [List.length_append, lineBits_length, bits_length]
    simp only [tfMaxPayloadRx] at hfit
    omega
  rcases register.min_weight parity parity_shift (by decide) tap_period hlen hclear with hw | hw
  · rw [flipped_swap] at hw
    omega
  · rw [flipped_swap] at hw
    omega

/-! ### Bursts -/

theorem byte_of_bits : ∀ a b c d e f g h : Bool,
    bits (UInt8.ofNat (a.toNat + 2 * b.toNat + 4 * c.toNat + 8 * d.toNat + 16 * e.toNat +
      32 * f.toNat + 64 * g.toNat + 128 * h.toNat)) = [a, b, c, d, e, f, g, h] := by
  decide +kernel

/-- Any eight bits are those of a byte. -/
theorem bits_surjective (bs : List Bool) (h : bs.length = 8) : ∃ b, bits b = bs := by
  match bs, h with
  | [a, b, c, d, e, f, g, h], _ => exact ⟨_, byte_of_bits a b c d e f g h⟩

theorem word_eq_zero {hi lo : UInt8} (h : word hi lo = 0) : hi = 0 ∧ lo = 0 := by
  have hval := word_toNat hi lo
  rw [h, UInt16.toNat_zero] at hval
  constructor
  · apply UInt8.toNat_inj.mp
    rw [UInt8.toNat_zero]
    omega
  · apply UInt8.toNat_inj.mp
    rw [UInt8.toNat_zero]
    omega

/-- Sixteen bits that clear the register are zeros. -/
theorem sixteen_clear (bs : List Bool) (hlen : bs.length = 16) (hz : register.feed 0 bs = 0) :
    true ∉ bs := by
  obtain ⟨lo, hlo⟩ := bits_surjective (bs.take 8) (by simp [hlen])
  obtain ⟨hi, hhi⟩ := bits_surjective (bs.drop 8) (by simp [hlen])
  rw [← List.take_append_drop 8 bs, ← hlo, ← hhi] at hz ⊢
  have hword : cksum [] = word hi lo := (clears_iff [] hi lo).mp hz
  obtain ⟨rfl, rfl⟩ := word_eq_zero hword.symm
  decide

/-- A burst of at most sixteen bits stands in a string, in the order of the line. -/
def Burst (err : List UInt8) : Prop :=
  ∃ before after burst, burst.length ≤ 16 ∧ true ∈ burst ∧
    lineBits err = List.replicate before false ++ burst ++ List.replicate after false

/-- The checksum of a burst is not zero. -/
theorem burst_cksum {err : List UInt8} (h : Burst err) : cksum err ≠ 0 := by
  obtain ⟨before, after, burst, hlen, hset, hbits⟩ := h
  intro hz
  rw [cksum_feed, hbits] at hz
  exact register.burst sixteen_clear hlen hz hset

/-! ### Damaged frames -/

/-- The messages that the peer, idle at first, receives of a string of bytes. -/
def hears (bs : List UInt8) : List Message :=
  (Runs.run peerStep (listening (tfInitStatic Unit Empty .slave).parser)
    [.accept bs]).received.map said

theorem segments_bytes (bs : List UInt8) : segments 0 (bs.map some) = [bs] := by
  induction bs with
  | nil => rfl
  | cons c bs ih =>
    have hlt : 0 < tfParserTimeoutTicks := by decide
    simp only [List.map_cons, segments, ih, List.headD_cons, List.tail_cons, if_pos hlt]

theorem hears_decode (bs : List UInt8) : hears bs = decode bs := by
  rw [hears, peer_decodes rfl]
  simp [inputs, segments_bytes]

/-- What follows the head of a frame with a payload. -/
def body (payload : List UInt8) : List UInt8 := payload ++ writeNum 2 (cksum payload).toNat

theorem frame_body (id type : UInt8) {payload : List UInt8} (h : payload ≠ []) :
    frameBytes id type payload =
      frameHead id (UInt16.ofNat payload.length) type ++ body payload := by
  rw [frameBytes, if_neg (by simpa using h)]
  rfl

/-- The head after its SOF byte: four bytes and their checksum. -/
theorem frameHead_bytes (id : UInt8) (len : UInt16) (type : UInt8) :
    ∃ l₁ l₀ k₁ k₀, frameHead id len type = [tfSofByte, id, l₁, l₀, type, k₁, k₀] ∧
      word l₁ l₀ = len ∧ cksum [tfSofByte, id, l₁, l₀, type] = word k₁ k₀ := by
  obtain ⟨l₁, l₀, hl, hlen⟩ := word_writeNum len
  obtain ⟨k₁, k₀, hk, hsum⟩ := word_writeNum (cksum [tfSofByte, id, l₁, l₀, type])
  refine ⟨l₁, l₀, k₁, k₀, ?_, hlen, hsum.symm⟩
  simp only [frameHead, writeNum_one, hl, List.cons_append, List.nil_append, hk]

/-- A sound head announces a payload: what comes in its place is handed up if it fits and
the checksum after it matches. -/
theorem decode_body (id type : UInt8) {bs : List UInt8} (hne : bs ≠ []) (hlong : bs.length < 65536)
    (hi lo : UInt8) (after : List UInt8) :
    decode (frameHead id (UInt16.ofNat bs.length) type ++ (bs ++ hi :: lo :: after)) =
      (if bs.length ≤ tfMaxPayloadRx ∧ cksum bs = word hi lo then [(id, type, bs)] else []) ++
        decode after := by
  obtain ⟨l₁, l₀, k₁, k₀, hhead, hlen, hsum⟩ := frameHead_bytes id (UInt16.ofNat bs.length) type
  have hnat : (UInt16.ofNat bs.length).toNat = bs.length := by
    rw [UInt16.toNat_ofNat']
    exact Nat.mod_eq_of_lt hlong
  have hz : word l₁ l₀ ≠ 0 := by
    intro h0
    rw [hlen] at h0
    rw [h0] at hnat
    exact hne (List.length_eq_zero_iff.mp hnat.symm)
  have hread : reader.read (frameHead id (UInt16.ofNat bs.length) type ++
      (bs ++ hi :: lo :: after)) =
      some (if bs.length ≤ tfMaxPayloadRx ∧ cksum bs = word hi lo then some (id, type, bs)
        else none, after) := by
    rw [hhead]
    change readFrame (id :: l₁ :: l₀ :: type :: k₁ :: k₀ :: (bs ++ hi :: lo :: after)) = _
    rw [readFrame_head, if_neg (not_not.mpr hsum), if_neg hz, hlen, hnat, readBody_append]
  rw [decode, reader.decode_some hread]
  split
  · rfl
  · rfl

theorem fits_word {bs : List UInt8} (h : bs.length ≤ tfMaxPayloadRx) : bs.length < 65536 :=
  Nat.lt_of_le_of_lt h (by decide)

/-- A frame that fits is read back. -/
theorem decode_frame (id type : UInt8) {payload : List UInt8}
    (hfit : payload.length ≤ tfMaxPayloadRx) (after : List UInt8) :
    decode (frameBytes id type payload ++ after) = (id, type, payload) :: decode after := by
  by_cases hne : payload = []
  · subst hne
    obtain ⟨l₁, l₀, k₁, k₀, hhead, hlen, hsum⟩ := frameHead_bytes id (UInt16.ofNat 0) type
    have hread : readItem (frameBytes id type [] ++ after) = some (some (id, type, []), after) := by
      have hshape : frameBytes id type [] ++ after =
          tfSofByte :: id :: l₁ :: l₀ :: type :: k₁ :: k₀ :: after := by
        rw [frameBytes, List.length_nil, if_pos rfl, hhead]
        rfl
      have hz : word l₁ l₀ = 0 := hlen
      rw [hshape, readItem_cons, if_pos rfl, readFrame_head, if_neg (not_not.mpr hsum), if_pos hz]
    rw [decode, reader.decode_some ((reader_read _).trans hread)]
    rfl
  · obtain ⟨hi, lo, hc, hsum⟩ := word_writeNum (cksum payload)
    have hshape : frameBytes id type payload ++ after =
        frameHead id (UInt16.ofNat payload.length) type ++ (payload ++ hi :: lo :: after) := by
      rw [frame_body id type hne, body, hc]
      simp
    rw [hshape, decode_body id type hne (fits_word hfit), if_pos ⟨hfit, hsum.symm⟩]
    rfl

theorem readItem_message {bs rest : List UInt8} {m : Message}
    (h : readItem bs = some (some m, rest)) : 7 ≤ bs.length := by
  cases bs with
  | nil => cases h
  | cons c bs =>
    rw [readItem_cons] at h
    split at h
    · obtain ⟨id, l₁, l₀, type, k₁, k₀, body, rfl⟩ := readFrame_some h
      simp
    · cases h

/-- Less than a head says nothing. -/
theorem decode_short (bs : List UInt8) (h : bs.length < 7) : decode bs = [] := by
  unfold decode
  induction bs using reader.induct with
  | cut bs hr => exact reader.decode_none hr
  | item bs v rest hr ih =>
    have hshort := reader.shorter hr
    rw [reader.decode_some hr, ih (by omega)]
    cases v with
    | none => rfl
    | some m =>
      have := readItem_message hr
      omega

/-- A frame damaged in its payload or the checksum of that is handed up exactly when the
damage has a checksum of its own; the parser is in step with the line again after it. -/
theorem damaged_frame (id type : UInt8) {payload err : List UInt8} (hne : payload ≠ [])
    (hfit : payload.length ≤ tfMaxPayloadRx) (hi lo : UInt8) (after : List UInt8)
    (herr : err.length = payload.length) :
    hears (frameHead id (UInt16.ofNat payload.length) type ++
        (damage (body payload) (err ++ [hi, lo]) ++ after)) =
      (if cksum err = word hi lo then [(id, type, damage payload err)] else []) ++ hears after := by
  obtain ⟨c₁, c₀, hc, hsum⟩ := word_writeNum (cksum payload)
  have hlen : (damage payload err).length = payload.length := by simp [damage, herr]
  have hbody : damage (body payload) (err ++ [hi, lo]) ++ after =
      damage payload err ++ (c₁ ^^^ hi) :: (c₀ ^^^ lo) :: after := by
    rw [body, hc, damage, List.zipWith_append herr.symm]
    simp [damage]
  have hgood : cksum (damage payload err) = word (c₁ ^^^ hi) (c₀ ^^^ lo) ↔
      cksum err = word hi lo := by
    rw [cksum_damage herr.symm, word_xor, hsum]
    constructor
    · exact UInt16.xor_right_inj _ |>.mp
    · exact congrArg (cksum payload ^^^ ·)
  have hne' : damage payload err ≠ [] := by
    intro h
    rw [h] at hlen
    exact hne (List.length_eq_zero_iff.mp hlen.symm)
  have hfit' : (damage payload err).length ≤ tfMaxPayloadRx := by
    rw [hlen]
    exact hfit
  rw [hears_decode, hears_decode, hbody, ← hlen, decode_body id type hne' (fits_word hfit')]
  simp only [hgood, hfit', true_and]

/-- A head damaged after its SOF byte is dropped exactly when the damage has no checksum
of its own: what follows is then read afresh. -/
theorem damaged_head (id : UInt8) (len : UInt16) (type : UInt8) {err : List UInt8} {hi lo : UInt8}
    (herr : err.length = 4) (hsum : cksum (0 :: err) ≠ word hi lo) (after : List UInt8) :
    hears (damage (frameHead id len type) (0 :: err ++ [hi, lo]) ++ after) = hears after := by
  obtain ⟨l₁, l₀, k₁, k₀, hhead, -, hck⟩ := frameHead_bytes id len type
  match err, herr with
  | [a, b, c, d], _ =>
    have hbad : cksum [tfSofByte, id ^^^ a, l₁ ^^^ b, l₀ ^^^ c, type ^^^ d] ≠
        word (k₁ ^^^ hi) (k₀ ^^^ lo) := by
      have hxor : cksum (damage [tfSofByte, id, l₁, l₀, type] [0, a, b, c, d]) = _ :=
        cksum_damage rfl
      rw [hck] at hxor
      rw [word_xor]
      change cksum (damage [tfSofByte, id, l₁, l₀, type] [0, a, b, c, d]) ≠ _
      rw [hxor]
      intro he
      exact hsum ((UInt16.xor_right_inj _).mp he)
    rw [hears_decode, hears_decode, hhead]
    change decode (tfSofByte :: (id ^^^ a) :: (l₁ ^^^ b) :: (l₀ ^^^ c) :: (type ^^^ d) ::
      (k₁ ^^^ hi) :: (k₀ ^^^ lo) :: after) = decode after
    have hread : readItem (tfSofByte :: (id ^^^ a) :: (l₁ ^^^ b) :: (l₀ ^^^ c) :: (type ^^^ d) ::
        (k₁ ^^^ hi) :: (k₀ ^^^ lo) :: after) = some (none, after) := by
      rw [readItem_cons, if_pos rfl, readFrame_head, if_pos hbad]
    rw [decode, reader.decode_some ((reader_read _).trans hread)]
    rfl

/-- Any byte string of a length is its first bytes and its last two. -/
theorem split_last_two {err : List UInt8} {n : Nat} (h : err.length = n + 2) :
    ∃ first hi lo, err = first ++ [hi, lo] ∧ first.length = n := by
  have hd : (err.drop n).length = 2 := by simp [h]
  match hlast : err.drop n, hd with
  | [hi, lo], _ =>
    refine ⟨err.take n, hi, lo, ?_, by simp [h]⟩
    rw [← hlast, List.take_append_drop]

/-- No one to three flipped bits within a frame's payload and its checksum, or within
its head after the SOF byte, get it accepted, and they cost no other message. -/
theorem few_flips_rejected (id type : UInt8) (payload err after : List UInt8)
    (hfit : payload.length ≤ tfMaxPayloadRx) (hpos : 0 < flipped err) (hfew : flipped err ≤ 3) :
    (payload ≠ [] → err.length = payload.length + 2 →
      hears (frameHead id (UInt16.ofNat payload.length) type ++
        (damage (body payload) err ++ after)) = hears after) ∧
    (err.length = 6 →
      hears (damage (frameHead id (UInt16.ofNat payload.length) type) (0 :: err) ++ after) =
        hears after) := by
  constructor
  · intro hne hlen
    obtain ⟨first, hi, lo, rfl, hfirst⟩ := split_last_two hlen
    have hsum := few_flips (by rw [hfirst]; exact hfit) hpos hfew
    rw [damaged_frame id type hne hfit hi lo after hfirst, if_neg hsum]
    rfl
  · intro hlen
    obtain ⟨first, hi, lo, rfl, hfirst⟩ := split_last_two (n := 4) hlen
    have hzero : flipped (0 :: first ++ [hi, lo]) = flipped (first ++ [hi, lo]) := by
      simp only [flipped, lineBits, List.cons_append, List.flatMap_cons, List.count_append]
      have hnone : (bits 0).count true = 0 := by decide
      rw [hnone, Nat.zero_add]
    refine damaged_head id _ type hfirst (few_flips ?_ ?_ ?_) after
    · simp [hfirst, tfMaxPayloadRx]
    · rw [hzero]
      exact hpos
    · rw [hzero]
      exact hfew

theorem three_flips_rejected :
    hears (frameHead 3 2 0x22 ++
        (damage (body [0x41, 0x42]) [0x01, 0x80, 0x00, 0x10] ++ frameBytes 4 0x22 [7])) =
      hears (frameBytes 4 0x22 [7]) :=
  (few_flips_rejected 3 0x22 [0x41, 0x42] [0x01, 0x80, 0x00, 0x10] (frameBytes 4 0x22 [7])
    (by decide) (by decide) (by decide)).1 (by decide) rfl

theorem cksum_zeros {bs : List UInt8} (h : ∀ b ∈ bs, b = 0) : cksum bs = 0 := by
  have hzero : cksumAdd cksumStart 0 = cksumStart := by decide
  have hfold : bs.foldl cksumAdd cksumStart = cksumStart := by
    induction bs with
    | nil => rfl
    | cons b bs ih =>
      rw [List.foldl_cons, h b (by simp), hzero]
      exact ih fun x hx => h x (by simp [hx])
  exact hfold

/-- A burst of at most sixteen bits that does not run from the payload into its checksum
gets no frame accepted. -/
theorem burst_rejected (id type : UInt8) (payload err after : List UInt8) (hne : payload ≠ [])
    (hfit : payload.length ≤ tfMaxPayloadRx) (hlen : err.length = payload.length + 2)
    (hburst : Burst err)
    (hside : err.drop payload.length = [0, 0] ∨ ∀ b ∈ err.take payload.length, b = 0) :
    hears (frameHead id (UInt16.ofNat payload.length) type ++
      (damage (body payload) err ++ after)) = hears after := by
  obtain ⟨first, hi, lo, rfl, hfirst⟩ := split_last_two hlen
  rw [← hfirst, List.drop_left, List.take_left] at hside
  have hsum : cksum first ≠ word hi lo := by
    intro he
    have hboth : cksum first = 0 ∧ hi = 0 ∧ lo = 0 := by
      rcases hside with hlast | hzero
      · obtain ⟨rfl, hlo⟩ := List.cons.inj hlast
        obtain ⟨rfl, -⟩ := List.cons.inj hlo
        exact ⟨he, rfl, rfl⟩
      · have hz := cksum_zeros hzero
        exact ⟨hz, word_eq_zero (he.symm.trans hz)⟩
    obtain ⟨hz, rfl, rfl⟩ := hboth
    apply burst_cksum hburst
    change (first ++ [0, 0]).foldl cksumAdd cksumStart = 0
    rw [List.foldl_append, show first.foldl cksumAdd cksumStart = 0 from hz]
    decide
  rw [damaged_frame id type hne hfit hi lo after hfirst, if_neg hsum]
  rfl

/-- Nine bits in a row, over the border of two bytes. -/
theorem nine_bits_rejected :
    hears (frameHead 3 2 0x22 ++
        (damage (body [0x41, 0x42]) [0xF8, 0x0F, 0x00, 0x00] ++ frameBytes 4 0x22 [7])) =
      hears (frameBytes 4 0x22 [7]) :=
  burst_rejected 3 0x22 [0x41, 0x42] [0xF8, 0x0F, 0x00, 0x00] (frameBytes 4 0x22 [7]) (by decide)
    (by decide) rfl ⟨3, 20, List.replicate 9 true, by decide, by decide, by decide⟩ (Or.inl rfl)

/-- The last bit of a payload flipped together with three of its checksum: a burst of ten
bits on the line, which sends the checksum's high byte first. -/
def straddle (n : Nat) : List UInt8 := List.replicate n 0 ++ [0x80, 0xA0, 0x01]

theorem lineBits_zeros (n : Nat) :
    lineBits (List.replicate n 0) = List.replicate (8 * n) false := by
  induction n with
  | zero => rfl
  | succ n ih =>
    have hzero : bits 0 = List.replicate 8 false := by decide
    rw [List.replicate_succ, lineBits, List.flatMap_cons, hzero, ← lineBits, ih,
      List.replicate_append_replicate, Nat.mul_succ, Nat.add_comm]

theorem straddle_burst (n : Nat) : Burst (straddle n) ∧ flipped (straddle n) = 4 := by
  have hbits : lineBits (straddle n) =
      List.replicate (8 * n + 7) false ++
        [true, false, false, false, false, false, true, false, true, true] ++
          List.replicate 7 false := by
    have hlast : lineBits [0x80, 0xA0, 0x01] = List.replicate 7 false ++
        ([true, false, false, false, false, false, true, false, true, true] ++
          List.replicate 7 false) := by decide
    rw [straddle, lineBits_append, lineBits_zeros, hlast, ← List.append_assoc,
      List.replicate_append_replicate, List.append_assoc]
  refine ⟨⟨_, _, _, by decide, by decide, hbits⟩, ?_⟩
  rw [flipped, hbits]
  simp [List.count_replicate]

/-- Bursts from a payload into its checksum can get a frame accepted with a payload it
was not sent with: every frame has one of ten bits. -/
theorem straddling_burst_accepted (id type : UInt8) (payload after : List UInt8)
    (hne : payload ≠ []) (hfit : payload.length ≤ tfMaxPayloadRx) :
    ∃ err payload', err.length = payload.length + 2 ∧ Burst err ∧ flipped err = 4 ∧
      payload' ≠ payload ∧
      hears (frameHead id (UInt16.ofNat payload.length) type ++
        (damage (body payload) err ++ after)) = (id, type, payload') :: hears after := by
  obtain ⟨init, c, rfl⟩ := (List.eq_nil_or_concat' payload).resolve_left hne
  have hpos : (init ++ [c]).length = init.length + 1 := by simp
  obtain ⟨hburst, hfour⟩ := straddle_burst init.length
  have hsplit : straddle init.length =
      (List.replicate init.length 0 ++ [0x80]) ++ [0xA0, 0x01] := by simp [straddle]
  have hsum : cksum (List.replicate init.length 0 ++ [0x80]) = word 0xA0 0x01 := by
    have hzero : (List.replicate init.length (0 : UInt8)).foldl cksumAdd cksumStart = 0 :=
      cksum_zeros fun b hb => List.eq_of_mem_replicate hb
    rw [cksum, List.foldl_append, hzero]
    decide
  refine ⟨straddle init.length, damage (init ++ [c]) (List.replicate init.length 0 ++ [0x80]),
    ?_, hburst, hfour, ?_, ?_⟩
  · simp [straddle]
  · rw [damage, List.zipWith_append (by simp)]
    intro he
    have hlast := List.append_inj_right' he rfl
    have hxor : c ^^^ 0x80 = c := (List.cons.inj hlast).1
    have hbit := (UInt8.xor_right_inj c (a := 0x80) (b := 0)).mp (hxor.trans UInt8.xor_zero.symm)
    exact absurd hbit (by decide)
  · rw [hsplit, damaged_frame id type hne hfit 0xA0 0x01 after (by simp), if_pos hsum]
    rfl

theorem one_byte_straddled :
    ∃ err payload', err.length = 3 ∧ Burst err ∧ flipped err = 4 ∧ payload' ≠ [7] ∧
      hears (frameHead 3 1 0x22 ++ (damage (body [7]) err ++ [])) =
        (3, 0x22, payload') :: hears [] :=
  straddling_burst_accepted 3 0x22 [7] [] (by decide) (by decide)

end UpAndDownESP.Proofs.Integrity
