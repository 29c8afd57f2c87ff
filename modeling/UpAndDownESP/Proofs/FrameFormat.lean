import UpAndDownESP.Lib.Mealy
import UpAndDownESP.Lib.Runs
import UpAndDownESP.Proofs.Receiving
import UpAndDownESP.TinyFrame.Compose

namespace UpAndDownESP.Proofs.FrameFormat
open BigEndian Receiving

/-! ### The parser without its clock -/

/-- The parser as the next byte meets it when there is no timeout. -/
def fresh (p : Parser) : Parser := { p with parserTimeoutTicks := 0 }

def takeByte (p : Parser) (c : UInt8) : Parser × Option TfMsg := parseByte (fresh p) c

theorem writeNum_one (x : UInt8) : writeNum 1 x.toNat = [x] := by
  simp [writeNum]

theorem writeNum_two (n : Nat) : ∃ b c, writeNum 2 n = [b, c] := ⟨_, _, rfl⟩

/-! ### The head -/

/-- Past the type byte the head's checksum is awaited. -/
theorem take_prefix {p : Parser} (hs : p.state = .sof) (id type : UInt8) (len : UInt16) :
    ∃ q : Parser,
      Mealy.run takeByte p
          (tfSofByte :: (writeNum 1 id.toNat ++ writeNum 2 len.toNat ++ writeNum 1 type.toNat)) =
        (q, []) ∧
      q.state = .headCksum ∧ q.rxi = 0 ∧ q.id = id ∧ q.len = len ∧ q.type = type ∧
      q.refCksum = 0 ∧ q.discardData = false ∧
      q.cksum = (tfSofByte :: (writeNum 1 id.toNat ++ writeNum 2 len.toNat ++
        writeNum 1 type.toNat)).foldl cksumAdd cksumStart := by
  obtain ⟨hi, lo, hl⟩ := writeNum_two len.toNat
  have hlen : ∀ dest, collect16 (collect16 dest hi) lo = len :=
    fun dest => collect16_writeNum dest len hi lo hl
  rw [writeNum_one, writeNum_one, hl]
  simp only [List.cons_append, List.nil_append, Mealy.run, takeByte, fresh, parseByte, hs,
    parsBeginFrame, if_true, collect8_eq, Nat.zero_add, OfNat.one_ne_ofNat,
    if_false, Nat.reduceAdd, hlen, Option.toList_none, List.append_nil]
  exact ⟨_, rfl, rfl, rfl, rfl, rfl, rfl, rfl, rfl, rfl⟩

/-- What a message says: ID, type and payload. -/
def said (msg : TfMsg) : UInt8 × UInt8 × List UInt8 :=
  (msg.frameId, msg.type, (msg.data.getD []).take msg.len.toNat)

/-- A right head checksum ends an empty frame and starts the payload of any other. -/
theorem take_head_cksum {q : Parser} (hs : q.state = .headCksum) (hx : q.rxi = 0)
    (hd : q.discardData = false) (hlen : q.len.toNat ≤ tfMaxPayloadRx) :
    ∃ r : Parser, r.id = q.id ∧ r.type = q.type ∧ r.len = q.len ∧ r.discardData = false ∧
      if q.len = 0 then
        r.state = .sof ∧ Mealy.run takeByte q (writeNum 2 q.cksum.toNat) = (r, [receivedMsg r])
      else
        r.state = .data ∧ r.rxi = 0 ∧ r.cksum = cksumStart ∧
          Mealy.run takeByte q (writeNum 2 q.cksum.toNat) = (r, []) := by
  obtain ⟨hi, lo, hl⟩ := writeNum_two q.cksum.toNat
  have hsum : ∀ dest, collect16 (collect16 dest hi) lo = q.cksum :=
    fun dest => collect16_writeNum dest q.cksum hi lo hl
  rw [hl]
  by_cases hz : q.len = 0
  · let r : Parser := { q with
      state := .sof, parserTimeoutTicks := 0, len := 0, rxi := 2, refCksum := q.cksum }
    refine ⟨r, rfl, rfl, hz.symm, hd, ?_⟩
    rw [if_pos hz]
    simp only [Mealy.run, takeByte, fresh, parseByte, hs, hx, Nat.zero_add, OfNat.one_ne_ofNat,
      if_false, Nat.reduceAdd, if_true, hsum, cksumEnd, ne_eq, not_true_eq_false, hz,
      Option.toList_none, Option.toList_some, List.append_nil, List.nil_append]
    exact ⟨rfl, rfl⟩
  · let r : Parser := { q with
      state := .data, parserTimeoutTicks := 0, rxi := 0, cksum := cksumStart, refCksum := q.cksum }
    refine ⟨r, rfl, rfl, rfl, hd, ?_⟩
    rw [if_neg hz]
    simp only [Mealy.run, takeByte, fresh, parseByte, hs, hx, Nat.zero_add, OfNat.one_ne_ofNat,
      if_false, Nat.reduceAdd, if_true, hsum, cksumEnd, ne_eq, not_true_eq_false, hz,
      Nat.not_lt.mpr hlen, Option.toList_none, List.append_nil]
    exact ⟨rfl, rfl, rfl, rfl⟩

/-! ### The payload -/

/-- Part of a payload has been received and is stored. -/
structure Filling (p : Parser) (got : List UInt8) : Prop where
  state : p.state = .data
  index : p.rxi = got.length
  keep : p.discardData = false
  cksum : p.cksum = got.foldl cksumAdd cksumStart
  stored : p.data.toList.take got.length = got

theorem take_set_snoc {buf got : List UInt8} {c : UInt8} (h : buf.take got.length = got)
    (hfit : got.length < buf.length) :
    (buf.set got.length c).take (got.length + 1) = got ++ [c] := by
  rw [List.take_add_one, List.take_set_of_le (Nat.le_refl _), h, List.getElem?_set_self hfit]
  rfl

/-- One byte of the payload: either more is to come, or its checksum is next. -/
theorem take_payload_byte {p : Parser} {got : List UInt8} (h : Filling p got) (c : UInt8)
    (hlt : got.length < p.len.toNat) (hfit : p.len.toNat ≤ tfMaxPayloadRx) :
    ∃ r : Parser, takeByte p c = (r, none) ∧ r.id = p.id ∧ r.type = p.type ∧ r.len = p.len ∧
      r.discardData = false ∧ r.cksum = (got ++ [c]).foldl cksumAdd cksumStart ∧
      r.data.toList.take (got.length + 1) = got ++ [c] ∧
      if got.length + 1 = p.len.toNat then r.state = .dataCksum ∧ r.rxi = 0
      else r.state = .data ∧ r.rxi = got.length + 1 := by
  have hstored := take_set_snoc (c := c) h.stored (by rw [Vector.length_toList]; omega)
  rw [List.foldl_append, ← h.cksum]
  by_cases hend : got.length + 1 = p.len.toNat
  · refine ⟨{ p with
      state := .dataCksum, parserTimeoutTicks := 0, rxi := 0, refCksum := 0
      cksum := cksumAdd p.cksum c, data := p.data.setIfInBounds got.length c },
      ?_, rfl, rfl, rfl, h.keep, rfl, by simpa using hstored, by rw [if_pos hend]; exact ⟨rfl, rfl⟩⟩
    simp [takeByte, fresh, parseByte, h.state, h.index, h.keep, hend]
  · refine ⟨{ p with
      parserTimeoutTicks := 0, rxi := got.length + 1
      cksum := cksumAdd p.cksum c, data := p.data.setIfInBounds got.length c },
      ?_, rfl, rfl, rfl, h.keep, rfl, by simpa using hstored, by rw [if_neg hend]; exact ⟨h.state, rfl⟩⟩
    simp [takeByte, fresh, parseByte, h.state, h.index, h.keep, hend]

/-- The whole payload. -/
theorem take_payload (rest : List UInt8) (hne : rest ≠ []) {p : Parser} {got : List UInt8}
    (h : Filling p got) (hlen : p.len.toNat = got.length + rest.length)
    (hfit : p.len.toNat ≤ tfMaxPayloadRx) :
    ∃ r : Parser, Mealy.run takeByte p rest = (r, []) ∧ r.id = p.id ∧ r.type = p.type ∧
      r.len = p.len ∧ r.discardData = false ∧ r.state = .dataCksum ∧ r.rxi = 0 ∧
      r.cksum = (got ++ rest).foldl cksumAdd cksumStart ∧
      r.data.toList.take p.len.toNat = got ++ rest := by
  induction rest generalizing p got with
  | nil => exact absurd rfl hne
  | cons c rest ih =>
    rw [List.length_cons] at hlen
    obtain ⟨r, hr, hid, htype, hl, hkeep, hsum, hstored, hnext⟩ :=
      take_payload_byte h c (by omega) hfit
    cases rest with
    | nil =>
      rw [List.length_nil, Nat.zero_add] at hlen
      rw [if_pos hlen.symm] at hnext
      refine ⟨r, ?_, hid, htype, hl, hkeep, hnext.1, hnext.2, hsum, ?_⟩
      · simp [Mealy.run, hr]
      · rw [hlen, hstored]
    | cons d rest =>
      rw [if_neg (by rw [List.length_cons] at hlen; omega)] at hnext
      have hfill : Filling r (got ++ [c]) :=
        ⟨hnext.1, by simp [hnext.2], hkeep, hsum, by simpa using hstored⟩
      obtain ⟨q, hq, hid', htype', hl', hkeep', hstate, hx, hsum', hstored'⟩ :=
        ih (by simp) hfill (by rw [hl, hlen]; simp; omega) (by rw [hl]; exact hfit)
      rw [List.append_assoc, List.singleton_append] at hsum' hstored'
      refine ⟨q, ?_, hid'.trans hid, htype'.trans htype, hl'.trans hl, hkeep', hstate, hx, hsum', ?_⟩
      · rw [Mealy.run, hr]
        simp [hq]
      · rw [← hl]
        exact hstored'

theorem take_payload_cksum {q : Parser} (hs : q.state = .dataCksum) (hx : q.rxi = 0)
    (hd : q.discardData = false) :
    ∃ r : Parser, Mealy.run takeByte q (writeNum 2 q.cksum.toNat) = (r, [receivedMsg q]) ∧
      r.state = .sof := by
  obtain ⟨hi, lo, hl⟩ := writeNum_two q.cksum.toNat
  have hsum : ∀ dest, collect16 (collect16 dest hi) lo = q.cksum :=
    fun dest => collect16_writeNum dest q.cksum hi lo hl
  refine ⟨{ q with
    state := .sof, parserTimeoutTicks := 0, rxi := 2, refCksum := q.cksum }, ?_, rfl⟩
  rw [hl]
  simp only [Mealy.run, takeByte, fresh, parseByte, hs, hx, hd, hsum, cksumEnd, Nat.zero_add,
    OfNat.one_ne_ofNat, if_false, Nat.reduceAdd, if_true, Bool.false_eq_true, not_false_eq_true,
    and_self, Option.toList_none, Option.toList_some, List.append_nil, List.nil_append]
  rfl

/-! ### Whole frames -/

theorem take_head {p : Parser} (hs : p.state = .sof) (id type : UInt8) (len : UInt16)
    (hfit : len.toNat ≤ tfMaxPayloadRx) :
    ∃ r : Parser, r.id = id ∧ r.type = type ∧ r.len = len ∧ r.discardData = false ∧
      if len = 0 then
        r.state = .sof ∧ Mealy.run takeByte p (frameHead id len type) = (r, [receivedMsg r])
      else
        r.state = .data ∧ r.rxi = 0 ∧ r.cksum = cksumStart ∧
          Mealy.run takeByte p (frameHead id len type) = (r, []) := by
  obtain ⟨q, hq, hstate, hx, hid, hlen, htype, _, hd, hsum⟩ := take_prefix hs id type len
  obtain ⟨r, hid', htype', hlen', hd', hr⟩ := take_head_cksum hstate hx hd (by rw [hlen]; exact hfit)
  refine ⟨r, hid'.trans hid, htype'.trans htype, hlen'.trans hlen, hd', ?_⟩
  have hrun : Mealy.run takeByte p (frameHead id len type) =
      Mealy.run takeByte q (writeNum 2 q.cksum.toNat) := by
    simp only [frameHead, cksum, cksumEnd]
    rw [Mealy.run_append, hq, ← hsum]
    rfl
  rw [hrun, ← hlen]
  exact hr

/-- A frame whose payload fits, met by an idle parser, is handed up once and leaves the
parser idle. -/
theorem take_frame {p : Parser} (hs : p.state = .sof) (id type : UInt8) {payload : List UInt8}
    (hfit : payload.length ≤ tfMaxPayloadRx) :
    (Mealy.run takeByte p (frameBytes id type payload)).1.state = .sof ∧
      (Mealy.run takeByte p (frameBytes id type payload)).2.map said = [(id, type, payload)] := by
  have hlen : (UInt16.ofNat payload.length).toNat = payload.length := by
    rw [UInt16.toNat_ofNat']
    exact Nat.mod_eq_of_lt (by simp only [tfMaxPayloadRx] at hfit; omega)
  obtain ⟨q, hid, htype, hl, hd, hq⟩ :=
    take_head hs id type (UInt16.ofNat payload.length) (by rw [hlen]; exact hfit)
  by_cases hz : payload.length = 0
  · have hz' : UInt16.ofNat payload.length = 0 := by rw [hz]; rfl
    obtain ⟨hstate, hrun⟩ := (if_pos hz').mp hq
    have he : payload = [] := List.length_eq_zero_iff.mp hz
    rw [frameBytes, if_pos hz, List.append_nil, hrun]
    refine ⟨hstate, ?_⟩
    have hzero : q.len.toNat = 0 := by rw [hl, hlen, hz]
    simp [said, receivedMsg, hid, htype, hzero, he]
  · have hz' : UInt16.ofNat payload.length ≠ 0 := by
      intro he
      rw [he] at hlen
      exact hz hlen.symm
    obtain ⟨hstate, hx, hsum, hrun⟩ := (if_neg hz').mp hq
    have hfill : Filling q [] := ⟨hstate, hx, hd, hsum, rfl⟩
    obtain ⟨r, hr, hid', htype', hl', hd', hstate', hx', hsum', hstored⟩ :=
      take_payload payload (by rintro rfl; exact hz rfl) hfill
        (by rw [hl, hlen]; simp) (by rw [hl, hlen]; exact hfit)
    obtain ⟨t, ht, hstate''⟩ := take_payload_cksum hstate' hx' hd'
    have hck : cksum payload = r.cksum := hsum'.symm
    rw [frameBytes, if_neg hz, Mealy.run_append, hrun, Mealy.run_append, hr, hck, ht]
    refine ⟨hstate'', ?_⟩
    simp only [List.nil_append, List.map_cons, List.map_nil, said, receivedMsg, Option.getD_some,
      hl', hstored]
    rw [hid', htype', hid, htype]

/-! ### Streams and ticks -/

/-- A tick or a byte, as the parser sees them. -/
def parserStep (p : Parser) : Option UInt8 → Parser × Option TfMsg
  | some c => parseChar p c
  | none => (tickParser p, none)

theorem run_bytes (p : Parser) (bs : List UInt8) :
    Mealy.run parserStep p (bs.map some) = Mealy.run parseChar p bs := by
  induction bs generalizing p with
  | nil => rfl
  | cons c bs ih => simp only [List.map_cons, Mealy.run, parserStep, ih]

theorem run_msgs {is : List (Option UInt8)} {p : Parser} :
    ∀ msg ∈ (Mealy.run parserStep p is).2, ∃ q : Parser, msg = receivedMsg q := by
  induction is generalizing p with
  | nil => simp
  | cons i is ih =>
    intro msg hm
    rcases List.mem_append.mp hm with hm | hm
    · cases i with
      | none => cases hm
      | some c => exact parseChar_msg (Option.mem_toList.mp hm)
    · exact ih msg hm

/-- The byte does not come too late: no frame is under way, or its timeout has not run
out. -/
def InTime (p : Parser) : Option UInt8 → Prop
  | some _ => p.state = .sof ∨ p.parserTimeoutTicks < tfParserTimeoutTicks
  | none => True

def Timely (p : Parser) (is : List (Option UInt8)) : Prop :=
  Runs.Meets (fun p i => (parserStep p i).1) InTime p is

theorem timely_append {p : Parser} {is js : List (Option UInt8)} :
    Timely p (is ++ js) ↔ Timely p is ∧ Timely (Mealy.run parserStep p is).1 js := by
  rw [Mealy.run_fst]
  exact Runs.Meets.append _

/-- A byte restarts the timeout. -/
theorem parseChar_ticks (p : Parser) (c : UInt8) : (parseChar p c).1.parserTimeoutTicks = 0 := by
  have hbyte : ∀ q : Parser, (parseByte q c).1.parserTimeoutTicks = q.parserTimeoutTicks := by
    intro q
    unfold parseByte
    split
    all_goals dsimp only [tfResetParser, parsBeginFrame]
    all_goals repeat' first | rfl | split
  exact hbyte _

/-- After its first byte the bytes of a chunk come without ticks in between. -/
theorem chunk_timely (chunk : List UInt8) {p : Parser}
    (h : chunk = [] ∨ p.state = .sof ∨ p.parserTimeoutTicks < tfParserTimeoutTicks) :
    Timely p (chunk.map some) := by
  induction chunk generalizing p with
  | nil => trivial
  | cons c chunk ih =>
    refine ⟨h.resolve_left (by simp), ih (Or.inr (Or.inr ?_))⟩
    change (parseChar p c).1.parserTimeoutTicks < tfParserTimeoutTicks
    rw [parseChar_ticks]
    decide

theorem fresh_tick (p : Parser) : fresh (tickParser p) = fresh p := by
  unfold tickParser
  split <;> rfl

theorem parseChar_inTime {p : Parser} {c : UInt8} (h : InTime p (some c)) :
    parseChar p c = takeByte p c := by
  have hno : ¬ (tfParserTimeoutTicks ≤ p.parserTimeoutTicks ∧ p.state ≠ .sof) := by
    rintro ⟨hle, hne⟩
    rcases h with hs | hlt
    · exact hne hs
    · omega
  simp only [parseChar, if_neg hno]
  rfl

/-- Ticks in between do not matter as long as no byte is late. -/
theorem timely_run {is : List (Option UInt8)} {p q : Parser} (hpq : fresh p = fresh q)
    (h : Timely p is) :
    fresh (Mealy.run parserStep p is).1 = fresh (Mealy.run takeByte q (is.filterMap id)).1 ∧
      (Mealy.run parserStep p is).2 = (Mealy.run takeByte q (is.filterMap id)).2 := by
  induction is generalizing p q with
  | nil => exact ⟨hpq, rfl⟩
  | cons i is ih =>
    cases i with
    | none =>
      have := ih ((fresh_tick p).trans hpq) h.2
      simpa [Mealy.run, parserStep] using this
    | some c =>
      have hstep : parserStep p (some c) = takeByte q c := by
        rw [parserStep, parseChar_inTime h.1, takeByte, hpq]
        rfl
      have hnext := h.2
      dsimp only at hnext
      rw [hstep] at hnext
      obtain ⟨hf, hm⟩ := ih rfl hnext
      have hbytes : (some c :: is).filterMap id = c :: is.filterMap id := rfl
      rw [hbytes, Mealy.run, Mealy.run, hstep]
      exact ⟨hf, congrArg ((takeByte q c).2.toList ++ ·) hm⟩

/-- A frame as a message: ID, type, payload. -/
def frameOf (m : UInt8 × UInt8 × List UInt8) : List UInt8 := frameBytes m.1 m.2.1 m.2.2

/-- A stream of frames met by an idle parser is handed up frame by frame. -/
theorem decode_stream {p : Parser} (hs : p.state = .sof) {is : List (Option UInt8)}
    (ht : Timely p is) (ms : List (UInt8 × UInt8 × List UInt8))
    (hfit : ∀ m ∈ ms, m.2.2.length ≤ tfMaxPayloadRx)
    (hbytes : is.filterMap id = (ms.map frameOf).flatten) :
    (Mealy.run parserStep p is).1.state = .sof ∧ (Mealy.run parserStep p is).2.map said = ms := by
  obtain ⟨hf, hm⟩ := timely_run (rfl : fresh p = fresh p) ht
  have hcodes : List.Forall₂ (fun m bs => m.2.2.length ≤ tfMaxPayloadRx ∧ bs = frameOf m) ms
      (ms.map frameOf) := by
    clear hbytes
    induction ms with
    | nil => exact .nil
    | cons m ms ih =>
      exact .cons ⟨hfit m (by simp), rfl⟩ (ih fun x hx => hfit x (by simp [hx]))
  obtain ⟨hidle, hsaid⟩ := Mealy.run_codes takeByte (fun p : Parser => p.state = .sof) said id (fun p m bs hp hc => by
      obtain ⟨hc, rfl⟩ := hc
      exact take_frame hp m.1 m.2.1 hc) hs hcodes
  rw [hbytes] at hf hm
  refine ⟨(congrArg (·.state) hf).trans hidle, ?_⟩
  rw [hm, hsaid, List.map_id]

/-- One frame read in one go. -/
theorem read_frame {p : Parser} (hs : p.state = .sof) (id type : UInt8) {payload : List UInt8}
    (hfit : payload.length ≤ tfMaxPayloadRx) :
    (Mealy.run parseChar p (frameBytes id type payload)).1.state = .sof ∧
      ∃ q, (Mealy.run parseChar p (frameBytes id type payload)).2 = [receivedMsg q] ∧
        said (receivedMsg q) = (id, type, payload) := by
  obtain ⟨hidle, hsaid⟩ := decode_stream hs
    (chunk_timely (frameBytes id type payload) (Or.inr (Or.inl hs)))
    [(id, type, payload)] (by simpa using hfit) (by simp [frameOf])
  obtain ⟨msg, hm, hv⟩ := List.map_eq_singleton_iff.mp hsaid
  obtain ⟨q, rfl⟩ := run_msgs (p := p) msg (by rw [hm]; simp)
  rw [run_bytes] at hidle hm
  exact ⟨hidle, q, hm, hv⟩

/-! ### Pacing -/

/-- With `k` ticks since the last byte, no byte follows one after fifty ticks or more. -/
def Paced : Nat → List (Option UInt8) → Prop
  | _, [] => True
  | k, none :: is => Paced (k + 1) is
  | k, some _ :: is => k < tfParserTimeoutTicks ∧ Paced 0 is

/-- The bytes of one frame as they come in, after any wait but then well paced. -/
def Spelled (bs : List UInt8) (seg : List (Option UInt8)) : Prop :=
  ∃ n c rest, seg = List.replicate n none ++ some c :: rest ∧ Paced 0 rest ∧
    c :: rest.filterMap id = bs

theorem tick_le (p : Parser) : (tickParser p).parserTimeoutTicks ≤ p.parserTimeoutTicks + 1 := by
  unfold tickParser
  split
  · exact Nat.le_refl _
  · exact Nat.le_succ _

theorem paced_timely {is : List (Option UInt8)} {k : Nat} {p : Parser}
    (hk : p.parserTimeoutTicks ≤ k) (h : Paced k is) : Timely p is := by
  induction is generalizing k p with
  | nil => trivial
  | cons i is ih =>
    cases i with
    | none => exact ⟨trivial, ih (k := k + 1) ((tick_le p).trans (by omega)) h⟩
    | some c =>
      refine ⟨Or.inr (Nat.lt_of_le_of_lt hk h.1), ih (k := 0) ?_ h.2⟩
      exact (parseChar_ticks p c).le

theorem paced_bytes (bs : List UInt8) {k : Nat} (h : k < tfParserTimeoutTicks) :
    Paced k (bs.map some) := by
  induction bs generalizing k with
  | nil => trivial
  | cons c bs ih => exact ⟨h, ih (by decide)⟩

/-- An idle parser waits for a frame as long as it takes. -/
theorem spelled_timely {p : Parser} (hs : p.state = .sof) {bs : List UInt8}
    {seg : List (Option UInt8)} (h : Spelled bs seg) : Timely p seg := by
  obtain ⟨n, c, rest, rfl, hpaced, _⟩ := h
  induction n generalizing p with
  | zero => exact ⟨Or.inl hs, paced_timely (parseChar_ticks p c).le hpaced⟩
  | succ n ih =>
    refine ⟨trivial, ih (p := tickParser p) ?_⟩
    unfold tickParser
    split <;> exact hs

theorem ticks_bytes (n : Nat) : (List.replicate n (none : Option UInt8)).filterMap id = [] := by
  induction n with
  | zero => rfl
  | succ n ih => exact ih

theorem spelled_bytes {bs : List UInt8} {seg : List (Option UInt8)} (h : Spelled bs seg) :
    seg.filterMap id = bs := by
  obtain ⟨n, c, rest, rfl, _, hb⟩ := h
  rw [List.filterMap_append, ticks_bytes]
  exact hb

/-- Frames spelled one after the other are a timely stream to an idle parser. -/
theorem stream_timely {p : Parser} (hs : p.state = .sof)
    {ms : List (UInt8 × UInt8 × List UInt8)} {segs : List (List (Option UInt8))}
    (hfit : ∀ m ∈ ms, m.2.2.length ≤ tfMaxPayloadRx)
    (h : List.Forall₂ (fun m seg => Spelled (frameOf m) seg) ms segs) :
    Timely p segs.flatten ∧ segs.flatten.filterMap id = (ms.map frameOf).flatten := by
  induction h generalizing p with
  | nil => exact ⟨trivial, rfl⟩
  | @cons m seg ms segs hseg _ ih =>
    have ht := spelled_timely hs hseg
    have hb : seg.filterMap id = ([m].map frameOf).flatten := by
      rw [spelled_bytes hseg]
      simp
    have hidle := (decode_stream hs ht [m] (by simpa using hfit m (by simp)) hb).1
    obtain ⟨htl, hbl⟩ := ih hidle fun x hx => hfit x (by simp [hx])
    refine ⟨timely_append.mpr ⟨ht, htl⟩, ?_⟩
    rw [List.flatten_cons, List.filterMap_append, spelled_bytes hseg, hbl]
    rfl

/-- Once a frame's timeout has run out the parser is as good as reset. -/
theorem expired_run {p : Parser} (h : tfParserTimeoutTicks ≤ p.parserTimeoutTicks)
    (is : List (Option UInt8)) :
    (Mealy.run parserStep p is).2 = (Mealy.run parserStep (tfResetParser p) is).2 := by
  have hstay : ∀ q : Parser, tfParserTimeoutTicks ≤ q.parserTimeoutTicks → tickParser q = q := by
    intro q hq
    simp only [tickParser, if_neg (Nat.not_lt.mpr hq)]
  induction is with
  | nil => rfl
  | cons i is ih =>
    cases i with
    | none => simpa [Mealy.run, parserStep, hstay p h, hstay (tfResetParser p) h] using ih
    | some c =>
      have hsame : parseChar p c = parseChar (tfResetParser p) c := by
        by_cases hs : p.state = .sof
        · have : tfResetParser p = p := by rw [tfResetParser, ← hs]
          rw [this]
        · simp [parseChar, h, hs, tfResetParser]
      simp only [Mealy.run, parserStep, hsame]

end UpAndDownESP.Proofs.FrameFormat
