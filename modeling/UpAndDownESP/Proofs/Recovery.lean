import UpAndDownESP.Proofs.Integrity
import UpAndDownESP.Proofs.ReceiveBuffer

namespace UpAndDownESP.Proofs.Recovery
open Receiving FrameFormat Decoding ReceiveBuffer Integrity Spec

/-! ### The rest of a frame -/

/-- How many bytes the frame under way can still take. A length that has not been
received may be anything. -/
def remaining (p : Parser) : Nat :=
  match p.state with
  | .sof => 0
  | .id => 65543
  | .len => 65542 - p.rxi
  | .type => p.len.toNat + 5
  | .headCksum => p.len.toNat + 4 - p.rxi
  | .data => p.len.toNat + 2 - p.rxi
  | .dataCksum => 2 - p.rxi

theorem remaining_le (p : Parser) : remaining p ≤ 65543 := by
  have hlen := p.len.toNat_lt
  unfold remaining
  split <;> omega

/-- A byte within a frame brings its end nearer, and hands up a message only if it is the
end. -/
theorem byte_nearer {p : Parser} (h : Bounded p) (hs : p.state ≠ .sof) (c : UInt8) :
    remaining (takeByte p c).1 < remaining p ∧
      ((takeByte p c).2 ≠ none → remaining (takeByte p c).1 = 0) := by
  have hindex := h.index.resolve_left hs
  unfold fieldWidth at hindex
  cases hst : p.state with
  | sof => exact absurd hst hs
  | id =>
    have hx : p.rxi = 0 := by
      simp only [hst] at hindex
      omega
    simp [takeByte, fresh, parseByte, hst, hx, remaining]
  | len =>
    have hlen := (BigEndian.collect16 p.len c).toNat_lt
    simp only [hst] at hindex
    by_cases hend : p.rxi = 1
    · simp only [takeByte, fresh, parseByte, hst, hend, remaining, if_true, Nat.reduceAdd]
      exact ⟨by omega, by simp⟩
    · have hx : p.rxi = 0 := by omega
      simp [takeByte, fresh, parseByte, hst, hx, remaining]
  | type =>
    have hx : p.rxi = 0 := by
      simp only [hst] at hindex
      omega
    simp [takeByte, fresh, parseByte, hst, hx, remaining]
  | headCksum =>
    simp only [hst] at hindex
    by_cases hend : p.rxi = 1
    · by_cases hbad : cksumEnd p.cksum ≠ BigEndian.collect16 p.refCksum c
      · simp [takeByte, fresh, parseByte, hst, hend, hbad, tfResetParser, remaining]
      · by_cases hz : p.len = 0
        · simp [takeByte, fresh, parseByte, hst, hend, hbad, hz, tfResetParser, remaining]
        · simp [takeByte, fresh, parseByte, hst, hend, hbad, hz, remaining]
    · have hx : p.rxi = 0 := by omega
      simp [takeByte, fresh, parseByte, hst, hx, remaining]
  | data =>
    simp only [hst] at hindex
    by_cases hend : p.rxi + 1 = p.len.toNat
    · cases hd : p.discardData with
      | false | true =>
        simp [takeByte, fresh, parseByte, hst, hd, hend, remaining]
        omega
    · cases hd : p.discardData with
      | false | true =>
        simp [takeByte, fresh, parseByte, hst, hd, hend, remaining]
        omega
  | dataCksum =>
    simp only [hst] at hindex
    by_cases hend : p.rxi = 1
    · by_cases hok : p.discardData = false ∧ cksumEnd p.cksum = BigEndian.collect16 p.refCksum c
      · simp [takeByte, fresh, parseByte, hst, hend, hok, tfResetParser, remaining]
      · simp [takeByte, fresh, parseByte, hst, hend, hok, tfResetParser, remaining]
    · have hx : p.rxi = 0 := by omega
      simp [takeByte, fresh, parseByte, hst, hx, remaining]

/-! ### Back in step -/

/-- A parser that is idle, or whose frame has timed out, decodes what comes. -/
theorem idle_decodes {p : Parser}
    (h : p.state = .sof ∨ tfParserTimeoutTicks ≤ p.parserTimeoutTicks) (bs : List UInt8) :
    (Mealy.run parseChar p bs).2.map said = decode bs := by
  have hidle : ∀ q : Parser, q.state = .sof →
      (Mealy.run parserStep q (bs.map some)).2.map said = decode bs := by
    intro q hq
    rw [history_decodes hq, segments_bytes]
    simp
  rw [← run_bytes]
  rcases h with hs | hlate
  · exact hidle p hs
  · rw [expired_run hlate]
    exact hidle (tfResetParser p) rfl

/-- By the bytes: either the parser is free of the frame, or the next byte brings it nearer
to its end. -/
theorem bytes_recover (rx : List UInt8) {p : Parser} (h : Bounded p) :
    ∃ lost rest, rx = lost ++ rest ∧ lost.length ≤ remaining p ∧
      (Mealy.run parseChar p lost).2.length ≤ 1 ∧
      (Mealy.run parseChar p rx).2.map said =
        (Mealy.run parseChar p lost).2.map said ++ decode rest := by
  induction rx generalizing p with
  | nil =>
    have hnil : decode [] = [] := reader.decode_none rfl
    exact ⟨[], [], rfl, Nat.zero_le _, Nat.zero_le _, by simp [hnil]⟩
  | cons c rx ih =>
    by_cases hfree : p.state = .sof ∨ tfParserTimeoutTicks ≤ p.parserTimeoutTicks
    · exact ⟨[], c :: rx, rfl, Nat.zero_le _, Nat.zero_le _, idle_decodes hfree (c :: rx)⟩
    · obtain ⟨hs, hlate⟩ := not_or.mp hfree
      have hbyte : parseChar p c = takeByte p c := parseChar_inTime (Or.inr (Nat.lt_of_not_le hlate))
      obtain ⟨hnearer, hend⟩ := byte_nearer h hs c
      rw [← hbyte] at hnearer hend
      obtain ⟨lost, rest, rfl, hlen, hone, hmsgs⟩ := ih (h.char c).1
      refine ⟨c :: lost, rest, rfl, ?_, ?_, ?_⟩
      · rw [List.length_cons]
        omega
      · cases hm : (parseChar p c).2 with
        | none => simpa [Mealy.run, hm] using hone
        | some msg =>
          have hlost : lost = [] := by
            have := hend (by simp [hm])
            exact List.length_eq_zero_iff.mp (by omega)
          subst hlost
          simp [Mealy.run, hm]
      · simp only [Mealy.run, List.map_append, hmsgs, List.append_assoc]

/-- A sound head that announces more than the receive buffer holds costs what it announces
and two bytes more, whatever these are. -/
theorem decode_oversized (id type : UInt8) {payload : List UInt8}
    (hlarge : tfMaxPayloadRx < payload.length) (hlong : payload.length < 65536) (hi lo : UInt8)
    (rest : List UInt8) :
    decode (frameHead id (UInt16.ofNat payload.length) type ++ (payload ++ hi :: lo :: rest)) =
      decode rest := by
  have hne : payload ≠ [] := by
    rintro rfl
    simp at hlarge
  rw [decode_body id type hne hlong, if_neg fun hboth => Nat.not_lt.mpr hboth.1 hlarge,
    List.nil_append]

/-- Whatever has gone wrong on the line, at most 65543 more bytes are taken for the frame
under way, and that hands up one message at most; what follows is read afresh. No fewer will
do: a head may announce 65535 bytes, and frames among these are lost with them. -/
theorem recovery_exact (msgIds : Nat → Int) (acts : List Act) :
    let p := (run (boot msgIds) acts).tf.parser
    (∀ rx, ∃ lost rest, rx = lost ++ rest ∧ lost.length ≤ remaining p ∧ remaining p ≤ 65543 ∧
      (Mealy.run parseChar p lost).2.length ≤ 1 ∧
      (Mealy.run parseChar p rx).2.map said =
        (Mealy.run parseChar p lost).2.map said ++ decode rest) ∧
    (p.state = .sof → ∀ id type (payload : List UInt8) hi lo rest,
      tfMaxPayloadRx < payload.length → payload.length < 65536 →
      (Mealy.run parseChar p (frameHead id (UInt16.ofNat payload.length) type ++
        (payload ++ hi :: lo :: rest))).2.map said = decode rest) := by
  intro p
  constructor
  · intro rx
    obtain ⟨lost, rest, hrx, hlen, hone, hmsgs⟩ := bytes_recover rx (endpoint_bounded msgIds acts)
    exact ⟨lost, rest, hrx, hlen, remaining_le p, hone, hmsgs⟩
  · intro hs id type payload hi lo rest hlarge hlong
    rw [idle_decodes (Or.inl hs)]
    exact decode_oversized id type hlarge hlong hi lo rest

end UpAndDownESP.Proofs.Recovery
