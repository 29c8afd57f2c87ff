import UpAndDownESP.Proofs.Events

namespace UpAndDownESP.Proofs.ReceiveBuffer
open Receiving Refinement FrameFormat Events

/-- How many bytes the field being received has. -/
def fieldWidth (p : Parser) : Nat :=
  match p.state with
  | .sof => 0
  | .id => 1
  | .len => 2
  | .type => 1
  | .headCksum => 2
  | .data => p.len.toNat
  | .dataCksum => 2

/-- The index stays within the field, and what is stored has room in the buffer. -/
structure Bounded (p : Parser) : Prop where
  index : p.state = .sof ∨ p.rxi < fieldWidth p
  room : p.state = .data ∨ p.state = .dataCksum → p.discardData = false →
    p.len.toNat ≤ tfMaxPayloadRx

theorem bounded_sof {p : Parser} (h : p.state = .sof) : Bounded p := by
  refine ⟨Or.inl h, ?_⟩
  rw [h]
  rintro (he | he) <;> cases he

/-- Within the head there is nothing to store. -/
theorem bounded_head {p : Parser} (hd : p.state ≠ .data) (hc : p.state ≠ .dataCksum)
    (hx : p.rxi < fieldWidth p) : Bounded p := by
  refine ⟨Or.inr hx, ?_⟩
  rintro (he | he)
  · exact absurd he hd
  · exact absurd he hc

theorem Bounded.byte {p : Parser} (h : Bounded p) (c : UInt8) :
    Bounded (parseByte p c).1 ∧ ∀ msg ∈ (parseByte p c).2, msg.len.toNat ≤ tfMaxPayloadRx := by
  have hindex := h.index
  unfold fieldWidth at hindex
  cases hs : p.state with
  | sof =>
    simp only [parseByte, hs]
    refine ⟨?_, by simp⟩
    split
    · exact bounded_head (by simp [parsBeginFrame]) (by simp [parsBeginFrame]) Nat.one_pos
    · exact h
  | id | len | type =>
    simp only [parseByte, hs] at hindex ⊢
    refine ⟨?_, by simp⟩
    split
    · exact bounded_head (by simp) (by simp) (by simp [fieldWidth])
    · refine bounded_head (by simp) (by simp) ?_
      simp [fieldWidth] at hindex ⊢
      omega
  | headCksum =>
    simp only [parseByte, hs] at hindex ⊢
    split
    · split
      · exact ⟨bounded_sof rfl, by simp⟩
      · split
        · rename_i hlen
          refine ⟨bounded_sof rfl, ?_⟩
          intro msg hm
          cases hm
          simp [receivedMsg, hlen]
        · rename_i hlen
          refine ⟨⟨Or.inr ?_, ?_⟩, by simp⟩
          · apply Nat.pos_of_ne_zero
            intro hz
            exact hlen (UInt16.toNat_inj.mp hz)
          · intro _ hd
            change p.len.toNat ≤ tfMaxPayloadRx
            by_contra hlong
            simp [Nat.lt_of_not_le hlong] at hd
    · refine ⟨bounded_head (by simp) (by simp) ?_, by simp⟩
      simp [fieldWidth] at hindex ⊢
      omega
  | data =>
    have hroom := h.room (Or.inl hs)
    simp only [parseByte, hs] at hindex ⊢
    refine ⟨?_, by simp⟩
    have hlt : p.rxi < p.len.toNat := hindex.resolve_left (by simp)
    cases hd : p.discardData with
    | true =>
      simp only [if_true]
      split
      · exact ⟨Or.inr Nat.two_pos, by simp⟩
      · refine ⟨Or.inr ?_, by simp⟩
        simp [fieldWidth]
        omega
    | false =>
      simp only [Bool.false_eq_true, if_false]
      split
      · exact ⟨Or.inr Nat.two_pos, fun _ _ => hroom hd⟩
      · refine ⟨Or.inr ?_, fun _ _ => hroom hd⟩
        simp [fieldWidth]
        omega
  | dataCksum =>
    have hroom := h.room (Or.inr hs)
    simp only [parseByte, hs] at hindex ⊢
    split
    · split
      · rename_i hok
        refine ⟨bounded_sof rfl, ?_⟩
        intro msg hm
        cases hm
        exact hroom (by simpa using hok.1)
      · exact ⟨bounded_sof rfl, by simp⟩
    · refine ⟨⟨Or.inr ?_, fun _ hd => hroom hd⟩, by simp⟩
      simp [fieldWidth] at hindex ⊢
      omega

theorem Bounded.char {p : Parser} (h : Bounded p) (c : UInt8) :
    Bounded (parseChar p c).1 ∧ ∀ msg ∈ (parseChar p c).2, msg.len.toNat ≤ tfMaxPayloadRx := by
  simp only [parseChar]
  apply Bounded.byte
  split
  · exact bounded_sof rfl
  · exact ⟨h.index, h.room⟩

theorem Bounded.tick {p : Parser} (h : Bounded p) : Bounded (tickParser p) := by
  unfold tickParser
  split
  · exact ⟨h.index, h.room⟩
  · exact h

/-- The bounds hold through any history, and so does the limit on what is handed up. -/
theorem Bounded.run (is : List (Option UInt8)) {p : Parser} (h : Bounded p) :
    Bounded (Mealy.run parserStep p is).1 ∧
      ∀ msg ∈ (Mealy.run parserStep p is).2, msg.len.toNat ≤ tfMaxPayloadRx := by
  induction is generalizing p with
  | nil => exact ⟨h, by simp⟩
  | cons i is ih =>
    cases i with
    | none =>
      obtain ⟨hb, hm⟩ := ih h.tick
      exact ⟨hb, by simpa [Mealy.run, parserStep] using hm⟩
    | some c =>
      obtain ⟨hc, hmsg⟩ := h.char c
      obtain ⟨hb, hm⟩ := ih hc
      refine ⟨hb, ?_⟩
      intro msg hmem
      rcases List.mem_append.mp hmem with hmem | hmem
      · exact hmsg msg (Option.mem_toList.mp hmem)
      · exact hm msg hmem

/-! ### The endpoint -/

/-- The session's parser sees the bytes and the ticks, and nothing else moves it. -/
theorem parser_step (s : Session) (act : Act) :
    (s.step act).parser = (Mealy.run parserStep s.parser (heard act)).1 := by
  cases act with
  | mqttInit client =>
    simp only [Session.step]
    split <;> rfl
  | mqttEvent event =>
    simp only [Session.step]
    split
    · rcases Capacity.mqttEvent_cases s event with ⟨m, he, _⟩ | ⟨cmd, he⟩ | he
      · rw [he]
        rfl
      · rw [he]
        exact (Capacity.command_input cmd s).parser
      · rw [he]
        rfl
    · rfl
  | sendCmd cmd => exact (Capacity.command_input cmd s).parser
  | sendEstop => rfl
  | heartbeat => exact (Capacity.heartbeat_input s).parser
  | uartRead rx =>
    change (rx.foldl Session.acceptByte s).parser = (Mealy.run parserStep s.parser (rx.map some)).1
    rw [Capacity.read_deliver, run_bytes]
  | tick => rfl

theorem parser_run (acts : List Act) (s : Session) :
    (s.run acts).parser = (Mealy.run parserStep s.parser (acts.flatMap heard)).1 := by
  induction acts generalizing s with
  | nil => rfl
  | cons act acts ih =>
    rw [Session.run, Runs.run_cons, List.flatMap_cons, Mealy.run_append]
    exact (ih (s.step act)).trans (by rw [parser_step])

theorem parser_boot (msgIds : Nat → Int) : (session (boot msgIds)).parser.state = .sof := rfl

theorem endpoint_bounded (msgIds : Nat → Int) (acts : List Act) :
    Bounded (run (boot msgIds) acts).tf.parser := by
  rw [← parser_session, (run_refines (boot_regular msgIds) acts).1, parser_run]
  exact (Bounded.run (acts.flatMap heard) (bounded_sof (parser_boot msgIds))).1

/-- The parser of a running endpoint never stores outside its buffer, its index does
not wrap, and no message is longer than the buffer. -/
theorem receive_buffer_safe {s : Endpoint} (h : Reachable s) :
    (s.tf.parser.state = .data → s.tf.parser.discardData = false →
      s.tf.parser.rxi < s.tf.parser.len.toNat ∧ s.tf.parser.len.toNat ≤ tfMaxPayloadRx) ∧
    (s.tf.parser.state ≠ .sof → s.tf.parser.rxi + 1 < 2 ^ 16) ∧
    ∀ c, ∀ msg ∈ (parseChar s.tf.parser c).2, msg.len.toNat ≤ tfMaxPayloadRx := by
  obtain ⟨msgIds, acts, rfl⟩ := h
  have hb := endpoint_bounded msgIds acts
  generalize (run (boot msgIds) acts).tf.parser = p at hb
  refine ⟨?_, ?_, fun c => (hb.char c).2⟩
  · intro hs hd
    have hlt := hb.index.resolve_left (by rw [hs]; simp)
    simp only [fieldWidth, hs] at hlt
    exact ⟨hlt, hb.room (Or.inl hs) hd⟩
  · intro hs
    have hlt := hb.index.resolve_left hs
    have hlen := p.len.toNat_lt
    have hwidth : fieldWidth p ≤ max 2 p.len.toNat := by
      unfold fieldWidth
      split <;> omega
    omega

/-- An event frame up to the first byte of its payload. -/
def partialEvent : List UInt8 := (frameBytes 0x00 msgTypeEvent [0x01, 0x02]).take 8

theorem partial_event_safe :
    let p := (run (boot fun _ => 0) [.uartRead partialEvent]).tf.parser
    p.rxi < p.len.toNat ∧ p.len.toNat ≤ tfMaxPayloadRx :=
  (receive_buffer_safe ⟨_, [.uartRead partialEvent], rfl⟩).1 (by decide +kernel) (by decide +kernel)

end UpAndDownESP.Proofs.ReceiveBuffer
