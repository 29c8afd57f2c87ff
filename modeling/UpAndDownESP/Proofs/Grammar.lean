import UpAndDownESP.Proofs.Commands

namespace UpAndDownESP.Proofs.Grammar
open Commands

/-! ### What a payload is recognised as -/

/-- The spellings of the commands that take no parameter. -/
def spellings : MqttCommand → List (List UInt8)
  | .status => [ascii "status", ascii "STATUS"]
  | .reset => [ascii "reset", ascii "RESET"]
  | .estop => [ascii "estop", ascii "ESTOP"]
  | .floor _ => []

def keywords : List (List UInt8) :=
  spellings .status ++ spellings .reset ++ spellings .estop

/-- The comparison bounded by the payload's length accepts the payload for the keyword. -/
def TakenFor (text keyword : List UInt8) : Prop :=
  text <+: keyword ∨ keyword ++ [0] <+: text

instance (text keyword : List UInt8) : Decidable (TakenFor text keyword) :=
  inferInstanceAs (Decidable (_ ∨ _))

/-- `floor:` and something after it. -/
def FloorForm (text : List UInt8) : Prop := ascii "floor:" <+: text ∧ 6 < text.length

instance (text : List UInt8) : Decidable (FloorForm text) := inferInstanceAs (Decidable (_ ∧ _))

theorem keywords_no_nul : ∀ k ∈ keywords, (0 : UInt8) ∉ k := by decide

theorem keywords_nonempty : ∀ k ∈ keywords, k ≠ [] := by decide

/-- No keyword begins another. -/
theorem keywords_apart : ∀ k ∈ keywords, ∀ k' ∈ keywords, k <+: k' → k = k' := by decide

theorem spelling_keyword {cmd : MqttCommand} {k : List UInt8} (hk : k ∈ spellings cmd) :
    k ∈ keywords := by
  cases cmd with
  | floor n => cases hk
  | status => simp [keywords, hk]
  | reset => simp [keywords, hk]
  | estop => simp [keywords, hk]

theorem compare_spellings {c : MqttCommand} {a b : List UInt8} (hs : spellings c = [a, b])
    (text rest : List UInt8) :
    (strncmp (text ++ rest) a text.length = 0 ∨ strncmp (text ++ rest) b text.length = 0) ↔
      ∃ k ∈ spellings c, TakenFor text k := by
  have hno : ∀ k ∈ spellings c, (0 : UInt8) ∉ k :=
    fun k hk => keywords_no_nul k (spelling_keyword hk)
  rw [hs] at hno ⊢
  rw [strncmp_keyword (hno a (by simp)), strncmp_keyword (hno b (by simp))]
  simp [TakenFor]

theorem compare_floor (text rest : List UInt8) :
    (strncmp (text ++ rest) (ascii "floor:") 6 = 0 ∧ 6 < text.length) ↔ FloorForm text := by
  refine and_congr_left fun hlen => ?_
  have htake : (text ++ rest).take 6 = text.take 6 := by
    rw [List.take_append_of_le_length (by omega)]
  have hkey : cText (ascii "floor:") 6 = ascii "floor:" := by decide
  rw [strncmp_eq_zero, hkey, cText, htake, List.prefix_iff_eq_take]
  constructor
  · intro h
    -- six bytes before the first NUL are all six
    have hpre := List.takeWhile_prefix (· ≠ 0) (l := text.take 6)
    rw [h] at hpre
    exact hpre.eq_of_length (by simp [ascii]; omega)
  · intro h
    have hsix : (ascii "floor:").length = 6 := rfl
    rw [hsix] at h
    rw [← h]
    exact takeWhile_no_nul (by decide)

/-- The branches of the parser in the order they are tried. -/
theorem parse_text (text rest : List UInt8) :
    parseMqttCommand (text ++ rest) text.length =
      if ∃ k ∈ spellings .status, TakenFor text k then some .status
      else if ∃ k ∈ spellings .reset, TakenFor text k then some .reset
      else if ∃ k ∈ spellings .estop, TakenFor text k then some .estop
      else if FloorForm text then some (.floor (UInt8.ofInt (atoi (text.drop 6 ++ rest))))
      else none := by
  simp only [parseMqttCommand, compare_spellings (c := .status) rfl,
    compare_spellings (c := .reset) rfl, compare_spellings (c := .estop) rfl, compare_floor]
  by_cases hf : FloorForm text
  · have hdrop : (text ++ rest).drop 6 = text.drop 6 ++ rest :=
      List.drop_append_of_le_length (Nat.le_of_lt hf.2)
    rw [hdrop]
  · rw [if_neg hf, if_neg hf]

/-! ### What is asked of the transport -/

/-- A recognised command makes its one request, granted or not. -/
theorem onMqttCommand_requests (s : Endpoint) (payload : List UInt8) (len : Nat) :
    requests (maxCommOnMqttCommand payload len s) =
      requests s ++ (parseMqttCommand payload len).toList.map request := by
  have hcmd : ∀ cmd : CmdRequest,
      requests (protocolSendCmd cmd s).2 = requests s ++ [(msgTypeCmd, cmd.bytes)] := by
    intro cmd
    simp [requests, protocolSendCmd, tfTransportQuery, Handler.sent, requestsOf,
      ← CmdRequest.bytes_length cmd]
  unfold maxCommOnMqttCommand
  cases parseMqttCommand payload len with
  | none => simp
  | some cmd =>
    cases cmd with
    | status => exact hcmd getStatusCmd
    | reset => exact hcmd resetCmd
    | floor n => exact hcmd (moveToFloorCmd n)
    | estop =>
      simp [requests, maxCommSendEstop, protocolSendEstop, tfTransportSend, Handler.sent,
        requestsOf, request]

/-- The handler, given `text` with `rest` behind it in memory, asks the transport for just
this frame; the transport may refuse a command. -/
def Sends (s : Endpoint) (text rest : List UInt8) (frame : UInt8 × List UInt8) : Prop :=
  requests (maxCommOnMqttCommand (text ++ rest) text.length s) = requests s ++ [frame]

def SendsNothing (s : Endpoint) (text rest : List UInt8) : Prop :=
  requests (maxCommOnMqttCommand (text ++ rest) text.length s) = requests s

/-- Type and command ID tell the requests apart, and the first parameter the floors. -/
theorem request_injective {a b : MqttCommand} (h : request a = request b) : a = b := by
  have hfloor : ∀ n : UInt8, (moveToFloorCmd n).bytes =
      cmdMoveToFloor :: n :: (List.replicate 15 0 ++ [1]) := fun _ => rfl
  have htag : ((request a).1, (request a).2.head?) = ((request b).1, (request b).2.head?) := by
    rw [h]
  cases a <;> cases b
  case floor.floor n m =>
    simp only [request, hfloor, Prod.mk.injEq, List.cons.injEq, true_and, and_true] at h
    rw [h]
  case status.status | reset.reset | estop.estop => rfl
  all_goals
    simp only [request, hfloor, List.head?_cons] at htag
    exact absurd htag (by decide)

theorem sends_iff (s : Endpoint) (text rest : List UInt8) (cmd : MqttCommand) :
    Sends s text rest (request cmd) ↔
      parseMqttCommand (text ++ rest) text.length = some cmd := by
  rw [Sends, onMqttCommand_requests, List.append_cancel_left_eq]
  cases parseMqttCommand (text ++ rest) text.length with
  | none => simp
  | some c =>
    simp only [Option.toList_some, List.map_cons, List.map_nil, List.cons.injEq, and_true,
      Option.some.injEq]
    exact ⟨request_injective, congrArg request⟩

theorem sends_nothing_iff (s : Endpoint) (text rest : List UInt8) :
    SendsNothing s text rest ↔ parseMqttCommand (text ++ rest) text.length = none := by
  rw [SendsNothing, onMqttCommand_requests]
  cases parseMqttCommand (text ++ rest) text.length with
  | none => simp
  | some c => simp

/-! ### Keywords -/

/-- Each keyword asks for its command, nothing else does, and what is neither a keyword
nor a floor request asks for nothing. -/
structure KeywordsExact (s : Endpoint) (text rest : List UInt8) : Prop where
  command : ∀ cmd ∈ [MqttCommand.status, .reset, .estop],
    (Sends s text rest (request cmd) ↔ text ∈ spellings cmd)
  other : text ∉ keywords → ¬ ascii "floor:" <+: text → SendsNothing s text rest

/-- The text breaks off within a keyword, or goes on after one with a NUL. -/
def Misread (text : List UInt8) : Prop :=
  ∃ k ∈ keywords, text <+: k ∧ text ≠ k ∨ k ++ [0] <+: text

theorem Misread.no_keyword (h : Misread text) : text ∉ keywords := by
  intro ht
  obtain ⟨k, hk, ⟨hpre, hne⟩ | hnul⟩ := h
  · exact hne (keywords_apart text ht k hk hpre)
  · exact keywords_no_nul text ht (hnul.subset (by simp))

theorem takenFor_of_clear (h : ¬ Misread text) {k : List UInt8} (hk : k ∈ keywords) :
    TakenFor text k ↔ text = k := by
  constructor
  · rintro (hpre | hnul)
    · by_contra hne
      exact h ⟨k, hk, Or.inl ⟨hpre, hne⟩⟩
    · exact absurd ⟨k, hk, Or.inr hnul⟩ h
  · intro he
    exact Or.inl (he ▸ List.prefix_refl text)

theorem taken_of_clear (h : ¬ Misread text) (cmd : MqttCommand) :
    (∃ k ∈ spellings cmd, TakenFor text k) ↔ text ∈ spellings cmd := by
  constructor
  · intro hk
    obtain ⟨k, hk, ht⟩ := hk
    rw [takenFor_of_clear h (spelling_keyword hk)] at ht
    exact ht ▸ hk
  · intro ht
    exact ⟨text, ht, Or.inl (List.prefix_refl text)⟩

/-- A text taken for some keyword asks for one of the three commands. -/
theorem taken_parses {k : List UInt8} (hk : k ∈ keywords) (ht : TakenFor text k)
    (rest : List UInt8) :
    ∃ cmd ∈ [MqttCommand.status, .reset, .estop],
      parseMqttCommand (text ++ rest) text.length = some cmd := by
  rw [parse_text]
  by_cases hstatus : ∃ k ∈ spellings .status, TakenFor text k
  · exact ⟨.status, by simp, if_pos hstatus⟩
  · rw [if_neg hstatus]
    by_cases hreset : ∃ k ∈ spellings .reset, TakenFor text k
    · exact ⟨.reset, by simp, if_pos hreset⟩
    · rw [if_neg hreset]
      have hestop : ∃ k ∈ spellings .estop, TakenFor text k := by
        rcases List.mem_append.mp hk with hk | hk
        · rcases List.mem_append.mp hk with hk | hk
          · exact absurd ⟨k, hk, ht⟩ hstatus
          · exact absurd ⟨k, hk, ht⟩ hreset
        · exact ⟨k, hk, ht⟩
      exact ⟨.estop, by simp, if_pos hestop⟩

/-- A floor request is taken for no keyword. -/
theorem floor_not_taken (s : List UInt8) : ¬ ∃ k ∈ keywords, TakenFor (ascii "floor:" ++ s) k := by
  intro h
  obtain ⟨k, hk, ht⟩ := h
  have hhead : ∀ k ∈ keywords, k.head? ≠ some 0x66 := by decide
  cases k with
  | nil => exact keywords_nonempty [] hk rfl
  | cons c k =>
    have hc : c ≠ 0x66 := fun he => hhead _ hk (by rw [he]; rfl)
    rcases ht with ⟨d, hd⟩ | ⟨d, hd⟩
    · exact hc (List.cons.inj hd).1.symm
    · exact hc (List.cons.inj hd).1

theorem parse_floor (s rest : List UInt8) :
    parseMqttCommand (ascii "floor:" ++ s ++ rest) (ascii "floor:" ++ s).length =
      if s = [] then none else some (.floor (UInt8.ofInt (atoi (s ++ rest)))) := by
  have hno : ∀ cmd, ¬ ∃ k ∈ spellings cmd, TakenFor (ascii "floor:" ++ s) k := by
    intro cmd h
    obtain ⟨k, hk, ht⟩ := h
    exact floor_not_taken s ⟨k, spelling_keyword hk, ht⟩
  rw [parse_text, if_neg (hno _), if_neg (hno _), if_neg (hno _)]
  have hdrop : (ascii "floor:" ++ s).drop 6 = s := rfl
  have hform : FloorForm (ascii "floor:" ++ s) ↔ s ≠ [] := by
    rw [FloorForm, List.length_append, ← List.length_pos_iff]
    have : (ascii "floor:").length = 6 := rfl
    exact ⟨fun h => by omega, fun h => ⟨List.prefix_append _ _, by omega⟩⟩
  rw [hdrop]
  by_cases hs : s = []
  · rw [if_neg (fun h => hform.mp h hs), if_pos hs]
  · rw [if_pos (hform.mpr hs), if_neg hs]

/-- Nothing is recognised in a text that is taken for no keyword and asks for no floor. -/
theorem parse_none_iff (text rest : List UInt8) :
    parseMqttCommand (text ++ rest) text.length = none ↔
      (¬ ∃ k ∈ keywords, TakenFor text k) ∧ ¬ FloorForm text := by
  constructor
  · intro h
    have hno : ¬ ∃ k ∈ keywords, TakenFor text k := by
      intro ht
      obtain ⟨k, hk, ht⟩ := ht
      obtain ⟨cmd, _, hp⟩ := taken_parses hk ht rest
      cases h.symm.trans hp
    refine ⟨hno, fun hf => ?_⟩
    obtain ⟨n, rfl⟩ := hf.1
    have hn : n ≠ [] := by
      intro hnil
      subst hnil
      exact absurd hf.2 (by decide)
    rw [parse_floor, if_neg hn] at h
    cases h
  · intro h
    obtain ⟨hno, hf⟩ := h
    have hspell : ∀ cmd, ¬ ∃ k ∈ spellings cmd, TakenFor text k :=
      fun cmd ⟨k, hk, ht⟩ => hno ⟨k, spelling_keyword hk, ht⟩
    rw [parse_text, if_neg (hspell _), if_neg (hspell _), if_neg (hspell _), if_neg hf]

/-- The spellings of different commands differ. -/
theorem spellings_apart : ∀ a ∈ [MqttCommand.status, .reset, .estop],
    ∀ b ∈ [MqttCommand.status, .reset, .estop],
    ∀ k ∈ spellings a, k ∈ spellings b → a = b := by decide

theorem parse_spelling {text : List UInt8} (h : ¬ Misread text) (rest : List UInt8)
    {cmd : MqttCommand} (hcmd : cmd ∈ [MqttCommand.status, .reset, .estop])
    (ht : text ∈ spellings cmd) :
    parseMqttCommand (text ++ rest) text.length = some cmd := by
  rw [parse_text]
  simp only [taken_of_clear h]
  have hapart : ∀ c ∈ [MqttCommand.status, .reset, .estop], c ≠ cmd → text ∉ spellings c :=
    fun c hc hne hin => hne (spellings_apart c hc cmd hcmd text hin ht)
  cases cmd with
  | floor n => cases ht
  | status => rw [if_pos ht]
  | reset => rw [if_neg (hapart .status (by simp) (by simp)), if_pos ht]
  | estop =>
    rw [if_neg (hapart .status (by simp) (by simp)), if_neg (hapart .reset (by simp) (by simp)),
      if_pos ht]

theorem parse_other {text : List UInt8} (h : ¬ Misread text) (rest : List UInt8)
    (ht : text ∉ keywords) :
    parseMqttCommand (text ++ rest) text.length =
      if FloorForm text then some (.floor (UInt8.ofInt (atoi (text.drop 6 ++ rest)))) else none := by
  rw [parse_text]
  simp only [taken_of_clear h]
  have hno : ∀ cmd, text ∉ spellings cmd := fun _ hk => ht (spelling_keyword hk)
  rw [if_neg (hno _), if_neg (hno _), if_neg (hno _)]

/-- The keyword grammar is exact just for the texts that neither break off within a
keyword, the empty one included, nor go on after one with a NUL. -/
theorem keywords_exact_iff (s : Endpoint) (text rest : List UInt8) :
    KeywordsExact s text rest ↔ ¬ Misread text := by
  constructor
  · intro h hmis
    obtain ⟨k, hk, hpart⟩ := id hmis
    have htaken : TakenFor text k := by
      rcases hpart with ⟨hpre, _⟩ | hnul
      · exact Or.inl hpre
      · exact Or.inr hnul
    obtain ⟨cmd, hcmd, hp⟩ := taken_parses hk htaken rest
    have hspelled := (h.command cmd hcmd).mp ((sends_iff s text rest cmd).mpr hp)
    exact hmis.no_keyword (spelling_keyword hspelled)
  · intro h
    constructor
    · intro cmd hcmd
      rw [sends_iff]
      refine ⟨fun hp => ?_, parse_spelling h rest hcmd⟩
      by_cases ht : text ∈ keywords
      · obtain ⟨c, hc, hin⟩ : ∃ c ∈ [MqttCommand.status, .reset, .estop], text ∈ spellings c := by
          simpa [keywords, or_assoc] using ht
        have he := (parse_spelling h rest hc hin).symm.trans hp
        exact Option.some.inj he ▸ hin
      · rw [parse_other h rest ht] at hp
        split at hp
        · cases hp
          simp at hcmd
        · cases hp
    · intro ht hfloor
      rw [sends_nothing_iff, parse_other h rest ht, if_neg fun hf => hfloor hf.1]

/-- An empty message asks for the status. -/
theorem empty_payload_misread :
    ¬ KeywordsExact (boot fun _ => 0) [] [] := by
  intro h
  have hp : parseMqttCommand [] 0 = some .status := by decide
  have hspelled := (h.command .status (by simp)).mp ((sends_iff _ _ _ _).mpr hp)
  simp [spellings, ascii] at hspelled

end UpAndDownESP.Proofs.Grammar
