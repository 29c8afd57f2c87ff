import UpAndDownESP.Proofs.Grammar

namespace UpAndDownESP.Proofs.Floor
open Commands Grammar

/-- The value of a string of decimal digits. -/
def decimalValue (s : List UInt8) : Nat := s.foldl (fun n c => 10 * n + (c.toNat - 0x30)) 0

/-- A non-empty string of decimal digits whose value fits a byte. -/
def IsFloor (s : List UInt8) : Prop :=
  s ≠ [] ∧ (∀ c ∈ s, isDigit c = true) ∧ decimalValue s ≤ 255

theorem digit_bounds {c : UInt8} : isDigit c = true ↔ 0x30 ≤ c.toNat ∧ c.toNat ≤ 0x39 := by
  simp only [isDigit, Bool.and_eq_true, decide_eq_true_eq, UInt8.le_iff_toNat_le]
  rfl

/-- A digit is neither blank nor a sign. -/
theorem digit_plain {c : UInt8} (h : isDigit c = true) :
    isSpace c = false ∧ c ≠ 0x2d ∧ c ≠ 0x2b := by
  obtain ⟨hlo, hhi⟩ := digit_bounds.mp h
  refine ⟨?_, ?_, ?_⟩
  · simp only [isSpace, Bool.or_eq_false_iff, beq_eq_false_iff_ne, Bool.and_eq_false_iff,
      decide_eq_false_iff_not, UInt8.le_iff_toNat_le]
    refine ⟨fun he => ?_, Or.inr fun hle => ?_⟩
    · rw [he] at hlo
      exact absurd hlo (by decide)
    · have : (0x0d : UInt8).toNat = 13 := rfl
      omega
  · intro he
    rw [he] at hlo
    exact absurd hlo (by decide)
  · intro he
    rw [he] at hlo
    exact absurd hlo (by decide)

theorem digitsValue_digits {s : List UInt8} (h : ∀ c ∈ s, isDigit c = true) :
    digitsValue 0 s = decimalValue s := by
  have hfold : ∀ (s : List UInt8) (acc : Nat), (∀ c ∈ s, isDigit c = true) →
      digitsValue acc s = s.foldl (fun n c => 10 * n + (c.toNat - 0x30)) acc := by
    intro s
    induction s with
    | nil => exact fun _ _ => rfl
    | cons c s ih =>
      intro acc h
      rw [digitsValue, if_pos (h c (by simp)), ih _ fun d hd => h d (by simp [hd]),
        List.foldl_cons, Nat.mul_comm]
  exact hfold s 0 h

/-! ### Where a number ends -/

/-- What `atoi` makes of a buffer whose first part is not all blank: sign and digits
start there. -/
theorem atoi_append {s : List UInt8} (h : s.dropWhile isSpace ≠ []) (rest : List UInt8) :
    atoi (s ++ rest) = saturate (isNegative s) (digitsValue 0 (unsignedPart s ++ rest)) := by
  have hdrop : (s ++ rest).dropWhile isSpace = s.dropWhile isSpace ++ rest := by
    rw [List.dropWhile_append, if_neg]
    simpa using h
  have hhead : (s.dropWhile isSpace ++ rest).head? = (s.dropWhile isSpace).head? :=
    List.head?_append_of_ne_nil _ h
  rw [atoi_eq]
  simp only [isNegative, unsignedPart, hdrop, hhead]
  split
  · rw [List.tail_append_of_ne_nil h]
  · rfl

theorem atoi_blank {s : List UInt8} (h : s.dropWhile isSpace = []) (rest : List UInt8) :
    atoi (s ++ rest) = atoi rest := by
  have hdrop : (s ++ rest).dropWhile isSpace = rest.dropWhile isSpace := by
    rw [List.dropWhile_append, if_pos]
    simp [h]
  rw [atoi_eq, atoi_eq]
  simp only [isNegative, unsignedPart, hdrop]

/-- `atoi` of a buffer that starts with a digit. -/
theorem atoi_digit {s : List UInt8} (h : isDigit (s.headD 0) = true) :
    atoi s = saturate false (digitsValue 0 s) := by
  cases s with
  | nil => cases h
  | cons c s =>
    rw [List.headD_cons] at h
    obtain ⟨hspace, hminus, hplus⟩ := digit_plain h
    have hdrop : (c :: s).dropWhile isSpace = c :: s := by simp [hspace]
    have hno : (c == 0x2d) = false := beq_eq_false_iff_ne.mpr hminus
    rw [atoi_eq]
    simp only [isNegative, unsignedPart, hdrop]
    simp [hminus, hplus, hno]

/-! ### Floor requests -/

/-- The handler of `floor:s` asks for a move. -/
def Moves (s : Endpoint) (text rest : List UInt8) (cmd : CmdRequest) : Prop :=
  cmd.cmdId = cmdMoveToFloor ∧ Sends s (ascii "floor:" ++ text) rest (msgTypeCmd, cmd.bytes)

/-- A move is asked for just when a floor is written, and it is that floor; everything
else written asks for nothing. -/
structure FloorExact (s : Endpoint) (text rest : List UInt8) : Prop where
  issued : (∃ cmd, Moves s text rest cmd) ↔ IsFloor text
  carried : IsFloor text → ∃ cmd, Moves s text rest cmd ∧ cmd.paramsLen = 1 ∧
    ∀ i (h : i < 16), cmd.params[i].toNat = if i = 0 then decimalValue text else 0
  other : ¬ IsFloor text → SendsNothing s (ascii "floor:" ++ text) rest

/-- The digits are read to the end of the payload, and no further. -/
theorem atoi_floor (h : IsFloor text) (hrest : isDigit (rest.headD 0) = false) :
    UInt8.ofInt (atoi (text ++ rest)) = UInt8.ofNat (decimalValue text) := by
  obtain ⟨hne, hdigits, hfits⟩ := h
  have hhead : isDigit ((text ++ rest).headD 0) = true := by
    cases text with
    | nil => exact absurd rfl hne
    | cons c text => exact hdigits c (by simp)
  have hall : text.all isDigit = true := List.all_eq_true.mpr hdigits
  rw [atoi_digit hhead, digitsValue_append, if_pos hall, digitsValue_stop hrest,
    digitsValue_digits hdigits]
  have hsmall : saturate false (decimalValue text) = (decimalValue text : Int) := by
    simp only [saturate, Bool.false_eq_true, if_false]
    omega
  rw [hsmall, UInt8.ofInt]
  congr 1
  omega

theorem not_nothing (h : Sends s text rest frame) : ¬ SendsNothing s text rest := by
  intro hn
  simpa using h.symm.trans hn

/-- A floor command carries the floor that was written just when nothing was written
after the colon, or decimal digits only with a value that fits a byte. -/
theorem floor_exact_iff (s : Endpoint) (text rest : List UInt8)
    (hrest : isDigit (rest.headD 0) = false) :
    FloorExact s text rest ↔ text = [] ∨ IsFloor text := by
  have hparse := parse_floor text rest
  constructor
  · intro h
    by_contra hno
    obtain ⟨hne, hfloor⟩ := not_or.mp hno
    rw [if_neg hne, ← sends_iff s] at hparse
    exact not_nothing hparse (h.other hfloor)
  · intro h
    by_cases hne : text = []
    · subst hne
      rw [if_pos rfl, ← sends_nothing_iff s] at hparse
      have hno : ¬ IsFloor [] := fun hf => hf.1 rfl
      refine ⟨⟨fun hm => ?_, fun hf => absurd hf hno⟩, fun hf => absurd hf hno, fun _ => hparse⟩
      obtain ⟨cmd, _, hsends⟩ := hm
      exact absurd hparse (not_nothing hsends)
    · have hf : IsFloor text := h.resolve_left hne
      rw [if_neg hne, atoi_floor hf hrest, ← sends_iff s] at hparse
      have hmoves : Moves s text rest (moveToFloorCmd (UInt8.ofNat (decimalValue text))) :=
        ⟨rfl, hparse⟩
      refine ⟨⟨fun _ => hf, fun _ => ⟨_, hmoves⟩⟩, fun _ => ⟨_, hmoves, rfl, ?_⟩,
        fun hn => absurd hf hn⟩
      intro i hi
      have hfits := hf.2.2
      by_cases hz : i = 0
      · subst hz
        simp only [moveToFloorCmd, Vector.getElem_set_self, UInt8.toNat_ofNat', if_true]
        omega
      · rw [if_neg hz, moveToFloorCmd, Vector.getElem_set_ne (h := Ne.symm hz)]
        simp

/-- Floor 12 goes out as floor 12. -/
theorem floor_twelve_exact : FloorExact (boot fun _ => 0) (ascii "12") [] :=
  (floor_exact_iff _ _ [] (by decide)).mpr (Or.inr ⟨by decide, by decide +kernel, by decide⟩)

/-- `floor:256` asks for floor 0. -/
theorem floor_256_wraps : ¬ FloorExact (boot fun _ => 0) (ascii "256") [] := by
  intro h
  have hmoves : Moves (boot fun _ => 0) (ascii "256") [] (moveToFloorCmd 0) :=
    ⟨rfl, (sends_iff _ _ _ (.floor 0)).mpr (by decide)⟩
  have hfloor := h.issued.mp ⟨_, hmoves⟩
  exact absurd hfloor.2.2 (by decide)

/-! ### What lies behind the payload -/

/-- `atoi` reads the text to its end without meeting anything that ends the number. -/
def NumberOpen (s : List UInt8) : Prop := (unsignedPart s).all isDigit = true

/-- The number read so far is past the last whose tenfold fits an `int`, and the byte
it is cast to is already that of the bound at which it will stop. -/
def Settled (s : List UInt8) : Prop :=
  let n := digitsValue 0 (unsignedPart s)
  214748365 ≤ n ∧
    if isNegative s then n % 256 = 0 ∨ 2147483648 ≤ n else n % 256 = 255 ∨ 2147483647 ≤ n

/-- A floor request whose number is open where the payload ends. -/
def LeftOpen (text : List UInt8) : Prop :=
  FloorForm text ∧ NumberOpen (text.drop 6) ∧ ¬ Settled (text.drop 6)

/-- The handler cannot tell what follows the payload in memory. -/
def OwnBytesOnly (s : Endpoint) (text : List UInt8) : Prop :=
  ∀ rest rest', maxCommOnMqttCommand (text ++ rest) text.length s =
    maxCommOnMqttCommand (text ++ rest') text.length s

theorem ofInt_eq_iff (a b : Int) : UInt8.ofInt a = UInt8.ofInt b ↔ a % 256 = b % 256 := by
  simp only [UInt8.ofInt, ← UInt8.toNat_inj, UInt8.toNat_ofNat']
  omega

/-- A number that has come to its end within the text is read the same whatever follows. -/
theorem atoi_closed {s : List UInt8} (h : ¬ NumberOpen s) (rest : List UInt8) :
    atoi (s ++ rest) = atoi s := by
  unfold NumberOpen at h
  have hne : s.dropWhile isSpace ≠ [] := by
    intro hnil
    apply h
    simp [unsignedPart, hnil]
  rw [atoi_append hne, digitsValue_append, if_neg h, atoi_eq]

/-- An open number goes on with the digits that follow. -/
theorem atoi_open {s : List UInt8} (h : NumberOpen s) {rest : List UInt8}
    (hrest : s.dropWhile isSpace ≠ [] ∨ isDigit (rest.headD 0) = true) :
    atoi (s ++ rest) =
      saturate (isNegative s) (digitsValue (digitsValue 0 (unsignedPart s)) rest) := by
  unfold NumberOpen at h
  by_cases hne : s.dropWhile isSpace = []
  · have hdigit := hrest.resolve_left (not_not_intro hne)
    rw [atoi_blank hne, atoi_digit hdigit]
    simp [isNegative, unsignedPart, hne, digitsValue]
  · rw [atoi_append hne, digitsValue_append, if_pos h]

/-- Once settled, the byte stays what it is. -/
theorem settled_byte {s : List UInt8} (hopen : NumberOpen s) (h : Settled s)
    (rest : List UInt8) :
    UInt8.ofInt (atoi (s ++ rest)) = UInt8.ofInt (atoi s) := by
  obtain ⟨hbig, hbyte⟩ := h
  have hne : s.dropWhile isSpace ≠ [] := by
    intro hnil
    simp [unsignedPart, hnil, digitsValue] at hbig
  rw [atoi_open hopen (Or.inl hne), atoi_eq, ofInt_eq_iff]
  by_cases hdigit : isDigit (rest.headD 0) = true
  · have hgrow := digitsValue_grows (digitsValue 0 (unsignedPart s)) rest hdigit
    simp only [saturate]
    split at hbyte
    · rename_i hneg
      rw [if_pos hneg, if_pos hneg]
      omega
    · rename_i hneg
      rw [if_neg hneg, if_neg hneg]
      omega
  · rw [digitsValue_stop (by simpa using hdigit)]

/-- Two memories for which an open, unsettled number gives different bytes. -/
theorem open_differs {s : List UInt8} (hopen : NumberOpen s) (h : ¬ Settled s) :
    ∃ rest rest', UInt8.ofInt (atoi (s ++ rest)) ≠ UInt8.ofInt (atoi (s ++ rest')) := by
  have hread : ∀ d : UInt8, isDigit d = true →
      atoi (s ++ [d]) = saturate (isNegative s)
        (digitsValue 0 (unsignedPart s) * 10 + (d.toNat - 0x30)) := by
    intro d hd
    have hhead : isDigit ([d].headD 0) = true := hd
    rw [atoi_open hopen (Or.inr hhead)]
    simp [digitsValue, hd]
  by_cases hsmall : digitsValue 0 (unsignedPart s) ≤ 214748364
  · -- a further `0` and a further `1` give numbers in range that differ by one
    refine ⟨[0x30], [0x31], ?_⟩
    rw [hread _ (by decide), hread _ (by decide), ne_eq, ofInt_eq_iff]
    have hz : (0x30 : UInt8).toNat = 48 := rfl
    have ho : (0x31 : UInt8).toNat = 49 := rfl
    simp only [saturate, hz, ho]
    split <;> omega
  · -- any further digit saturates, and the number as it stands does not
    refine ⟨[], [0x30], ?_⟩
    rw [hread _ (by decide), List.append_nil, atoi_eq, ne_eq, ofInt_eq_iff]
    have hunsettled := not_and.mp h (by omega)
    simp only [saturate]
    split at hunsettled
    · rename_i hneg
      rw [if_pos hneg, if_pos hneg]
      omega
    · rename_i hneg
      rw [if_neg hneg, if_neg hneg]
      omega

/-- The parser cannot tell the memories apart unless it reads an open number. -/
theorem parse_own_bytes (h : ¬ LeftOpen text) (rest : List UInt8) :
    parseMqttCommand (text ++ rest) text.length = parseMqttCommand text text.length := by
  have hnil := parse_text text []
  rw [List.append_nil] at hnil
  rw [parse_text, hnil, List.append_nil]
  by_cases hf : FloorForm text
  · have hbyte : UInt8.ofInt (atoi (text.drop 6 ++ rest)) = UInt8.ofInt (atoi (text.drop 6)) := by
      by_cases hopen : NumberOpen (text.drop 6)
      · by_cases hsettled : Settled (text.drop 6)
        · exact settled_byte hopen hsettled rest
        · exact absurd ⟨hf, hopen, hsettled⟩ h
      · rw [atoi_closed hopen]
    rw [hbyte]
  · simp only [if_neg hf]

/-- The effect of a command depends on its own bytes only, except just for the floor
requests whose number is open where the payload ends. -/
theorem own_bytes_iff (s : Endpoint) (text : List UInt8) :
    OwnBytesOnly s text ↔ ¬ LeftOpen text := by
  constructor
  · rintro h ⟨hform, hopen, hsettled⟩
    obtain ⟨rest, rest', hdiff⟩ := open_differs hopen hsettled
    obtain ⟨n, hn⟩ : ∃ n, text = ascii "floor:" ++ n := ⟨_, hform.1.choose_spec.symm⟩
    have hdrop : text.drop 6 = n := by rw [hn]; rfl
    have hne : n ≠ [] := by
      intro hnil
      have := hform.2
      rw [hn, hnil] at this
      exact absurd this (by decide)
    have hreq := congrArg requests (h rest rest')
    rw [onMqttCommand_requests, onMqttCommand_requests, hn, parse_floor, parse_floor,
      if_neg hne, if_neg hne] at hreq
    have hsame := request_injective (List.cons.inj (List.append_cancel_left hreq)).1
    rw [hdrop] at hdiff
    exact hdiff (MqttCommand.floor.inj hsame)
  · intro h rest rest'
    simp only [maxCommOnMqttCommand, parse_own_bytes h]

/-- With `2` left behind it by an earlier message, `floor:1` asks for floor 12. -/
theorem floor_reads_on : ¬ OwnBytesOnly (boot fun _ => 0) (ascii "floor:1") := by
  intro h
  have hreq := congrArg requests (h [] (ascii "2"))
  rw [onMqttCommand_requests, onMqttCommand_requests] at hreq
  have hone : parseMqttCommand (ascii "floor:1" ++ []) (ascii "floor:1").length = some (.floor 1) := by
    decide
  have htwelve : parseMqttCommand (ascii "floor:1" ++ ascii "2") (ascii "floor:1").length =
      some (.floor 12) := by decide
  rw [hone, htwelve] at hreq
  have hsame := request_injective (List.cons.inj (List.append_cancel_left hreq)).1
  exact absurd hsame (by decide)

end UpAndDownESP.Proofs.Floor
