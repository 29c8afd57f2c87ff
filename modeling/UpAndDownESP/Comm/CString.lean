import Mathlib.Data.List.TakeWhile

namespace UpAndDownESP

/-! The C library functions the firmware uses on text. A pointer to text is the
list of the bytes from there on; past its end stands NUL. -/

/-- The bytes of an ASCII literal. -/
def ascii (s : String) : List UInt8 := s.toList.map fun c => UInt8.ofNat c.toNat

/-- `strncmp`: at most `n` bytes, up to the first difference or NUL. -/
def strncmp : List UInt8 → List UInt8 → Nat → Int
  | _, _, 0 => 0
  | s, t, n + 1 =>
    let a := s.headD 0
    let b := t.headD 0
    if a ≠ b then (a.toNat : Int) - b.toNat
    else if a = 0 then 0
    else strncmp s.tail t.tail n

/-- The text that a C string function sees in `n` bytes of memory. -/
def cText (s : List UInt8) (n : Nat) : List UInt8 := (s.take n).takeWhile (· ≠ 0)

theorem cText_succ (s : List UInt8) (n : Nat) :
    cText s (n + 1) = if s.headD 0 = 0 then [] else s.headD 0 :: cText s.tail n := by
  cases s with
  | nil => rfl
  | cons c s =>
    by_cases h : c = 0
    · simp [cText, h]
    · simp [cText, h]

/-- Equal to `strncmp` is equal as text. -/
theorem strncmp_eq_zero (s t : List UInt8) (n : Nat) :
    strncmp s t n = 0 ↔ cText s n = cText t n := by
  induction n generalizing s t with
  | zero => simp [strncmp, cText]
  | succ n ih =>
    rw [cText_succ, cText_succ]
    simp only [strncmp]
    by_cases hne : s.headD 0 = t.headD 0
    · rw [if_neg (not_not_intro hne), hne]
      by_cases hz : t.headD 0 = 0
      · rw [if_pos hz, if_pos hz, if_pos hz]
        exact ⟨fun _ => rfl, fun _ => rfl⟩
      · rw [if_neg hz, if_neg hz, if_neg hz, ih, List.cons.injEq]
        exact ⟨fun h => ⟨rfl, h⟩, fun h => h.2⟩
    · rw [if_pos hne]
      have hdiff : ((s.headD 0).toNat : Int) - (t.headD 0).toNat ≠ 0 := by
        intro h
        apply hne
        apply UInt8.toNat_inj.mp
        omega
      refine ⟨fun h => absurd h hdiff, fun h => ?_⟩
      split at h
      · rename_i hz
        split at h
        · rename_i hz'
          exact absurd (hz.trans hz'.symm) hne
        · cases h
      · split at h
        · cases h
        · exact absurd (List.cons.inj h).1 hne

theorem takeWhile_no_nul {s : List UInt8} (h : 0 ∉ s) : s.takeWhile (· ≠ 0) = s := by
  apply List.takeWhile_eq_self_iff.mpr
  intro c hc
  have : c ≠ 0 := fun hz => h (hz ▸ hc)
  simpa using this

/-- A comparison of a whole buffer with a keyword, bounded by the buffer's own length,
accepts what the keyword begins with, and the keyword with a NUL after it. -/
theorem strncmp_keyword {keyword : List UInt8} (hk : 0 ∉ keyword) (text rest : List UInt8) :
    strncmp (text ++ rest) keyword text.length = 0 ↔
      text <+: keyword ∨ keyword ++ [0] <+: text := by
  have hkey : cText keyword text.length = keyword.take text.length :=
    takeWhile_no_nul fun h => hk (List.mem_of_mem_take h)
  have htext : cText (text ++ rest) text.length = text.takeWhile (· ≠ 0) := by
    rw [cText, List.take_left]
  rw [strncmp_eq_zero, hkey, htext]
  constructor
  · intro h
    have hsplit : text.takeWhile (· ≠ 0) ++ text.dropWhile (· ≠ 0) = text :=
      List.takeWhile_append_dropWhile
    rw [h] at hsplit
    cases hd : text.dropWhile (· ≠ 0) with
    | nil =>
      rw [hd, List.append_nil] at hsplit
      exact Or.inl (List.prefix_iff_eq_take.mpr hsplit.symm)
    | cons c d =>
      -- the text goes on after a NUL, so the whole keyword stands before it
      have hc : c = 0 := by
        have hstop := List.head?_dropWhile_not (fun c : UInt8 => decide (c ≠ 0)) text
        rw [hd] at hstop
        simpa using hstop
      have hlen := congrArg List.length hsplit
      rw [hd, List.length_append, List.length_take, List.length_cons] at hlen
      have hall : keyword.take text.length = keyword := List.take_of_length_le (by omega)
      rw [hd, hall, hc] at hsplit
      exact Or.inr ⟨d, by rw [← hsplit]; simp⟩
  · intro h
    rcases h with h | ⟨d, rfl⟩
    · rw [takeWhile_no_nul fun hz => hk (h.subset hz)]
      exact List.prefix_iff_eq_take.mp h
    · have hkw : ∀ c ∈ keyword, decide (c ≠ 0) = true := by
        intro c hc
        have : c ≠ 0 := fun hz => hk (hz ▸ hc)
        simpa using this
      rw [List.append_assoc, List.takeWhile_append_of_pos hkw]
      simp [List.take_of_length_le]

def isSpace (c : UInt8) : Bool := c == 0x20 || (0x09 ≤ c && c ≤ 0x0d)

def isDigit (c : UInt8) : Bool := 0x30 ≤ c && c ≤ 0x39

/-- The value of the leading decimal digits. -/
def digitsValue (acc : Nat) : List UInt8 → Nat
  | [] => acc
  | c :: s => if isDigit c then digitsValue (acc * 10 + (c.toNat - 0x30)) s else acc

/-- `atoi` of newlib: `strtol` in base 10 into the 32-bit `long` of the target, which
saturates. -/
def atoi (s : List UInt8) : Int :=
  let s := s.dropWhile isSpace
  let negative := s.head? == some 0x2d
  let s := if s.head? = some 0x2d ∨ s.head? = some 0x2b then s.tail else s
  let n : Int := digitsValue 0 s
  if negative then max (-n) (-2147483648) else min n 2147483647

/-- The parts of the text that `atoi` reads: a minus sign, and what follows the sign. -/
def isNegative (s : List UInt8) : Bool := (s.dropWhile isSpace).head? == some 0x2d

def unsignedPart (s : List UInt8) : List UInt8 :=
  let s := s.dropWhile isSpace
  if s.head? = some 0x2d ∨ s.head? = some 0x2b then s.tail else s

def saturate (negative : Bool) (n : Nat) : Int :=
  if negative then max (-n : Int) (-2147483648) else min n 2147483647

theorem atoi_eq (s : List UInt8) :
    atoi s = saturate (isNegative s) (digitsValue 0 (unsignedPart s)) := rfl

/-- Digits are read on into what follows them; after anything else it does not matter. -/
theorem digitsValue_append (acc : Nat) (s t : List UInt8) :
    digitsValue acc (s ++ t) =
      if s.all isDigit then digitsValue (digitsValue acc s) t else digitsValue acc s := by
  induction s generalizing acc with
  | nil => rfl
  | cons c s ih =>
    by_cases hc : isDigit c
    · simp [digitsValue, hc, ih]
    · simp [digitsValue, hc]

theorem digitsValue_stop {t : List UInt8} (h : isDigit (t.headD 0) = false) (acc : Nat) :
    digitsValue acc t = acc := by
  cases t with
  | nil => rfl
  | cons c t =>
    rw [List.headD_cons] at h
    simp [digitsValue, h]

/-- The value grows tenfold with the next digit, and never shrinks. -/
theorem digitsValue_grows (acc : Nat) (t : List UInt8) (h : isDigit (t.headD 0) = true) :
    10 * acc ≤ digitsValue acc t := by
  have hle : ∀ (t : List UInt8) (acc : Nat), acc ≤ digitsValue acc t := by
    intro t
    induction t with
    | nil => exact fun acc => Nat.le_refl acc
    | cons c t ih =>
      intro acc
      simp only [digitsValue]
      split
      · exact Nat.le_trans (by omega) (ih _)
      · exact Nat.le_refl acc
  cases t with
  | nil => cases h
  | cons c t =>
    rw [List.headD_cons] at h
    simp only [digitsValue, h, if_true]
    exact Nat.le_trans (by omega) (hle t _)

/-- What `printf` writes for an unsigned number. -/
def decimal (n : Nat) : List UInt8 := (Nat.toDigits 10 n).map fun c => UInt8.ofNat c.toNat

/-- The text left in a buffer by `snprintf`, without its NUL. -/
def snprintf (size : Nat) (text : String) : String :=
  if text.length < size then text else String.ofList (text.toList.take (size - 1))

end UpAndDownESP
