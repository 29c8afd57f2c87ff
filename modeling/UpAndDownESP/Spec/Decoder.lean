import UpAndDownESP.Lib.BigEndian
import UpAndDownESP.Lib.Reader
import UpAndDownESP.TinyFrame.State

namespace UpAndDownESP.Spec
open BigEndian

/-! How a message is said, and what a string of bytes says, read as a whole. -/

/-- ID, type and payload. -/
abbrev Message := UInt8 × UInt8 × List UInt8

def word (hi lo : UInt8) : UInt16 := collect16 (collect16 0 hi) lo

/-- The two bytes of a number, the high one first. -/
def pair (x : UInt16) : List UInt8 := [(x >>> 8).toUInt8, x.toUInt8]

/-- The one way to say a message: SOF, ID, length and type with their checksum, then the
payload, if there is one, with its own. -/
def frame : Message → List UInt8
  | (id, type, payload) =>
    let head := [0x01, id, UInt8.ofNat (payload.length / 256), UInt8.ofNat payload.length, type]
    head ++ pair (cksum head) ++ if payload = [] then [] else payload ++ pair (cksum payload)

/-- The payload and its checksum at the front of a string. A payload that is too long
for a receiver or does not match its checksum says nothing. -/
def readBody (id type : UInt8) (len : Nat) (bs : List UInt8) :
    Option (Option Message × List UInt8) :=
  match bs.drop len with
  | hi :: lo :: rest =>
    let payload := bs.take len
    some (if len ≤ tfMaxPayloadRx ∧ cksum payload = word hi lo then some (id, type, payload)
      else none, rest)
  | _ => none

/-- What follows a SOF byte. A head that does not match its checksum says nothing,
and the payload it may have announced is read as if there had been no head. -/
def readFrame : List UInt8 → Option (Option Message × List UInt8)
  | id :: l₁ :: l₀ :: type :: k₁ :: k₀ :: rest =>
    if cksum [tfSofByte, id, l₁, l₀, type] ≠ word k₁ k₀ then some (none, rest)
    else if word l₁ l₀ = 0 then some (some (id, type, []), rest)
    else readBody id type (word l₁ l₀).toNat rest
  | _ => none

/-- A byte that is not SOF says nothing by itself. -/
def readItem : List UInt8 → Option (Option Message × List UInt8)
  | [] => none
  | c :: bs => if c = tfSofByte then readFrame bs else some (none, bs)

theorem readBody_some {id type : UInt8} {len : Nat} {bs rest : List UInt8} {v : Option Message}
    (h : readBody id type len bs = some (v, rest)) :
    ∃ hi lo, bs = bs.take len ++ hi :: lo :: rest ∧ (bs.take len).length = len ∧
      v = if len ≤ tfMaxPayloadRx ∧ cksum (bs.take len) = word hi lo
        then some (id, type, bs.take len) else none := by
  unfold readBody at h
  split at h
  · rename_i hi lo rest' hd
    simp only [Option.some.injEq, Prod.mk.injEq] at h
    obtain ⟨rfl, rfl⟩ := h
    refine ⟨hi, lo, ?_, ?_, rfl⟩
    · rw [← hd, List.take_append_drop]
    · have hlen := congrArg List.length hd
      simp only [List.length_drop, List.length_cons] at hlen
      rw [List.length_take]
      omega
  · cases h

theorem readBody_append (id type : UInt8) (payload : List UInt8) (hi lo : UInt8)
    (rest : List UInt8) :
    readBody id type payload.length (payload ++ hi :: lo :: rest) =
      some (if payload.length ≤ tfMaxPayloadRx ∧ cksum payload = word hi lo
        then some (id, type, payload) else none, rest) := by
  simp only [readBody, List.drop_left, List.take_left]

theorem readBody_stable {id type : UInt8} {len : Nat} {bs rest : List UInt8} {v : Option Message}
    (cs : List UInt8) (h : readBody id type len bs = some (v, rest)) :
    readBody id type len (bs ++ cs) = some (v, rest ++ cs) := by
  obtain ⟨hi, lo, hbs, hlen, rfl⟩ := readBody_some h
  have hget := readBody_append id type (bs.take len) hi lo (rest ++ cs)
  rw [hlen] at hget
  rw [← hget]
  apply congrArg (readBody id type len)
  conv => lhs; rw [hbs]
  rw [List.append_assoc]
  rfl

theorem readFrame_head (id l₁ l₀ type k₁ k₀ : UInt8) (rest : List UInt8) :
    readFrame (id :: l₁ :: l₀ :: type :: k₁ :: k₀ :: rest) =
      if cksum [tfSofByte, id, l₁, l₀, type] ≠ word k₁ k₀ then some (none, rest)
      else if word l₁ l₀ = 0 then some (some (id, type, []), rest)
      else readBody id type (word l₁ l₀).toNat rest := rfl

/-- A frame that ends has a whole head. -/
theorem readFrame_some {bs rest : List UInt8} {v : Option Message}
    (h : readFrame bs = some (v, rest)) :
    ∃ id l₁ l₀ type k₁ k₀ body, bs = id :: l₁ :: l₀ :: type :: k₁ :: k₀ :: body := by
  unfold readFrame at h
  split at h
  · exact ⟨_, _, _, _, _, _, _, rfl⟩
  · cases h

theorem readFrame_shorter {bs rest : List UInt8} {v : Option Message}
    (h : readFrame bs = some (v, rest)) : rest.length < bs.length := by
  obtain ⟨id, l₁, l₀, type, k₁, k₀, body, rfl⟩ := readFrame_some h
  have hle : rest.length ≤ body.length := by
    rw [readFrame_head] at h
    split at h
    · cases h
      exact Nat.le_refl _
    · split at h
      · cases h
        exact Nat.le_refl _
      · obtain ⟨hi, lo, hbs, -, -⟩ := readBody_some h
        have := congrArg List.length hbs
        simp only [List.length_append, List.length_cons] at this
        omega
  simp only [List.length_cons]
  omega

theorem readFrame_stable {bs rest : List UInt8} {v : Option Message} (cs : List UInt8)
    (h : readFrame bs = some (v, rest)) : readFrame (bs ++ cs) = some (v, rest ++ cs) := by
  obtain ⟨id, l₁, l₀, type, k₁, k₀, body, rfl⟩ := readFrame_some h
  simp only [List.cons_append, readFrame_head] at h ⊢
  split at h
  · rename_i hbad
    cases h
    rw [if_pos hbad]
  · rename_i hgood
    rw [if_neg hgood]
    split at h
    · rename_i hz
      cases h
      rw [if_pos hz]
    · rename_i hz
      rw [if_neg hz]
      exact readBody_stable cs h

theorem readItem_cons (c : UInt8) (bs : List UInt8) :
    readItem (c :: bs) = if c = tfSofByte then readFrame bs else some (none, bs) := rfl

def reader : Reader UInt8 Message where
  read := readItem
  shorter := by
    intro bs v rest h
    cases bs with
    | nil => cases h
    | cons c bs =>
      rw [readItem_cons] at h
      split at h
      · exact Nat.lt_succ_of_lt (readFrame_shorter h)
      · cases h
        exact Nat.lt_succ_self _
  stable := by
    intro bs v rest cs h
    cases bs with
    | nil => cases h
    | cons c bs =>
      rw [readItem_cons] at h
      rw [List.cons_append, readItem_cons]
      split at h
      · rename_i hc
        rw [if_pos hc]
        exact readFrame_stable cs h
      · rename_i hc
        cases h
        rw [if_neg hc]

theorem reader_read (bs : List UInt8) : reader.read bs = readItem bs := rfl

/-- The messages in a string of bytes. -/
def decode (bs : List UInt8) : List Message := reader.decode bs

/-- What has been said is not taken back, whatever comes after. -/
theorem decode_prefix (bs cs : List UInt8) : decode bs <+: decode (bs ++ cs) :=
  ⟨reader.decode (reader.leftover bs ++ cs), (reader.decode_append bs cs).symm⟩

/-- The bytes of a history of bytes and ticks, cut where one comes fifty ticks or more
after the one before it; `k` ticks have passed since the last byte. -/
def segments : Nat → List (Option UInt8) → List (List UInt8)
  | _, [] => [[]]
  | k, none :: is => segments (k + 1) is
  | k, some c :: is =>
    let joined := (c :: (segments 0 is).headD []) :: (segments 0 is).tail
    if k < tfParserTimeoutTicks then joined else [] :: joined

end UpAndDownESP.Spec
