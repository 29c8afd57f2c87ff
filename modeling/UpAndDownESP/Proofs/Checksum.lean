import UpAndDownESP.Lib.BigEndian
import UpAndDownESP.Lib.ShiftRegister
import UpAndDownESP.TinyFrame.Checksum
import Mathlib.Algebra.BigOperators.Fin
import Mathlib.Algebra.Group.MinimalAxioms

namespace UpAndDownESP.Proofs.Checksum
open BigEndian

/-! ### The register -/

/-- A 16-bit word under exclusive or. -/
def Word : Type := UInt16

instance : Zero Word := ⟨(0 : UInt16)⟩
instance : Add Word := ⟨fun x y => UInt16.xor x y⟩
instance : Neg Word := ⟨id⟩

instance : AddCommGroup Word where
  toAddGroup :=
    AddGroup.ofLeftAxioms (G := Word) UInt16.xor_assoc (fun _ => UInt16.zero_xor)
      (fun _ => UInt16.xor_self)
  add_comm := UInt16.xor_comm

theorem low_bit (x : UInt16) : (x &&& 1 = 1) ↔ x.toBitVec.getLsbD 0 = true := by
  rw [← UInt16.toNat_inj, UInt16.toNat_and]
  simp [BitVec.getLsbD, Nat.testBit_zero, Nat.and_one_is_mod]

theorem crcBit_xor (x y : UInt16) : crcBit (x ^^^ y) = crcBit x ^^^ crcBit y := by
  have hshift : (x ^^^ y) >>> 1 = x >>> 1 ^^^ y >>> 1 := UInt16.shiftRight_xor
  have hcancel : ∀ a b p : UInt16, a ^^^ b = (a ^^^ p) ^^^ (b ^^^ p) := by
    intro a b p
    rw [UInt16.xor_assoc, UInt16.xor_comm b p, ← UInt16.xor_assoc p p, UInt16.xor_self,
      UInt16.zero_xor]
  unfold crcBit
  simp only [low_bit, UInt16.toBitVec_xor, BitVec.getLsbD_xor, hshift]
  cases x.toBitVec.getLsbD 0
  · cases y.toBitVec.getLsbD 0
    · rfl
    · exact (UInt16.xor_assoc _ _ _)
  · cases y.toBitVec.getLsbD 0
    · change x >>> 1 ^^^ y >>> 1 ^^^ (0xA001 : UInt16) = x >>> 1 ^^^ (0xA001 : UInt16) ^^^ y >>> 1
      rw [UInt16.xor_assoc, UInt16.xor_assoc, UInt16.xor_comm (y >>> 1)]
    · exact hcancel _ _ _

/-- A shift loses nothing: the top bit of the result is the bit shifted out. -/
theorem crcBit_eq_zero {x : UInt16} (h : crcBit x = 0) : x = 0 := by
  have hlt : (x >>> 1).toNat < 0x8000 := by
    have := x.toNat_lt
    rw [UInt16.toNat_shiftRight]
    simp [Nat.shiftRight_eq_div_pow]
    omega
  unfold crcBit at h
  split at h
  · rw [UInt16.xor_eq_zero_iff.mp h] at hlt
    exact absurd hlt (by decide)
  · rename_i hlow
    rw [← UInt16.toNat_inj, UInt16.toNat_shiftRight] at h
    rw [← UInt16.toNat_inj, UInt16.toNat_and] at hlow
    apply UInt16.toNat_inj.mp
    simp [Nat.shiftRight_eq_div_pow, Nat.and_one_is_mod] at h hlow ⊢
    omega

/-- The register of `crcBit`, its input at the low bit. -/
def register : ShiftRegister Word where
  shift := { toFun := crcBit, map_zero' := rfl, map_add' := crcBit_xor }
  tap := (1 : UInt16)
  self_inverse _ := UInt16.xor_self
  injective := (injective_iff_map_eq_zero _).mpr fun _ h => crcBit_eq_zero h
  tap_ne_zero := UInt16.zero_ne_one.symm

/-! ### Parity -/

def bit (x : UInt16) (i : Nat) : ZMod 2 := if x.toBitVec.getLsbD i then 1 else 0

theorem bit_xor (x y : UInt16) (i : Nat) : bit (x ^^^ y) i = bit x i + bit y i := by
  simp only [bit, UInt16.toBitVec_xor, BitVec.getLsbD_xor]
  cases x.toBitVec.getLsbD i <;> cases y.toBitVec.getLsbD i <;> decide

/-- The number of set bits modulo 2. -/
def parity : Word →+ ZMod 2 where
  toFun x := ∑ i : Fin 16, bit x i
  map_zero' := by decide
  map_add' x y := by
    rw [← Finset.sum_add_distrib]
    exact Finset.sum_congr rfl fun i _ => bit_xor x y i

theorem parity_shiftRight (x : UInt16) : parity (x >>> 1) + bit x 0 = parity x := by
  have hnext : ∀ i, bit (x >>> 1) i = bit x (i + 1) := by
    intro i
    simp [bit, Nat.add_comm]
  have htop : bit (x >>> 1) 15 = 0 := by
    rw [hnext]
    simp [bit]
  change (∑ i : Fin 16, bit (x >>> 1) i) + bit x 0 = ∑ i : Fin 16, bit x i
  rw [Fin.sum_univ_castSucc, Fin.sum_univ_succ (n := 15)]
  simp only [Fin.val_last, htop, Fin.val_castSucc, hnext, Fin.val_zero, Fin.val_succ]
  rw [add_zero, add_comm]

/-- The polynomial has three terms below its leading one, so a shift keeps the parity. -/
theorem parity_shift (x : Word) : parity (register.shift x) = parity x := by
  have hpoly : parity ((0xA001 : UInt16) : Word) = 1 := by decide
  have hx := parity_shiftRight x
  change parity (crcBit x) = parity x
  unfold crcBit
  split
  · rename_i hlow
    have hone : bit x 0 = 1 := if_pos ((low_bit x).mp hlow)
    rw [hone] at hx
    rw [← hx, ← hpoly]
    exact map_add parity _ _
  · rename_i hlow
    have hzero : bit x 0 = 0 := if_neg fun h => hlow ((low_bit x).mpr h)
    rw [hzero, add_zero] at hx
    exact hx

/-! ### Bytes as bits -/

/-- A byte's bits in the order a UART sends them. -/
def bits (b : UInt8) : List Bool := (List.range 8).map b.toNat.testBit

@[simp] theorem bits_length (b : UInt8) : (bits b).length = 8 := by simp [bits]

theorem bits_xor (a b : UInt8) : bits (a ^^^ b) = List.zipWith xor (bits a) (bits b) := by
  simp [bits, List.zipWith_map, Nat.testBit_xor]

theorem byte_cases {P : UInt8 → Prop} (h : ∀ i : Fin 256, P (UInt8.ofFin i)) (b : UInt8) : P b :=
  h b.toFin

/-- The register after a string of bits, as a word of the code. -/
def feed (c : UInt16) (bs : List Bool) : UInt16 := register.feed c bs

theorem feed_append (c : UInt16) (as bs : List Bool) : feed c (as ++ bs) = feed (feed c as) bs :=
  register.feed_append c as bs

theorem feed_split (c : UInt16) (bs : List Bool) :
    feed c bs = crcBit^[bs.length] c ^^^ feed 0 bs :=
  register.feed_split c bs

theorem crcBit_iterate_xor (n : Nat) (x y : UInt16) :
    crcBit^[n] (x ^^^ y) = crcBit^[n] x ^^^ crcBit^[n] y :=
  iterate_map_add (M := Word) register.shift n x y

/-- A byte fed into an empty register is its eight shifts. -/
theorem feed_bits (b : UInt8) : feed 0 (bits b) = crcBit^[8] b.toUInt16 := by
  revert b
  apply byte_cases
  decide +kernel

/-- A byte in the upper half comes down in eight shifts. -/
theorem shift_upper (b : UInt8) : crcBit^[8] (b.toUInt16 <<< 8) = b.toUInt16 := by
  revert b
  apply byte_cases
  decide +kernel

theorem low_byte (x : UInt16) : (x &&& 0xff).toNat = x.toNat % 2 ^ 8 := by
  rw [UInt16.toNat_and]
  exact Nat.and_two_pow_sub_one_eq_mod x.toNat 8

theorem halves (x : UInt16) : x >>> 8 <<< 8 ^^^ (x &&& 0xff) = x := by
  apply UInt16.eq_of_toBitVec_eq
  apply BitVec.eq_of_getLsbD_eq
  intro i hi
  have h255 : (255#16).getLsbD i = decide (i < 8) := by
    rw [BitVec.getLsbD_ofNat, show (255 : Nat) = 2 ^ 8 - 1 by rfl, Nat.testBit_two_pow_sub_one]
    simp [hi]
  change ((x.toBitVec >>> 8 <<< 8) ^^^ (x.toBitVec &&& 255#16)).getLsbD i = x.toBitVec.getLsbD i
  simp only [BitVec.getLsbD_xor, BitVec.getLsbD_and, BitVec.getLsbD_shiftLeft,
    BitVec.getLsbD_ushiftRight, h255]
  by_cases h : i < 8
  · simp [h, hi]
  · simp [h, hi, show 8 + (i - 8) = i by omega]

theorem upper_byte (x : UInt16) : (x >>> 8).toUInt8.toUInt16 = x >>> 8 := by
  apply UInt16.toNat_inj.mp
  have := x.toNat_lt
  simp [Nat.shiftRight_eq_div_pow]
  omega

theorem byte_shiftRight (b : UInt8) : b.toUInt16 >>> 8 = 0 := by
  apply UInt16.toNat_inj.mp
  have := b.toNat_lt
  simp [Nat.shiftRight_eq_div_pow]
  omega

theorem table_low_byte (x : UInt16) :
    crc16Table.getD (x &&& 0xff).toNat 0 = crcBit^[8] (x &&& 0xff) := by
  have hlt : (x &&& 0xff).toNat < 256 := by
    rw [low_byte]
    exact Nat.mod_lt _ (by decide)
  have h := crc16_table_entry ⟨_, hlt⟩
  rwa [UInt16.ofNat_toNat] at h

/-- The table does eight shifts at once. -/
theorem cksumAdd_shifts (c : UInt16) (b : UInt8) :
    cksumAdd c b = crcBit^[8] (c ^^^ b.toUInt16) := by
  have hhigh : (c ^^^ b.toUInt16) >>> 8 = c >>> 8 := by
    rw [UInt16.shiftRight_xor, byte_shiftRight, UInt16.xor_zero]
  calc cksumAdd c b
      = c >>> 8 ^^^ crcBit^[8] ((c ^^^ b.toUInt16) &&& 0xff) := by rw [cksumAdd, table_low_byte]
    _ = crcBit^[8] ((c ^^^ b.toUInt16) >>> 8 <<< 8) ^^^
          crcBit^[8] ((c ^^^ b.toUInt16) &&& 0xff) := by rw [hhigh, ← upper_byte c, shift_upper]
    _ = crcBit^[8] (c ^^^ b.toUInt16) := by rw [← crcBit_iterate_xor, halves]

theorem cksumAdd_feed (c : UInt16) (b : UInt8) : cksumAdd c b = feed c (bits b) := by
  rw [feed_split, feed_bits, bits_length, ← crcBit_iterate_xor, cksumAdd_shifts]

/-- Bytes as bits in the order of the line. -/
def lineBits (bs : List UInt8) : List Bool := bs.flatMap bits

theorem lineBits_length (bs : List UInt8) : (lineBits bs).length = 8 * bs.length := by
  simp [lineBits, Nat.mul_comm]

theorem lineBits_append (as bs : List UInt8) : lineBits (as ++ bs) = lineBits as ++ lineBits bs :=
  List.flatMap_append

theorem foldl_cksumAdd (c : UInt16) (bs : List UInt8) :
    bs.foldl cksumAdd c = feed c (lineBits bs) := by
  induction bs generalizing c with
  | nil => rfl
  | cons b bs ih =>
    rw [List.foldl_cons, cksumAdd_feed, ih, ← feed_append]
    rfl

/-- The table-driven checksum is what is left in the bitwise register after every bit. -/
theorem cksum_feed (bs : List UInt8) : cksum bs = feed 0 (lineBits bs) :=
  foldl_cksumAdd cksumStart bs

/-- The checksum is the remainder that a CRC-16 with the polynomial 0xA001 leaves bit by
bit, each byte from its low bit on. -/
theorem cksum_bitwise (bs : List UInt8) :
    cksum bs = (lineBits bs).foldl (fun crc b => crcBit (if b then crc ^^^ 1 else crc)) 0 :=
  cksum_feed bs

end UpAndDownESP.Proofs.Checksum
