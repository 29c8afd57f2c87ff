import Mathlib.Data.List.Induction
import Mathlib.Data.Nat.Bitwise
import Mathlib.Tactic.Ring

namespace BigEndian

/-- The low `w` bytes of a number, the most significant first. -/
def writeNum : Nat → Nat → List UInt8
  | 0, _ => []
  | w + 1, n => UInt8.ofNat (n >>> (8 * w)) :: writeNum w n

/-- One more byte shifted into a `w`-byte destination. -/
def collect (w dest : Nat) (c : UInt8) : Nat := (dest <<< 8 ||| c.toNat) % 2 ^ (8 * w)

@[simp] theorem writeNum_length (w n : Nat) : (writeNum w n).length = w := by
  induction w with
  | zero => rfl
  | succ w ih => simp [writeNum, ih]

theorem shift_or (dest : Nat) (c : UInt8) : dest <<< 8 ||| c.toNat = dest * 256 + c.toNat := by
  rw [← Nat.shiftLeft_add_eq_or_of_lt (UInt8.toNat_lt c), Nat.shiftLeft_eq]

theorem collect_eq (w dest : Nat) (c : UInt8) :
    collect w dest c = (dest * 256 + c.toNat) % 2 ^ (8 * w) := by
  rw [collect, shift_or]

/-- Folding the bytes in without the final truncation. -/
theorem fold_value (w dest n : Nat) :
    (writeNum w n).foldl (fun d c => d * 256 + c.toNat) dest =
      dest * 2 ^ (8 * w) + n % 2 ^ (8 * w) := by
  induction w generalizing dest with
  | zero => simp [writeNum, Nat.mod_one]
  | succ w ih =>
    have hbyte : (UInt8.ofNat (n >>> (8 * w))).toNat = n / 2 ^ (8 * w) % 256 := by
      simp [Nat.shiftRight_eq_div_pow]
    have hsplit : n % 2 ^ (8 * (w + 1)) =
        n % 2 ^ (8 * w) + 2 ^ (8 * w) * (n / 2 ^ (8 * w) % 256) := by
      rw [show 8 * (w + 1) = 8 * w + 8 by ring, Nat.pow_add]
      exact Nat.mod_mul
    have hpow : 2 ^ (8 * (w + 1)) = 256 * 2 ^ (8 * w) := by ring
    simp only [writeNum, List.foldl_cons]
    rw [ih, hbyte, hsplit, hpow]
    ring

/-- Truncating at every byte or only at the end makes no difference. -/
theorem fold_collect (w dest : Nat) (bs : List UInt8) :
    bs.foldl (collect w) dest % 2 ^ (8 * w) =
      bs.foldl (fun d c => d * 256 + c.toNat) dest % 2 ^ (8 * w) := by
  induction bs using List.reverseRecOn with
  | nil => rfl
  | append_singleton bs c ih =>
    simp only [List.foldl_append, List.foldl_cons, List.foldl_nil]
    rw [collect_eq, Nat.mod_mod, Nat.add_mod, Nat.mul_mod, ih, ← Nat.mul_mod, ← Nat.add_mod]

theorem fold_collect_lt (w dest : Nat) (bs : List UInt8) (h : bs ≠ []) :
    bs.foldl (collect w) dest < 2 ^ (8 * w) := by
  rcases List.eq_nil_or_concat bs with he | ⟨init, c, rfl⟩
  · exact absurd he h
  · rw [List.concat_eq_append, List.foldl_append]
    exact Nat.mod_lt _ (Nat.two_pow_pos _)

/-- Collecting all bytes of a number gives it back, whatever the destination
held before: the old content is shifted out. -/
theorem collect_writeNum (w dest n : Nat) :
    (writeNum (w + 1) n).foldl (collect (w + 1)) dest = n % 2 ^ (8 * (w + 1)) := by
  have hlt := fold_collect_lt (w + 1) dest (writeNum (w + 1) n) (by simp [writeNum])
  rw [← Nat.mod_eq_of_lt hlt, fold_collect, fold_value, Nat.mul_add_mod_self_right, Nat.mod_mod]

/-- `collect` on an 8-bit destination. -/
def collect8 (dest c : UInt8) : UInt8 := UInt8.ofNat (dest.toNat <<< 8 ||| c.toNat)

/-- `collect` on a 16-bit destination. -/
def collect16 (dest : UInt16) (c : UInt8) : UInt16 := UInt16.ofNat (dest.toNat <<< 8 ||| c.toNat)

@[simp] theorem collect8_eq (dest c : UInt8) : collect8 dest c = c := by
  apply UInt8.toNat_inj.mp
  rw [collect8, shift_or]
  simp

theorem toNat_collect16 (dest : UInt16) (c : UInt8) :
    (collect16 dest c).toNat = collect 2 dest.toNat c := by
  rw [collect16, collect, UInt16.toNat_ofNat']

/-- The two bytes of a 16-bit number are read back from any destination. -/
theorem collect16_writeNum (dest x : UInt16) (b c : UInt8) (h : writeNum 2 x.toNat = [b, c]) :
    collect16 (collect16 dest b) c = x := by
  apply UInt16.toNat_inj.mp
  have hc := collect_writeNum 1 dest.toNat x.toNat
  rw [h] at hc
  simp only [List.foldl_cons, List.foldl_nil] at hc
  rw [toNat_collect16, toNat_collect16, hc]
  exact Nat.mod_eq_of_lt x.toNat_lt

end BigEndian
