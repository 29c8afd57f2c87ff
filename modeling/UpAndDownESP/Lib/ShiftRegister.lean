import Mathlib.Algebra.Field.ZMod
import Mathlib.Algebra.Group.Hom.Defs
import Mathlib.Data.ZMod.Basic

/-- A register that adds a bit in at its tap and then shifts. Every word is its
own inverse, so adding is the exclusive or. -/
structure ShiftRegister (V : Type*) [AddCommGroup V] where
  shift : V →+ V
  tap : V
  self_inverse : ∀ x : V, x + x = 0
  injective : Function.Injective shift
  tap_ne_zero : tap ≠ 0

namespace ShiftRegister

variable {V : Type*} [AddCommGroup V] (R : ShiftRegister V)

def clock (c : V) (b : Bool) : V := R.shift (if b then c + R.tap else c)

/-- The register after a string of bits. -/
def feed (c : V) (bs : List Bool) : V := bs.foldl R.clock c

@[simp] theorem feed_nil (c : V) : R.feed c [] = c := rfl

@[simp] theorem feed_cons (c : V) (b : Bool) (bs : List Bool) :
    R.feed c (b :: bs) = R.feed (R.clock c b) bs := rfl

theorem feed_append (c : V) (as bs : List Bool) : R.feed c (as ++ bs) = R.feed (R.feed c as) bs :=
  List.foldl_append

/-! ### Linearity -/

theorem clock_add (a b : V) (x y : Bool) :
    R.clock (a + b) (x ^^ y) = R.clock a x + R.clock b y := by
  unfold clock
  rw [← map_add]
  apply congrArg R.shift
  cases x
  · cases y
    · rfl
    · exact add_assoc a b R.tap
  · cases y
    · exact add_right_comm a b R.tap
    · change a + b = a + R.tap + (b + R.tap)
      rw [add_add_add_comm, R.self_inverse, add_zero]

theorem feed_add (a b : V) (xs ys : List Bool) (h : xs.length = ys.length) :
    R.feed (a + b) (List.zipWith xor xs ys) = R.feed a xs + R.feed b ys := by
  induction xs generalizing a b ys with
  | nil =>
    cases ys with
    | nil => rfl
    | cons y ys => cases h
  | cons x xs ih =>
    cases ys with
    | nil => cases h
    | cons y ys =>
      rw [List.zipWith_cons_cons, feed_cons, clock_add]
      exact ih _ _ ys (Nat.succ.inj h)

@[simp] theorem feed_zeros (c : V) (n : Nat) :
    R.feed c (List.replicate n false) = R.shift^[n] c := by
  induction n generalizing c with
  | zero => rfl
  | succ n ih => exact ih _

theorem zero_stays (n : Nat) : R.shift^[n] 0 = 0 := by
  induction n with
  | zero => rfl
  | succ n ih =>
    rw [Function.iterate_succ_apply', ih]
    exact map_zero R.shift

/-- What the register held before and what is fed in do not mix. -/
theorem feed_split (c : V) (bs : List Bool) :
    R.feed c bs = R.shift^[bs.length] c + R.feed 0 bs := by
  have h := R.feed_add c 0 (List.replicate bs.length false) bs (by simp)
  have hb : List.zipWith xor (List.replicate bs.length false) bs = bs := by
    apply List.ext_getElem
    · simp
    · intro i h₁ h₂
      simp
  rwa [add_zero, hb, feed_zeros] at h

/-! ### Strings that clear the register -/

theorem shift_eq_zero (n : Nat) (x : V) : R.shift^[n] x = 0 ↔ x = 0 := by
  constructor
  · intro h
    apply R.injective.iterate n
    rw [h, R.zero_stays]
  · rintro rfl
    exact R.zero_stays n

theorem leading_zeros (n : Nat) (bs : List Bool) :
    R.feed 0 (List.replicate n false ++ bs) = R.feed 0 bs := by
  rw [feed_append, feed_zeros, zero_stays]

theorem trailing_zeros (n : Nat) (bs : List Bool) :
    R.feed 0 (bs ++ List.replicate n false) = 0 ↔ R.feed 0 bs = 0 := by
  rw [feed_append, feed_zeros, shift_eq_zero]

/-- The rest of a string after its first set bit. -/
theorem first_set {bs : List Bool} (h : true ∈ bs) :
    ∃ n rest, bs = List.replicate n false ++ true :: rest := by
  induction bs with
  | nil => cases h
  | cons b bs ih =>
    cases b with
    | true => exact ⟨0, bs, rfl⟩
    | false =>
      obtain ⟨n, rest, hr⟩ := ih (by simpa using h)
      exact ⟨n + 1, rest, by rw [hr]; rfl⟩

theorem none_set {bs : List Bool} (h : true ∉ bs) : bs = List.replicate bs.length false := by
  apply List.eq_replicate_length.mpr
  intro b hb
  cases b with
  | false => rfl
  | true => exact absurd hb h

theorem feed_set (rest : List Bool) :
    R.feed 0 (true :: rest) = R.shift^[rest.length + 1] R.tap + R.feed 0 rest := by
  rw [feed_cons, feed_split, Function.iterate_succ_apply]
  simp [clock]

/-- Two set bits clear it only if their distance brings the tap back to itself. -/
theorem two_set {bs : List Bool} {N : Nat} (hN : ∀ k, 0 < k → k < N → R.shift^[k] R.tap ≠ R.tap)
    (hlen : bs.length ≤ N) (h : bs.count true = 2) : R.feed 0 bs ≠ 0 := by
  obtain ⟨n, rest, rfl⟩ := first_set (List.count_pos_iff.mp (by rw [h]; exact Nat.two_pos))
  have hone : rest.count true = 1 := by simpa [List.count_replicate] using h
  obtain ⟨m, last, rfl⟩ := first_set (List.count_pos_iff.mp (by rw [hone]; exact Nat.one_pos))
  have hlast : true ∉ last := by
    apply List.count_eq_zero.mp
    simpa [List.count_replicate] using hone
  simp only [List.length_append, List.length_replicate, List.length_cons] at hlen
  rw [leading_zeros, feed_set, leading_zeros, feed_set, none_set hlast, feed_zeros, zero_stays,
    add_zero]
  simp only [List.length_append, List.length_cons, List.length_replicate]
  intro hz
  have hsum : R.shift^[last.length + 1] (R.shift^[m + 1] R.tap + R.tap) = 0 := by
    rw [iterate_map_add, ← Function.iterate_add_apply]
    rwa [show last.length + 1 + (m + 1) = m + (last.length + 1) + 1 by omega]
  have hpair := (R.shift_eq_zero _ _).mp hsum
  apply hN (m + 1) (Nat.succ_pos m) (by omega)
  rw [← add_zero (R.shift^[m + 1] R.tap), ← R.self_inverse R.tap, ← add_assoc, hpair, zero_add]

/-! ### Detection -/

/-- A functional that a shift keeps and the tap flips counts the set bits modulo 2. -/
theorem parity_feed (φ : V →+ ZMod 2) (hshift : ∀ x, φ (R.shift x) = φ x) (htap : φ R.tap = 1)
    (c : V) (bs : List Bool) : φ (R.feed c bs) = φ c + (bs.count true : ℕ) := by
  induction bs generalizing c with
  | nil => simp
  | cons b bs ih =>
    rw [feed_cons, ih, clock, hshift]
    cases b with
    | false => simp
    | true =>
      simp only [if_true, map_add, htap, List.count_cons_self, Nat.cast_add, Nat.cast_one]
      rw [add_assoc, add_comm 1]

/-- Strings shorter than the tap's period that clear the register have no set bit
or at least four. -/
theorem min_weight (φ : V →+ ZMod 2) (hshift : ∀ x, φ (R.shift x) = φ x) (htap : φ R.tap = 1)
    {N : Nat} (hN : ∀ k, 0 < k → k < N → R.shift^[k] R.tap ≠ R.tap)
    {bs : List Bool} (hlen : bs.length ≤ N) (hz : R.feed 0 bs = 0) :
    bs.count true = 0 ∨ 4 ≤ bs.count true := by
  have heven : 2 ∣ bs.count true := by
    have hp := R.parity_feed φ hshift htap 0 bs
    rw [hz, map_zero, zero_add] at hp
    exact (ZMod.natCast_eq_zero_iff _ _).mp hp.symm
  by_contra hsmall
  have htwo : bs.count true = 2 := by omega
  exact R.two_set hN hlen htwo hz

/-- If no string of `W` bits clears the register unless it is all zeros, then neither
does a burst of at most `W` bits, wherever it stands. -/
theorem burst {W : Nat} (hW : ∀ bs : List Bool, bs.length = W → R.feed 0 bs = 0 → true ∉ bs)
    {before after : Nat} {bs : List Bool} (hlen : bs.length ≤ W)
    (hz : R.feed 0 (List.replicate before false ++ bs ++ List.replicate after false) = 0) :
    true ∉ bs := by
  rw [trailing_zeros, leading_zeros, ← trailing_zeros R (W - bs.length)] at hz
  intro ht
  apply hW _ _ hz (List.mem_append_left _ ht)
  simp only [List.length_append, List.length_replicate]
  omega

end ShiftRegister
