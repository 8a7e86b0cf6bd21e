import Mathlib.Data.Nat.Bitwise
import ShaderVariants.Checked

/-!
# Words and their bits

A 32-bit word with one set bit is a power of two, and a word is small when it has no high bits. The
values of macro groups are such words, so their proofs go through the lemmas here and not through
the arithmetic of words.

Subtracting one from a word changes its lowest set bit and the bits below it, so the word and its
predecessor have in common all set bits but the lowest (`testBit_clearLowest`).
-/

namespace ShaderVariants.Word

/-- The word whose only set bit is `bit`, as a number. -/
theorem toNat_shiftLeft_one {bit : ℕ} (h : bit < 32) :
    ((1 : UInt32) <<< UInt32.ofNat bit).toNat = 2 ^ bit := by
  have hbit : (UInt32.ofNat bit).toNat = bit :=
    UInt32.toNat_ofNat_of_lt' (Nat.lt_trans h (by decide))
  have hpow : 2 ^ bit < 2 ^ 32 := Nat.pow_lt_pow_right (by decide) h
  rw [UInt32.toNat_shiftLeft, hbit, Nat.mod_eq_of_lt h, UInt32.toNat_one, Nat.one_shiftLeft,
    Nat.mod_eq_of_lt hpow]

/-- The bits of the word whose only set bit is `bit`. -/
theorem testBit_shiftLeft_one {bit : ℕ} (h : bit < 32) (j : ℕ) :
    ((1 : UInt32) <<< UInt32.ofNat bit).toNat.testBit j = decide (bit = j) := by
  rw [toNat_shiftLeft_one h, Nat.testBit_two_pow]

/-- A word has no bit from the 32nd on. -/
theorem testBit_eq_false {value : UInt32} {j : ℕ} (h : 32 ≤ j) : value.toNat.testBit j = false :=
  Nat.testBit_lt_two_pow (Nat.lt_of_lt_of_le value.toNat_lt (Nat.pow_le_pow_right (by decide) h))

/-- A word is below a power of two exactly when its bits are. -/
theorem lt_two_pow_iff {value : UInt32} {n : ℕ} :
    value.toNat < 2 ^ n ↔ ∀ j, value.toNat.testBit j = true → j < n := by
  constructor
  · intro h j hj
    by_contra hn
    have hlt : value.toNat < 2 ^ j :=
      Nat.lt_of_lt_of_le h (Nat.pow_le_pow_right (by decide) (Nat.le_of_not_lt hn))
    rw [Nat.testBit_lt_two_pow hlt] at hj
    cases hj
  · intro h
    apply Nat.lt_pow_two_of_testBit
    intro j hj
    by_contra hb
    exact Nat.not_lt_of_ge hj (h j (by simpa using hb))

/-! ## The lowest bit -/

variable {value : UInt32}

/-- The position of the lowest set bit of a word, or 32 if there is none. -/
def lowestBit (value : UInt32) : ℕ :=
  value.toBitVec.ctz.toNat

/-- The word without its lowest set bit. -/
def clearLowest (value : UInt32) : UInt32 :=
  value &&& (value - 1)

/-- A word other than zero has its lowest bit. -/
theorem testBit_lowestBit (h : value ≠ 0) : value.toNat.testBit (lowestBit value) = true := by
  have hvec : value.toBitVec ≠ 0#32 := fun hzero => h (UInt32.toBitVec_inj.1 hzero)
  exact BitVec.getLsbD_true_ctz_of_ne_zero hvec

/-- A word has no bit below its lowest. -/
theorem testBit_of_lt_lowestBit {j : ℕ} (h : j < lowestBit value) :
    value.toNat.testBit j = false :=
  BitVec.getLsbD_false_of_lt_ctz (x := value.toBitVec) h

/-- A number whose lowest bit is `t` is an odd multiple of `2 ^ t`. -/
theorem eq_two_pow_mul_add {n t : ℕ} (hset : n.testBit t = true)
    (hbelow : ∀ j < t, n.testBit j = false) : n = 2 ^ (t + 1) * (n / 2 ^ (t + 1)) + 2 ^ t := by
  have hmod : n % 2 ^ (t + 1) = 2 ^ t := by
    refine Nat.eq_of_testBit_eq fun j => ?_
    rw [Nat.testBit_mod_two_pow, Nat.testBit_two_pow]
    rcases Nat.lt_trichotomy j t with hj | rfl | hj
    · simp [hbelow j hj, Nat.ne_of_gt hj]
    · simp [hset]
    · simp [Nat.not_lt.2 hj, Nat.ne_of_lt hj]
  rw [← hmod, Nat.div_add_mod]

/-- The bits that an odd multiple of `2 ^ t` shares with its predecessor are those above `t`. -/
theorem testBit_and_pred (q t j : ℕ) :
    ((2 ^ (t + 1) * q + 2 ^ t) &&& (2 ^ (t + 1) * q + 2 ^ t - 1)).testBit j =
      ((2 ^ (t + 1) * q + 2 ^ t).testBit j && decide (j ≠ t)) := by
  have hpos : 0 < 2 ^ t := Nat.two_pow_pos t
  have hlt : 2 ^ t < 2 ^ (t + 1) := Nat.pow_lt_pow_right (by decide) t.lt_succ_self
  have hpred : 2 ^ (t + 1) * q + 2 ^ t - 1 = 2 ^ (t + 1) * q + (2 ^ t - 1) := by omega
  rw [Nat.testBit_and, hpred, Nat.testBit_two_pow_mul_add q hlt,
    Nat.testBit_two_pow_mul_add q (by omega), Nat.testBit_two_pow, Nat.testBit_two_pow_sub_one]
  rcases Nat.lt_trichotomy j t with hj | rfl | hj
  · simp [Nat.lt_succ_of_lt hj, Nat.ne_of_gt hj]
  · simp
  · simp [Nat.not_lt.2 hj, Nat.ne_of_gt hj]

/-- Without its lowest bit a word has all its other bits. -/
theorem testBit_clearLowest (h : value ≠ 0) (j : ℕ) :
    (clearLowest value).toNat.testBit j =
      (value.toNat.testBit j && decide (j ≠ lowestBit value)) := by
  have hpos : value.toNat ≠ 0 := fun hzero => h (UInt32.toNat_inj.1 hzero)
  have hone : (1 : UInt32) ≤ value := UInt32.le_iff_toNat_le.2 (Nat.one_le_iff_ne_zero.2 hpos)
  have hsplit := eq_two_pow_mul_add (testBit_lowestBit h) fun _ => testBit_of_lt_lowestBit
  rw [clearLowest, UInt32.toNat_and, UInt32.toNat_sub_of_le _ _ hone, UInt32.toNat_one, hsplit]
  exact testBit_and_pred _ _ _

/-- Without its lowest bit a word is smaller. -/
theorem clearLowest_lt (h : value ≠ 0) : (clearLowest value).toNat < value.toNat := by
  have hle : (clearLowest value).toNat ≤ value.toNat := by
    rw [clearLowest, UInt32.toNat_and]
    exact Nat.and_le_left
  refine Nat.lt_of_le_of_ne hle fun heq => ?_
  -- The words would have the same lowest bit.
  have hbit := testBit_clearLowest h (lowestBit value)
  rw [heq, testBit_lowestBit h] at hbit
  simp at hbit

end ShaderVariants.Word
