import Mathlib.Data.BitVec
import Mathlib.Algebra.Order.Ring.Int
import Mathlib.Tactic.Positivity
import Mathlib.Data.Nat.Notation

/-!
# Machine words as numbers

A word read as a signed or an unsigned number, and words that are computed from
numbers: extended, truncated, compared, and cut at the ends of a range.
-/

namespace Word

/-- The number a word stands for. -/
def reading (signed : Bool) {w : ℕ} (b : BitVec w) : ℤ := if signed then b.toInt else b.toNat

def least (signed : Bool) (w : ℕ) : ℤ := if signed then -2 ^ (w - 1) else 0

def greatest (signed : Bool) (w : ℕ) : ℤ := if signed then 2 ^ (w - 1) - 1 else 2 ^ w - 1

/-- The number that a word of `w` bits stands for and that is closest to `x`. -/
def clamp (signed : Bool) (w : ℕ) (x : ℤ) : ℤ := max (least signed w) (min (greatest signed w) x)

/-- The bits `[lo, lo + len)` of a number in two's complement. -/
def bitsAt (lo len : ℕ) (x : ℤ) : ℤ := x / 2 ^ lo % 2 ^ len

/-- A word of another width that stands for the same number, if there is one. -/
def extend (signed : Bool) {w : ℕ} (w' : ℕ) (b : BitVec w) : BitVec w' :=
  BitVec.ofInt w' (reading signed b)

theorem extend_self (signed : Bool) {w : ℕ} (b : BitVec w) : extend signed w b = b := by
  cases signed
  · exact (BitVec.ofInt_natCast w b.toNat).trans ((BitVec.ofNat_toNat w b).trans
      (BitVec.setWidth_eq b))
  · exact BitVec.ofInt_toInt

/-- A word of `w` bits can stand for the number. -/
def Fits (signed : Bool) (w : ℕ) (x : ℤ) : Prop := least signed w ≤ x ∧ x ≤ greatest signed w

variable {signed : Bool} {w w' : ℕ} {x y : ℤ}

theorem fits_reading (signed : Bool) (b : BitVec w) : Fits signed w (reading signed b) := by
  cases signed
  · have : (b.toNat : ℤ) < 2 ^ w := by exact_mod_cast b.isLt
    exact ⟨Int.natCast_nonneg _, Int.le_sub_one_of_lt this⟩
  · exact ⟨BitVec.le_toInt b, Int.le_sub_one_of_lt (@BitVec.toInt_lt w b)⟩

theorem reading_ofInt (h : Fits signed w x) (hw : 0 < w) :
    reading signed (BitVec.ofInt w x) = x := by
  obtain ⟨h₁, h₂⟩ := h
  cases signed
  · have hx : x < (2 ^ w : ℕ) := by
      rw [Nat.cast_pow]
      exact Int.lt_of_le_sub_one h₂
    change ((BitVec.ofInt w x).toNat : ℤ) = x
    rw [BitVec.toNat_ofInt, Int.emod_eq_of_lt h₁ hx, Int.toNat_of_nonneg h₁]
  · exact BitVec.toInt_ofInt_eq_self hw h₁ (Int.lt_of_le_sub_one h₂)

theorem ofInt_reading (signed : Bool) (b : BitVec w) : BitVec.ofInt w (reading signed b) = b := by
  cases signed
  · change BitVec.ofInt w (b.toNat : ℤ) = b
    rw [BitVec.ofInt_natCast, BitVec.ofNat_toNat, BitVec.setWidth_eq]
  · exact BitVec.ofInt_toInt

theorem ofInt_sub (x y : ℤ) : BitVec.ofInt w (x - y) = BitVec.ofInt w x - BitVec.ofInt w y := by
  rw [Int.sub_eq_add_neg, BitVec.ofInt_add, BitVec.ofInt_neg, BitVec.sub_eq_add_neg]

/-- Truncation keeps the number modulo the width. -/
theorem setWidth_ofInt (h : w' ≤ w) (x : ℤ) :
    (BitVec.ofInt w x).setWidth w' = BitVec.ofInt w' x := by
  have hd : ((2 ^ w' : ℕ) : ℤ) ∣ (2 ^ w : ℕ) := by exact_mod_cast Nat.pow_dvd_pow 2 h
  have hpos : (0 : ℤ) ≤ x % (2 ^ w : ℕ) := Int.emod_nonneg _ (by positivity)
  refine BitVec.eq_of_toNat_eq ?_
  rw [BitVec.toNat_setWidth, BitVec.toNat_ofInt, BitVec.toNat_ofInt, ← Int.emod_emod_of_dvd x hd,
    Int.toNat_emod hpos (by positivity), Int.toNat_natCast]

/-- A number that fits a word fits a wider one. -/
theorem Fits.widen (h : Fits signed w x) (hw : 0 < w) (hlt : w < w') : Fits true w' x := by
  have hp : (2 : ℤ) ^ w ≤ 2 ^ (w' - 1) := pow_le_pow_right₀ (by decide) (Nat.le_sub_one_of_lt hlt)
  have hh : (2 : ℤ) ^ (w - 1) * 2 = 2 ^ w := by rw [← pow_succ, Nat.sub_add_cancel hw]
  obtain ⟨h₁, h₂⟩ := h
  cases signed
  · simp only [least, greatest, Fits, if_neg Bool.false_ne_true, if_true] at *
    omega
  · simp only [least, greatest, Fits, if_true] at *
    omega

theorem Fits.widen_unsigned (h : Fits false w x) (hlt : w < w') : Fits false w' x := by
  have hp : (2 : ℤ) ^ w ≤ 2 ^ w' := pow_le_pow_right₀ (by decide) (Nat.le_of_lt hlt)
  exact ⟨h.1, h.2.trans (Int.sub_le_sub_right hp 1)⟩

theorem Fits.widen_same (h : Fits signed w x) (hw : 0 < w) (hlt : w < w') : Fits signed w' x := by
  cases signed
  · exact h.widen_unsigned hlt
  · exact h.widen hw hlt

/-- Extension keeps the number. -/
theorem reading_extend (b : BitVec w) (hw : 0 < w) (hlt : w < w') :
    reading signed (extend signed w' b) = reading signed b :=
  reading_ofInt ((fits_reading signed b).widen_same hw hlt) (Nat.zero_lt_of_lt hlt)

theorem reading_zero (signed : Bool) (w : ℕ) : reading signed 0#w = 0 := by
  cases signed
  · exact congrArg Nat.cast BitVec.toNat_zero
  · exact BitVec.toInt_zero

theorem reading_nonneg (b : BitVec w) (h : signed = false) : 0 ≤ reading signed b := by
  subst h
  exact Int.natCast_nonneg _

theorem reading_intMin (hw : 0 < w) : reading true (BitVec.intMin w) = least true w := by
  change (BitVec.intMin w).toInt = -2 ^ (w - 1)
  rw [BitVec.toInt_intMin_of_pos hw]

theorem reading_neg_one (hw : 0 < w) : reading true (-1#w) = -1 := by
  have hp : (0 : ℤ) < 2 ^ (w - 1) := by positivity
  have : -1#w = BitVec.ofInt w (-1) := by
    rw [BitVec.ofInt_neg]
    rfl
  rw [this]
  exact reading_ofInt ⟨Int.neg_le_neg hp, by change (-1 : ℤ) ≤ 2 ^ (w - 1) - 1; omega⟩ hw

theorem Fits.min (hx : Fits signed w x) (hy : Fits signed w y) : Fits signed w (min x y) :=
  ⟨le_min hx.1 hy.1, (min_le_left x y).trans hx.2⟩

/-- The sum and the difference of two words fit a word with one more bit. -/
theorem fits_sum (hx : Fits signed w x) (hy : Fits signed w y) (hw : 0 < w) :
    Fits signed (w + 1) (x + y) := by
  have hh : (2 : ℤ) ^ (w - 1) * 2 = 2 ^ w := by rw [← pow_succ, Nat.sub_add_cancel hw]
  have hs : (2 : ℤ) ^ (w + 1) = 2 ^ w * 2 := pow_succ 2 w
  cases signed
  · simp only [least, greatest, Fits, if_neg Bool.false_ne_true] at *
    omega
  · simp only [least, greatest, Fits, if_true, Nat.add_sub_cancel] at *
    omega

theorem fits_difference (hx : Fits signed w x) (hy : Fits signed w y) (hw : 0 < w) :
    Fits true (w + 1) (x - y) := by
  have hh : (2 : ℤ) ^ (w - 1) * 2 = 2 ^ w := by rw [← pow_succ, Nat.sub_add_cancel hw]
  cases signed
  · simp only [least, greatest, Fits, if_neg Bool.false_ne_true, if_true, Nat.add_sub_cancel] at *
    omega
  · simp only [least, greatest, Fits, if_true, Nat.add_sub_cancel] at *
    omega

/-- The word of the smaller of two numbers. -/
theorem ofInt_min (signed : Bool) (h : BitVec w) (x : ℤ) (hx : Fits signed w x) (hw : 0 < w) :
    (if reading signed h < reading signed (BitVec.ofInt w x) then h else BitVec.ofInt w x) =
      BitVec.ofInt w (min (reading signed h) x) := by
  rw [reading_ofInt hx hw]
  split
  · next hlt => rw [min_eq_left hlt.le, ofInt_reading]
  · next hlt => rw [min_eq_right (not_lt.1 hlt)]

theorem ofInt_max (signed : Bool) (l : BitVec w) (x : ℤ) (hx : Fits signed w x) (hw : 0 < w) :
    (if reading signed (BitVec.ofInt w x) < reading signed l then l else BitVec.ofInt w x) =
      BitVec.ofInt w (max (reading signed l) x) := by
  rw [reading_ofInt hx hw]
  split
  · next hlt => rw [max_eq_left hlt.le, ofInt_reading]
  · next hlt => rw [max_eq_right (not_lt.1 hlt)]

/-- The ends of the range fit. -/
theorem fits_ends (signed : Bool) (w : ℕ) :
    Fits signed w (least signed w) ∧ Fits signed w (greatest signed w) := by
  have hle : least signed w ≤ greatest signed w :=
    (fits_reading signed (0 : BitVec w)).1.trans (fits_reading signed (0 : BitVec w)).2
  exact ⟨⟨le_rfl, hle⟩, ⟨hle, le_rfl⟩⟩

theorem fits_clamp (signed : Bool) (w : ℕ) (x : ℤ) : Fits signed w (clamp signed w x) := by
  exact ⟨le_max_left _ _, max_le (fits_ends signed w).1.2 (min_le_left _ _)⟩

/-- A shift to the right and a truncation read bits of the number, as long as
they lie within the word. -/
theorem toNat_shiftRight_setWidth {s n : ℕ} (h : s + n ≤ w) (x : ℤ) :
    (((BitVec.ofInt w x >>> s).setWidth n).toNat : ℤ) = bitsAt s n x := by
  have hs : (2 : ℤ) ^ w = 2 ^ s * 2 ^ (w - s) := by
    rw [← pow_add, Nat.add_sub_cancel' (Nat.le_of_add_right_le h)]
  have hd : (2 : ℤ) ^ n ∣ 2 ^ (w - s) := pow_dvd_pow 2 (Nat.le_sub_of_add_le' h)
  have hpos : (0 : ℤ) ≤ x % (2 ^ w : ℕ) := Int.emod_nonneg _ (by positivity)
  have hdiv : x % 2 ^ w / 2 ^ s = x / 2 ^ s - 2 ^ (w - s) * (x / 2 ^ w) := by
    rw [Int.emod_def, hs, Int.mul_assoc, Int.sub_eq_add_neg, ← Int.mul_neg,
      Int.add_mul_ediv_left _ _ (by positivity), ← Int.sub_eq_add_neg]
  rw [BitVec.toNat_setWidth, BitVec.toNat_ushiftRight, BitVec.toNat_ofInt,
    Nat.shiftRight_eq_div_pow,
    Int.natCast_mod, Int.natCast_ediv, Int.toNat_of_nonneg hpos]
  push_cast
  rw [hdiv, bitsAt, Int.sub_emod, Int.emod_eq_zero_of_dvd (hd.mul_right _), Int.sub_zero,
    Int.emod_emod]

/-- Clearing low bits rounds down. -/
theorem toNat_clearLow (b : BitVec w) (k : ℕ) :
    (b &&& ~~~BitVec.ofNat w (2 ^ k - 1)).toNat = b.toNat / 2 ^ k * 2 ^ k := by
  apply Nat.eq_of_testBit_eq
  intro i
  rw [BitVec.testBit_toNat, BitVec.getLsbD_and, BitVec.getLsbD_not, BitVec.getLsbD_ofNat,
    Nat.testBit_two_pow_sub_one, Nat.testBit_mul_two_pow, ← Nat.shiftRight_eq_div_pow,
    Nat.testBit_shiftRight, BitVec.testBit_toNat]
  by_cases hi : i < k
  · simp [hi]
  · have hki := Nat.not_lt.mp hi
    by_cases hw : i < w
    · simp [hw, hki, Nat.add_sub_of_le hki]
    · simp [hw, hki, Nat.add_sub_of_le hki, BitVec.getLsbD_of_ge b i (Nat.not_lt.mp hw)]

end Word
