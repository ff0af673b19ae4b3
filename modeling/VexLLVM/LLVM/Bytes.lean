import VexLLVM.LLVM.Exec
import Mathlib.Data.BitVec
import Mathlib.Tactic.Ring

/-!
# Bytes read and written

What `readBytes` sees of a `writeBytes`: the number written, cut to its bytes, at
the same place, and what was there before outside of it.
-/

namespace LLVM

def Machine.setCtx (m : Machine) (p : BitVec 64) (n y : ℕ) : Machine :=
  { m with ctx := writeBytes m.ctx p n y }

variable {f g : BitVec 64 → Byte} {a p : BitVec 64} {n k v w : ℕ}

theorem writeBytes_of_le (h : n ≤ (p - a).toNat) : writeBytes f a n v p = f p :=
  if_neg (Nat.not_lt.2 h)

theorem toNat_add_sub {i : ℕ} (hi : i < 2 ^ 64) :
    (a + BitVec.ofNat 64 i - a).toNat = i := by
  rw [add_sub_cancel_left, BitVec.toNat_ofNat, Nat.mod_eq_of_lt hi]

theorem writeBytes_at {i : ℕ} (hi : i < n) (hn : n ≤ 2 ^ 64) :
    writeBytes f a n v (a + BitVec.ofNat 64 i) = BitVec.ofNat 8 (v / 2 ^ (8 * i)) := by
  rw [writeBytes, toNat_add_sub (by omega), if_pos hi]

theorem readBytes_congr (h : ∀ i < n, f (a + BitVec.ofNat 64 i) = g (a + BitVec.ofNat 64 i)) :
    readBytes f a n = readBytes g a n := by
  induction n generalizing a with
  | zero => rfl
  | succ n ih =>
      have h0 := h 0 (Nat.succ_pos n)
      rw [show a + BitVec.ofNat 64 0 = a from add_zero a] at h0
      rw [readBytes, readBytes, h0, ih fun i hi => ?_]
      have hs := h (i + 1) (Nat.succ_lt_succ hi)
      have heq : a + BitVec.ofNat 64 (i + 1) = a + 1 + BitVec.ofNat 64 i := by
        rw [Nat.add_comm i 1, BitVec.ofNat_add, ← add_assoc]
        rfl
      rwa [heq] at hs

/-- The first `k` of the bytes read. -/
theorem readBytes_mod (f : BitVec 64 → Byte) (a : BitVec 64) (h : k ≤ n) :
    readBytes f a n % 2 ^ (8 * k) = readBytes f a k := by
  induction k generalizing a n with
  | zero => simp [readBytes, Nat.mod_one]
  | succ k ih =>
      obtain ⟨n, rfl⟩ : ∃ j, n = j + 1 := ⟨n - 1, by omega⟩
      have hb := (f a).isLt
      rw [readBytes, readBytes, Nat.mul_succ, Nat.add_comm (8 * k) 8, Nat.pow_add, Nat.mod_mul,
        Nat.add_mul_mod_self_left, Nat.mod_eq_of_lt hb, Nat.add_mul_div_left _ _ (by decide),
        Nat.div_eq_of_lt hb, Nat.zero_add, ih (a + 1) (by omega)]

/-- The last `k` of the bytes written. -/
theorem readBytes_writeBytes_from {i : ℕ} (hik : i + k = n) (hn : n ≤ 2 ^ 64) :
    readBytes (writeBytes f a n v) (a + BitVec.ofNat 64 i) k = v / 2 ^ (8 * i) % 2 ^ (8 * k) := by
  induction k generalizing i with
  | zero => simp [readBytes, Nat.mod_one]
  | succ k ih =>
      have heq : a + BitVec.ofNat 64 i + 1 = a + BitVec.ofNat 64 (i + 1) := by
        rw [BitVec.ofNat_add, ← add_assoc]
        rfl
      rw [readBytes, heq, ih (by omega), writeBytes_at (by omega) hn, BitVec.toNat_ofNat,
        Nat.mul_succ 8 i, Nat.pow_add, ← Nat.div_div_eq_div_mul, Nat.mul_succ 8 k,
        Nat.add_comm (8 * k) 8, Nat.pow_add, Nat.mod_mul]

theorem readBytes_writeBytes (hn : n ≤ 2 ^ 64) :
    readBytes (writeBytes f a n v) a n = v % 2 ^ (8 * n) := by
  have h := readBytes_writeBytes_from (f := f) (a := a) (v := v) (i := 0) (Nat.zero_add n) hn
  simpa using h

/-- Numbers that agree in the bytes written are written alike. -/
theorem writeBytes_eq_iff (hn : n ≤ 2 ^ 64) :
    writeBytes f a n v = writeBytes f a n w ↔ v % 2 ^ (8 * n) = w % 2 ^ (8 * n) := by
  constructor
  · intro h
    rw [← readBytes_writeBytes (f := f) (a := a) hn, h, readBytes_writeBytes hn]
  · intro h
    funext p
    unfold writeBytes
    split
    · next hp =>
        apply BitVec.eq_of_toNat_eq
        have hdvd : 2 ^ (8 * (p - a).toNat) * 2 ^ 8 ∣ 2 ^ (8 * n) := by
          rw [← Nat.pow_add]
          exact Nat.pow_dvd_pow 2 (by omega)
        rw [BitVec.toNat_ofNat, BitVec.toNat_ofNat, ← Nat.mod_mul_right_div_self,
          ← Nat.mod_mul_right_div_self, ← Nat.mod_mod_of_dvd v hdvd, h, Nat.mod_mod_of_dvd w hdvd]
    · rfl

/-- One of the bytes read. -/
theorem readBytes_byte {i : ℕ} (hi : i < n) :
    BitVec.ofNat 8 (readBytes f a n / 2 ^ (8 * i)) = f (a + BitVec.ofNat 64 i) := by
  induction n generalizing a i with
  | zero => omega
  | succ n ih =>
      have hb := (f a).isLt
      apply BitVec.eq_of_toNat_eq
      rw [BitVec.toNat_ofNat, readBytes]
      cases i with
      | zero =>
          rw [Nat.mul_zero, Nat.pow_zero, Nat.div_one, Nat.add_mul_mod_self_left,
            Nat.mod_eq_of_lt hb]
          exact congrArg (fun p => (f p).toNat) (add_zero a).symm
      | succ i =>
          have heq : a + BitVec.ofNat 64 (i + 1) = a + 1 + BitVec.ofNat 64 i := by
            rw [Nat.add_comm i 1, BitVec.ofNat_add, ← add_assoc]
            rfl
          rw [heq, ← ih (Nat.lt_of_succ_lt_succ hi), BitVec.toNat_ofNat, Nat.mul_succ,
            Nat.add_comm (8 * i) 8,
            Nat.pow_add, ← Nat.div_div_eq_div_mul, Nat.add_mul_div_left _ _ (by decide),
            Nat.div_eq_of_lt hb, Nat.zero_add]

/-- As many bytes read alike where they are alike. -/
theorem readBytes_eq_iff : readBytes f a n = readBytes g a n ↔
    ∀ i < n, f (a + BitVec.ofNat 64 i) = g (a + BitVec.ofNat 64 i) := by
  refine ⟨fun h i hi => ?_, readBytes_congr⟩
  rw [← readBytes_byte (f := f) hi, h, readBytes_byte hi]

/-- What is read is written back. -/
theorem writeBytes_readBytes : writeBytes f a n (readBytes f a n) = f := by
  funext p
  unfold writeBytes
  split
  · next hp =>
      rw [readBytes_byte hp, BitVec.ofNat_toNat, BitVec.setWidth_eq, add_sub_cancel]
  · rfl

/-- A write is not seen outside of it. -/
theorem readBytes_writeBytes_of_le (h : ∀ i < k, n ≤ (p + BitVec.ofNat 64 i - a).toNat) :
    readBytes (writeBytes f a n v) p k = readBytes f p k :=
  readBytes_congr fun i hi => writeBytes_of_le (h i hi)

end LLVM
