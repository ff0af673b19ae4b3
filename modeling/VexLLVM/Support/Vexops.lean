import VexLLVM.Lib.StepWhile
import VexLLVM.Emit.SBDraft

/-!
# Counting bits

The functions the bitcode of `vexops.c` has for counting the bits at an end of a
word. Each steps a counter and a word, which is shifted until a test fails.
-/

namespace VexLLVM

open Loop Vex

/-! ## The loops -/

def shl {w : ℕ} (v : BitVec w) : BitVec w := v <<< 1

def shr {w : ℕ} (v : BitVec w) : BitVec w := v >>> 1

structure CountState (w : ℕ) where
  ret : BitVec 32
  v : BitVec w

namespace CountState

variable {w : ℕ}

/-- `ret++`, and the shift of `v`. -/
def next (shift : BitVec w → BitVec w) (s : CountState w) : CountState w := ⟨s.ret + 1, shift s.v⟩

theorem next_iterate (shift : BitVec w → BitVec w) (n : ℕ) (s : CountState w) :
    (next shift)^[n] s = ⟨s.ret + BitVec.ofNat 32 n, shift^[n] s.v⟩ := by
  induction n generalizing s with
  | zero => simp
  | succ n ih =>
      rw [Function.iterate_succ_apply, ih, Function.iterate_succ_apply, Nat.add_comm n 1,
        BitVec.ofNat_add, ← BitVec.add_assoc]
      rfl

end CountState

def countWhile {w : ℕ} (shift : BitVec w → BitVec w) (test : BitVec w → Bool) (fuel : ℕ)
    (v : BitVec w) : Option (BitVec 32) :=
  (stepWhile (CountState.next shift) (fun s => test s.v) fuel ⟨0, v⟩).map fun r => r.1.ret

def vexopCls32 (fuel : ℕ) (v : BitVec 32) : Option (BitVec 32) :=
  if v &&& 0x80000000 = 0 then some 0
  else countWhile shl (fun v => v &&& 0x80000000 != 0) fuel (v <<< 1)

def vexopCls64 (fuel : ℕ) (v : BitVec 64) : Option (BitVec 64) :=
  if v &&& 0x8000000000000000 = 0 then some 0
  else (countWhile shl (fun v => v &&& 0x8000000000000000 != 0) fuel (v <<< 1)).map
    (·.setWidth 64)

/-- The counter is an `int`, and its sign is extended. -/
def vexopCtz64 (fuel : ℕ) (v : BitVec 64) : Option (BitVec 64) :=
  if v = 0 then some 64
  else (countWhile shr (fun v => v &&& 1 == 0) fuel v).map (·.signExtend 64)

def vexopClz64 (fuel : ℕ) (v : BitVec 64) : Option (BitVec 64) :=
  if v = 0 then some 64
  else (countWhile shl (fun v => v &&& (1#64 <<< 63) == 0) fuel v).map (·.signExtend 64)

def vexopCtz32 (fuel : ℕ) (v : BitVec 32) : Option (BitVec 32) :=
  if v = 0 then some 32 else countWhile shr (fun v => v &&& 1 == 0) fuel v

/-- The mask is an `unsigned long`, and so is what it is anded with. -/
def vexopClz32 (fuel : ℕ) (v : BitVec 32) : Option (BitVec 32) :=
  if v = 0 then some 32
  else countWhile shl (fun v => v.setWidth 64 &&& (1#64 <<< 31) == 0) fuel v

section Loops

variable {w n fuel : ℕ} {v : BitVec w}

theorem countWhile_eq {shift : BitVec w → BitVec w} {test : BitVec w → Bool}
    (h : FirstFail shift test v n) (hf : n < fuel) :
    countWhile shift test fuel v = some (BitVec.ofNat 32 n) := by
  have hs : FirstFail (CountState.next shift) (fun s => test s.v) ⟨0, v⟩ n := by
    refine ⟨fun j hj => ?_, ?_⟩
    · rw [CountState.next_iterate]
      exact h.before j hj
    · rw [CountState.next_iterate]
      exact h.fails
  rw [countWhile, hs.stepWhile_eq hf, CountState.next_iterate]
  simp

theorem iterate_shiftLeft (n : ℕ) (v : BitVec w) : shl^[n] v = v <<< n := by
  induction n with
  | zero => exact (BitVec.shiftLeft_zero v).symm
  | succ n ih => rw [Function.iterate_succ_apply', ih, shl, ← BitVec.shiftLeft_add]

theorem iterate_shiftRight (n : ℕ) (v : BitVec w) : shr^[n] v = v >>> n := by
  induction n with
  | zero => exact (BitVec.ushiftRight_zero v).symm
  | succ n ih => rw [Function.iterate_succ_apply', ih, shr, ← BitVec.shiftRight_add]

/-- A mask with one bit tests it. -/
theorem and_mask_beq {m : BitVec w} {i : ℕ} (hm : m = BitVec.twoPow w i) (hi : i < w)
    (v : BitVec w) : (v &&& m == 0) = !v.getLsbD i := by
  rw [hm, BitVec.and_twoPow]
  cases v.getLsbD i
  · simp
  · have hne : BitVec.twoPow w i ≠ 0 := fun h => by
      have := congrArg (BitVec.getLsbD · i) h
      simp [hi] at this
    simpa using hne

/-- A loop that shifts left while the top bit is `b`. -/
theorem firstFail_top {test : BitVec w → Bool} {b : Bool}
    (ht : ∀ v : BitVec w, test v = (v.getLsbD (w - 1) == b)) (hn : n < w)
    (hlt : ∀ j < n, v.getLsbD (w - 1 - j) = b) (hat : v.getLsbD (w - 1 - n) = !b) :
    FirstFail shl test v n := by
  have hbit : ∀ j ≤ n, test (shl^[j] v) = (v.getLsbD (w - 1 - j) == b) := fun j hj => by
    rw [iterate_shiftLeft, ht, BitVec.getLsbD_shiftLeft]
    simp [show w - 1 < w by omega, show ¬w - 1 < j by omega]
  refine ⟨fun j hj => ?_, ?_⟩
  · rw [hbit j (by omega), hlt j hj, beq_self_eq_true]
  · rw [hbit n (Nat.le_refl n), hat]
    cases b <;> rfl

/-- A loop that shifts right while the low bit is clear. -/
theorem firstFail_low {test : BitVec w → Bool} (ht : ∀ v : BitVec w, test v = !v.getLsbD 0)
    (hlt : ∀ j < n, v.getLsbD j = false) (hat : v.getLsbD n = true) :
    FirstFail shr test v n := by
  have hbit : ∀ j, test (shr^[j] v) = !v.getLsbD j := fun j => by
    rw [iterate_shiftRight, ht, BitVec.getLsbD_ushiftRight, Nat.add_zero]
  exact ⟨fun j hj => by rw [hbit, hlt j hj]; rfl, by rw [hbit, hat]; rfl⟩

end Loops

/-! ## Zeros -/

structure IsCtz {w : ℕ} (v : BitVec w) (k : ℕ) : Prop where
  zero : v = 0 → k = w
  dvd : v ≠ 0 → 2 ^ k ∣ v.toNat
  largest : v ≠ 0 → ∀ j, 2 ^ j ∣ v.toNat → j ≤ k
  odd : v ≠ 0 → (v >>> k).toNat % 2 = 1

structure IsClz {w : ℕ} (v : BitVec w) (k : ℕ) : Prop where
  zero : v = 0 → k = w
  highest : v ≠ 0 → ∃ i < w, v.getLsbD i = true ∧ (∀ j, i < j → v.getLsbD j = false) ∧
    k = w - 1 - i
  le : v ≠ 0 → 2 ^ (w - 1 - k) ≤ v.toNat
  lt : v ≠ 0 → v.toNat < 2 ^ (w - k)

/-- The function ends on every word, with a result that is as it should be. -/
def Exact {w : ℕ} (f : ℕ → BitVec w → Option (BitVec w)) (φ : BitVec w → ℕ → Prop) : Prop :=
  ∀ v, ∃ r, (∀ fuel, w < fuel → f fuel v = some r) ∧ φ v r.toNat

section Zeros

variable {w fuel : ℕ} {v : BitVec w}

theorem toNat_ctz_lt (hv : v ≠ 0) : v.ctz.toNat < w := by
  have hlt : v.ctz.toNat < (w : BitVec w).toNat := BitVec.lt_def.1 (BitVec.ctz_lt_iff_ne_zero.2 hv)
  exact hlt.trans_le (by simp)

theorem toNat_clz_lt (hv : v ≠ 0) : v.clz.toNat < w := by
  have hlt : v.clz.toNat < (w : BitVec w).toNat := BitVec.lt_def.1 (BitVec.clz_lt_iff_ne_zero.2 hv)
  exact hlt.trans_le (by simp)

/-- Where all lower bits are clear, the power of two divides. -/
theorem two_pow_dvd {x k : ℕ} (h : ∀ j < k, x.testBit j = false) : 2 ^ k ∣ x := by
  refine Nat.dvd_of_mod_eq_zero (Nat.eq_of_testBit_eq fun i => ?_)
  rw [Nat.testBit_mod_two_pow, Nat.zero_testBit]
  by_cases hi : i < k
  · rw [h i hi, Bool.and_false]
  · rw [decide_eq_false hi, Bool.false_and]

theorem isCtz_ctz (hv : v ≠ 0) : IsCtz v v.ctz.toNat where
  zero h := absurd h hv
  dvd _ := two_pow_dvd fun _ hj => BitVec.getLsbD_false_of_lt_ctz hj
  largest _ j hj := by
    by_contra hlt
    have hbit : v.toNat.testBit v.ctz.toNat = true := BitVec.getLsbD_true_ctz_of_ne_zero hv
    obtain ⟨q, hq⟩ := hj
    rw [hq, Nat.testBit_two_pow_mul, decide_eq_false (by omega), Bool.false_and] at hbit
    cases hbit
  odd _ := by
    have hbit : v.toNat.testBit v.ctz.toNat = true := BitVec.getLsbD_true_ctz_of_ne_zero hv
    rw [BitVec.toNat_ushiftRight]
    rwa [Nat.testBit, Nat.one_and_eq_mod_two, bne_iff_ne, Nat.mod_two_ne_zero] at hbit

theorem isClz_clz (hv : v ≠ 0) : IsClz v v.clz.toNat where
  zero h := absurd h hv
  highest _ := by
    have hlt := toNat_clz_lt hv
    have hw : 0 < w := by omega
    refine ⟨w - 1 - v.clz.toNat, by omega, BitVec.getLsbD_true_clz_of_ne_zero hw hv, fun j hj => ?_,
      by omega⟩
    exact Nat.testBit_lt_two_pow (BitVec.toNat_lt_two_pow_sub_clz.trans_le
      (Nat.pow_le_pow_right Nat.two_pos (by omega)))
  le _ := BitVec.two_pow_sub_clz_le_toNat_of_ne_zero (by have := toNat_clz_lt hv; omega) hv
  lt _ := BitVec.toNat_lt_two_pow_sub_clz

theorem isCtz_zero : IsCtz (0 : BitVec w) w :=
  ⟨fun _ => rfl, fun h => absurd rfl h, fun h => absurd rfl h, fun h => absurd rfl h⟩

theorem isClz_zero : IsClz (0 : BitVec w) w :=
  ⟨fun _ => rfl, fun h => absurd rfl h, fun h => absurd rfl h, fun h => absurd rfl h⟩

/-- The loop of the trailing zeros. -/
theorem firstFail_ctz {test : BitVec w → Bool} (ht : ∀ v : BitVec w, test v = !v.getLsbD 0)
    (hv : v ≠ 0) : FirstFail shr test v v.ctz.toNat :=
  firstFail_low ht (fun _ hj => BitVec.getLsbD_false_of_lt_ctz hj)
    (BitVec.getLsbD_true_ctz_of_ne_zero hv)

/-- The loop of the leading zeros. -/
theorem firstFail_clz {test : BitVec w → Bool}
    (ht : ∀ v : BitVec w, test v = !v.getLsbD (w - 1)) (hv : v ≠ 0) :
    FirstFail shl test v v.clz.toNat := by
  have hlt := toNat_clz_lt hv
  have ht' : ∀ v : BitVec w, test v = (v.getLsbD (w - 1) == false) := fun v => by
    rw [ht, beq_false]
  refine firstFail_top ht' hlt (fun j hj => ?_) (BitVec.getLsbD_true_clz_of_ne_zero (by omega) hv)
  exact Nat.testBit_lt_two_pow (BitVec.toNat_lt_two_pow_sub_clz.trans_le
    (Nat.pow_le_pow_right Nat.two_pos (by omega)))

theorem toNat_signExtend_count {n : ℕ} (hn : n < 64) :
    ((BitVec.ofNat 32 n).signExtend 64).toNat = n := by
  have hmsb : (BitVec.ofNat 32 n).msb = false := by
    rw [BitVec.msb_eq_decide, BitVec.toNat_ofNat, decide_eq_false_iff_not]
    omega
  rw [BitVec.signExtend_eq_setWidth_of_msb_false hmsb, BitVec.toNat_setWidth, BitVec.toNat_ofNat]
  omega

theorem toNat_count {n : ℕ} (hn : n < 64) : (BitVec.ofNat 32 n).toNat = n := by
  rw [BitVec.toNat_ofNat]
  omega

end Zeros

/-- All four functions end and count. -/
theorem vexopCounts_statement :
    Exact vexopCtz32 IsCtz ∧ Exact vexopCtz64 IsCtz ∧ Exact vexopClz32 IsClz ∧
      Exact vexopClz64 IsClz := by
  refine ⟨fun v => ?_, fun v => ?_, fun v => ?_, fun v => ?_⟩ <;> by_cases hv : v = 0
  · exact ⟨32, fun _ _ => by rw [vexopCtz32, if_pos hv], hv ▸ isCtz_zero⟩
  · have hlt := toNat_ctz_lt hv
    have hloop := firstFail_ctz (and_mask_beq (m := 1) (by decide) (by decide)) hv
    refine ⟨_, fun fuel hf => by rw [vexopCtz32, if_neg hv, countWhile_eq hloop (by omega)], ?_⟩
    rw [toNat_count (by omega)]
    exact isCtz_ctz hv
  · exact ⟨64, fun _ _ => by rw [vexopCtz64, if_pos hv], hv ▸ isCtz_zero⟩
  · have hlt := toNat_ctz_lt hv
    have hloop := firstFail_ctz (and_mask_beq (m := 1) (by decide) (by decide)) hv
    refine ⟨_, fun fuel hf => by rw [vexopCtz64, if_neg hv, countWhile_eq hloop (by omega)]; rfl, ?_⟩
    rw [toNat_signExtend_count hlt]
    exact isCtz_ctz hv
  · exact ⟨32, fun _ _ => by rw [vexopClz32, if_pos hv], hv ▸ isClz_zero⟩
  · have hlt := toNat_clz_lt hv
    have htest : ∀ v : BitVec 32, (v.setWidth 64 &&& (1#64 <<< 31) == 0) = !v.getLsbD 31 :=
      fun v => by
        rw [and_mask_beq (i := 31) (by decide) (by decide), BitVec.getLsbD_setWidth,
          decide_eq_true (by decide), Bool.true_and]
    have hloop := firstFail_clz htest hv
    refine ⟨_, fun fuel hf => by rw [vexopClz32, if_neg hv, countWhile_eq hloop (by omega)], ?_⟩
    rw [toNat_count (by omega)]
    exact isClz_clz hv
  · exact ⟨64, fun _ _ => by rw [vexopClz64, if_pos hv], hv ▸ isClz_zero⟩
  · have hlt := toNat_clz_lt hv
    have hloop := firstFail_clz (and_mask_beq (m := 1#64 <<< 63) (by decide) (by decide)) hv
    refine ⟨_, fun fuel hf => by rw [vexopClz64, if_neg hv, countWhile_eq hloop (by omega)]; rfl, ?_⟩
    rw [toNat_signExtend_count hlt]
    exact isClz_clz hv

/-! ## Sign bits -/

/-- `k` is the number of bits below the top bit that are equal to it, without a gap. -/
structure IsCls {w : ℕ} (v : BitVec w) (k : ℕ) : Prop where
  lt : k < w
  same : ∀ j < k, v.getLsbD (w - 2 - j) = v.getLsbD (w - 1)
  differs : k = w - 1 ∨ v.getLsbD (w - 2 - k) ≠ v.getLsbD (w - 1)

section Cls

variable {w : ℕ} {v : BitVec w}

theorem IsCls.zero_iff (hw : 1 < w) :
    IsCls v 0 ↔ v.getLsbD (w - 2) ≠ v.getLsbD (w - 1) := by
  constructor
  · intro h
    exact h.differs.resolve_left (by omega)
  · intro h
    exact ⟨by omega, fun j hj => absurd hj (Nat.not_lt_zero j), .inr h⟩

/-- The loop over the ones below the top bit. -/
theorem exists_firstFail_cls {test : BitVec w → Bool}
    (ht : ∀ v : BitVec w, test v = v.getLsbD (w - 1))
    (hv : v.getLsbD (w - 1) = true) : ∃ n < w, FirstFail shl test (shl v) n ∧ IsCls v n := by
  have hw : 0 < w := by
    by_contra h
    rw [BitVec.getLsbD_of_ge v (w - 1) (by omega)] at hv
    cases hv
  -- the shifted-in zero is where the loop ends at the latest
  have hlow : (shl v).getLsbD 0 = false := by rw [shl, BitVec.getLsbD_shiftLeft]; simp
  have hx : ~~~shl v ≠ 0 := fun h => by
    have hone : (~~~shl v).getLsbD 0 = true := by
      rw [BitVec.getLsbD_not, hlow, decide_eq_true hw]
      rfl
    rw [h] at hone
    simp at hone
  have hlt := toNat_clz_lt hx
  have hnot : ∀ j, (~~~shl v).getLsbD (w - 1 - j) = !(shl v).getLsbD (w - 1 - j) := fun j => by
    rw [BitVec.getLsbD_not, decide_eq_true (by omega), Bool.true_and]
  have hshl : ∀ j, j + 1 < w → (shl v).getLsbD (w - 1 - j) = v.getLsbD (w - 2 - j) := fun j hj => by
    rw [shl, BitVec.getLsbD_shiftLeft, decide_eq_true (by omega), decide_eq_false (by omega),
      show w - 1 - j - 1 = w - 2 - j by omega]
    rfl
  have hones : ∀ j < (~~~shl v).clz.toNat, (shl v).getLsbD (w - 1 - j) = true := fun j hj => by
    have hzero : (~~~shl v).getLsbD (w - 1 - j) = false :=
      Nat.testBit_lt_two_pow (BitVec.toNat_lt_two_pow_sub_clz.trans_le
        (Nat.pow_le_pow_right Nat.two_pos (by omega)))
    rwa [hnot, Bool.not_eq_false'] at hzero
  have hend : (shl v).getLsbD (w - 1 - (~~~shl v).clz.toNat) = false := by
    have hone := BitVec.getLsbD_true_clz_of_ne_zero hw hx
    rwa [hnot, Bool.not_eq_true'] at hone
  refine ⟨_, hlt, firstFail_top (b := true) (fun v => by rw [ht, beq_true]) hlt hones hend,
    hlt, fun j hj => ?_, ?_⟩
  · rw [hv, ← hshl j (by omega), hones j hj]
  · by_cases hn : (~~~shl v).clz.toNat = w - 1
    · exact .inl hn
    · rw [hv, ← hshl _ (by omega), hend]
      exact .inr Bool.false_ne_true

/-- A function that tests the top bit and then counts the ones below it: it ends, and
the count is as it should be exactly if the top bit or the one below it is set. -/
theorem cls_ends {r : ℕ} {m : BitVec w} {f : ℕ → BitVec w → Option (BitVec r)} (hw : 1 < w)
    (hw32 : w ≤ 2 ^ 32) (hr : w ≤ 2 ^ r) (hm : m = BitVec.twoPow w (w - 1))
    (hf : ∀ fuel v, f fuel v = if v &&& m = 0 then some 0
      else (countWhile shl (fun v => v &&& m != 0) fuel (shl v)).map (·.setWidth r))
    (v : BitVec w) :
    ∃ n, (∀ fuel, w < fuel → f fuel v = some n) ∧
      (IsCls v n.toNat ↔ v.getLsbD (w - 1) = true ∨ v.getLsbD (w - 2) = true) := by
  have hmask : ∀ v : BitVec w, (v &&& m == 0) = !v.getLsbD (w - 1) := and_mask_beq hm (by omega)
  cases hv : v.getLsbD (w - 1) with
  | false =>
      have hzero : v &&& m = 0 := by rw [← beq_iff_eq, hmask, hv]; rfl
      refine ⟨0, fun fuel _ => by rw [hf, if_pos hzero], ?_⟩
      have hcount : (0 : BitVec r).toNat = 0 := rfl
      rw [hcount, IsCls.zero_iff hw, hv]
      simp
  | true =>
      have hne : ¬v &&& m = 0 := by rw [← beq_iff_eq, hmask, hv]; decide
      have htest : ∀ v : BitVec w, (v &&& m != 0) = v.getLsbD (w - 1) := fun v => by
        rw [bne, hmask, Bool.not_not]
      obtain ⟨n, hlt, hloop, hcls⟩ := exists_firstFail_cls htest hv
      refine ⟨(BitVec.ofNat 32 n).setWidth r, fun fuel hfuel => ?_, ?_⟩
      · rw [hf, if_neg hne, countWhile_eq hloop (by omega)]
        rfl
      · have hn : ((BitVec.ofNat 32 n).setWidth r).toNat = n := by
          rw [BitVec.toNat_setWidth, BitVec.toNat_ofNat, Nat.mod_eq_of_lt (by omega),
            Nat.mod_eq_of_lt (by omega)]
        rw [hn]
        exact ⟨fun _ => .inl rfl, fun _ => hcls⟩

end Cls

/-! ## Sign bits, lane by lane -/

/-- `uint32_t vexop_cls32(uint32_t)`. -/
def vexopCls32Sig : LLVM.FnTy := ⟨[.int 32], .int 32⟩

/-- What `get_vt(32, 4)` and `get_vt(32, 2)` are: 32 lanes, narrower than the word the
function takes. -/
theorem opEmit_cls (fp : FPImpl) : ∀ o ∈ [(Iop.Cls32x2, 2), (.Cls32x4, 4)],
    opEmit fp o.1 = .helperUnopVec 32 o.2 "vexop_cls32" := by
  cases fp <;> decide

section Cls32

open LLVM

variable {helpers : Helpers} {b : Builder} {v : LLVM.Value}

/-- The emitter comes to its end, and not all of its instructions are well formed. -/
theorem cls_illFormed (hh : helpers "vexop_cls32" = some vexopCls32Sig) (hb : b.OK) {w : ℕ}
    (hw : w ≠ 32) : ∃ r b', ((OpEmit.helperUnopVec 32 w "vexop_cls32").build helpers [v]).run b =
      .ok (r, b') ∧ ¬ ∀ k i, Builder.Added b b' k i → i.WF = true := by
  have hfound : (OpEmit.helperUnopVec 32 w "vexop_cls32").fails helpers ([v].map Value.ty) = true →
      False := fun h => by simp [OpEmit.fails, hh] at h
  have hgives := OpEmit.build_gives (fun _ _ => trivial) (.helperUnopVec 32 w "vexop_cls32") rfl
    (show [v].length = 1 from rfl) (fun _ _ => trivial) hfound
  have hrej : (OpEmit.helperUnopVec 32 w "vexop_cls32").accepts helpers [v.ty] = false := by
    change (_ && OpEmit.takes helpers "vexop_cls32" [.int w] && _) = false
    simp [OpEmit.takes, hh, vexopCls32Sig, Ne.symm hw]
  cases hrun : ((OpEmit.helperUnopVec 32 w "vexop_cls32").build helpers [v]).run b with
  | error e => exact ((hgives True).run_error hrun).elim
  | ok p =>
      refine ⟨p.1, p.2, rfl, fun hall => ?_⟩
      obtain ⟨⟨ok, ⟨-, -, hacc⟩, hok⟩, -⟩ :=
        (hgives True).run hrun hb ⟨fun _ _ => trivial, fun _ _ _ => trivial⟩
      have := (hacc.1 (hok.2 ⟨trivial, hall⟩)).2
      rw [List.map_cons, List.map_nil, hrej] at this
      cases this

theorem cls_illFormed_op (fp : FPImpl) (hh : helpers "vexop_cls32" = some vexopCls32Sig) (hb : b.OK)
    {op : Iop} (hop : op = .Cls32x2 ∨ op = .Cls32x4) : ∃ r b',
      ((opEmit fp op).build helpers [v]).run b = .ok (r, b') ∧
        ¬ ∀ k i, Builder.Added b b' k i → i.WF = true := by
  rcases hop with rfl | rfl
  · rw [opEmit_cls fp (.Cls32x2, 2) (by decide)]
    exact cls_illFormed hh hb (by decide)
  · rw [opEmit_cls fp (.Cls32x4, 4) (by decide)]
    exact cls_illFormed hh hb (by decide)

end Cls32

/-- On no vector is the emitted code well formed. The two functions end on every word,
and count what they should exactly where the top bit or the bit below it is set. -/
theorem cls_statement (fp : FPImpl) (helpers : Helpers)
    (hh : helpers "vexop_cls32" = some vexopCls32Sig) (v : BitVec 32) (w : BitVec 64) :
    (∀ o ∈ [(Iop.Cls32x2, 64), (.Cls32x4, 128)], ∀ (b : LLVM.Builder) (a : LLVM.Value), b.OK →
      a.ty.bits = o.2 → ∃ r b', ((opEmit fp o.1).build helpers [a]).run b = .ok (r, b') ∧
        ¬ ∀ k i, LLVM.Builder.Added b b' k i → i.WF = true) ∧
    (∃ n, (∀ fuel, 32 < fuel → vexopCls32 fuel v = some n) ∧
      (IsCls v n.toNat ↔ v.getLsbD 31 = true ∨ v.getLsbD 30 = true)) ∧
    ∃ n, (∀ fuel, 64 < fuel → vexopCls64 fuel w = some n) ∧
      (IsCls w n.toNat ↔ w.getLsbD 63 = true ∨ w.getLsbD 62 = true) := by
  refine ⟨fun o ho b a hb _ => cls_illFormed_op fp hh hb ?_, ?_, ?_⟩
  · simp only [List.mem_cons, List.not_mem_nil, or_false] at ho
    exact ho.imp (fun h => congrArg Prod.fst h) fun h => congrArg Prod.fst h
  · refine cls_ends (m := 0x80000000) (by decide) (by decide) (by decide) (by decide)
      (fun fuel v => ?_) v
    rw [vexopCls32]
    simp only [BitVec.setWidth_eq, Option.map_id']
    rfl
  · exact cls_ends (m := 0x8000000000000000) (by decide) (by decide) (by decide) (by decide)
      (fun _ _ => rfl) w

def clsHelpers : Helpers := fun f => if f = "vexop_cls32" then some vexopCls32Sig else none

/-- The zero vector, and minus two. -/
theorem cls_minusTwo :
    (∃ r b', ((opEmit .native .Cls32x4).build clsHelpers [.const (.vec 16 (.int 8)) 0]).run
        GenLLVM.beginBB.toBuilder = .ok (r, b') ∧
      ¬ ∀ k i, LLVM.Builder.Added GenLLVM.beginBB.toBuilder b' k i → i.WF = true) ∧
    ∃ n, vexopCls32 33 0xfffffffe = some n ∧ IsCls (0xfffffffe : BitVec 32) n.toNat := by
  obtain ⟨hemit, ⟨n, hn, hcls⟩, -⟩ := cls_statement .native clsHelpers rfl 0xfffffffe 0
  exact ⟨hemit (.Cls32x4, 128) (by decide) _ _ VexSB.beginBB_OK.builder rfl,
    n, hn 33 (by decide), hcls.2 (.inl (by decide))⟩

/-- Zero has 31 bits that are equal to its top bit, and none are counted; and the code
for a vector of zeros is not well formed. -/
theorem cls_zero :
    (∀ fuel, vexopCls32 fuel 0 = some 0) ∧ ¬ IsCls (0 : BitVec 32) 0 ∧ IsCls (0 : BitVec 32) 31 ∧
    ∃ r b', ((opEmit .native .Cls32x4).build clsHelpers [.const (.vec 16 (.int 8)) 0]).run
        GenLLVM.beginBB.toBuilder = .ok (r, b') ∧
      ¬ ∀ k i, LLVM.Builder.Added GenLLVM.beginBB.toBuilder b' k i → i.WF = true := by
  refine ⟨fun _ => rfl, fun h => ?_, ⟨by decide, fun j _ => by simp, .inl rfl⟩,
    cls_illFormed_op .native rfl VexSB.beginBB_OK.builder (.inr rfl)⟩
  exact (IsCls.zero_iff (by decide)).1 h rfl

end VexLLVM
