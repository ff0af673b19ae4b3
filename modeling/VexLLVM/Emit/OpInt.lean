import VexLLVM.Emit.OpValue
import VexLLVM.Vex.IntOp

/-!
# The scalar integer operations

What is emitted for the integer operations computes what they mean. By families:
each has one emitter, and the operations of the family only give it their widths.
-/

namespace VexLLVM

open LLVM LLVM.Code Vex Word

def intUnopEmit : IntUnop → OpEmit
  | .not _ => .unopNot
  | .widen signed w w' => .xToY (extOp signed) (.int w) (.int w')
  | .narrow w w' => .xToY .trunc (.int w) (.int w')
  | .high w => if w = 64 then .hi128to64 else .xhiToY w

def intUnopFits : IntUnop → Bool
  | .not _ => true
  | .widen _ w w' => decide (w < w')
  | .narrow w w' => decide (w' ≤ w)
  | .high w => decide (0 < w)

def arithOp : IntArith → BinOp
  | .add => .add
  | .sub => .sub
  | .mul => .mul
  | .and => .and
  | .or => .or
  | .xor => .xor

def shiftOp : IntShift → BinOp
  | .shl => .shl
  | .shr => .lshr
  | .sar => .ashr

def cmpPred : IntCmp → IPred
  | .eq => .eq
  | .ne => .ne
  | .lt signed => ltPred signed
  | .le signed => if signed then .sle else .ule

def intBinopEmit : IntBinop → OpEmit
  | .arith o _ => .binop (.bin (arithOp o))
  | .shift o w => .shift (shiftOp o) w.log2
  | .cmp o _ => .binop (.icmp (cmpPred o))
  | .mull signed w => .binopExpand (extOp signed) (.int (2 * w)) .mul
  | .concat w => .hlTo w (2 * w)

def intBinopFits : IntBinop → Bool
  | .arith _ _ | .cmp _ _ => true
  | .shift _ w => decide (2 ^ w.log2 = w ∧ w.log2 ≤ 8)
  | .mull _ w | .concat w => decide (0 < w)

theorem opEmit_intUnop (fp : FPImpl) {op : Iop} {o : IntUnop} (h : op.intUnop? = some o) :
    opEmit fp op = intUnopEmit o ∧ intUnopFits o = true := by
  have hall : ∀ op : Iop, ∀ o ∈ op.intUnop?, ∀ fp ∈ [FPImpl.native, FPImpl.softfloat],
      opEmit fp op = intUnopEmit o ∧ intUnopFits o = true :=
    Iop.forall_of_ofNat (by decide +kernel)
  exact hall op o h fp (by cases fp <;> simp)

theorem opEmit_intBinop (fp : FPImpl) {op : Iop} {o : IntBinop} (h : op.intBinop? = some o) :
    opEmit fp op = intBinopEmit o ∧ intBinopFits o = true := by
  have hall : ∀ op : Iop, ∀ o ∈ op.intBinop?, ∀ fp ∈ [FPImpl.native, FPImpl.softfloat],
      opEmit fp op = intBinopEmit o ∧ intBinopFits o = true :=
    Iop.forall_of_ofNat (by decide +kernel)
  exact hall op o h fp (by cases fp <;> simp)

/-! ## One operand -/

section Families

variable {ev : LLVM.Value → Option RVal} {m : Machine} {w : ℕ} {a : BitVec w} {v : LLVM.Value}

theorem computes_not (hev : Consts ev) (hv : v.Word ev a) :
    (createNot v : OpCode).Computes ev m (LLVM.Value.Word ev (~~~a)) := by
  have hxor : BinOp.xor.eval w a.toNat (2 ^ w - 1) = some (~~~a).toNat := by
    have hlt : 2 ^ w - 1 < 2 ^ w := Nat.sub_lt (Nat.two_pow_pos w) Nat.one_pos
    have hones : BitVec.ofNat w (2 ^ w - 1) = BitVec.allOnes w := BitVec.eq_of_toNat_eq (by
      rw [BitVec.toNat_ofNat, BitVec.toNat_allOnes, Nat.mod_eq_of_lt hlt])
    simp only [BinOp.eval, hones, BitVec.ofNat_toNat, BitVec.setWidth_eq, BitVec.xor_allOnes]
  unfold createNot allOnes
  rw [hv.ty]
  exact computes_bin hv ⟨rfl, hev _ _⟩ hxor

/-- A conversion of a value that has the width it is made from. -/
theorem computes_converted {k : CastOp} {r : RVal} {t : Scalar} (hv : v.Word ev a)
    (h : ∀ v, v.Word ev a → (createCast k v (.scalar t) : OpCode).Computes ev m
      (LLVM.Value.Holds ev (.scalar t) r)) :
    (OpEmit.emitXToY k (.int w) t v).Computes ev m (LLVM.Value.Holds ev (.scalar t) r) := by
  have hw : v.ty.bits = (Scalar.int w).bits := by rw [hv.ty]; rfl
  unfold OpEmit.emitXToY
  dsimp only
  rw [hw, if_neg (Nat.lt_irrefl _), if_neg (Nat.lt_irrefl _)]
  exact (computes_cast_self .bitcast hv).then h

theorem computes_xhi {a : BitVec (2 * w)} (hw : 0 < w) (hev : Consts ev) (hv : v.Word ev a) :
    (OpEmit.emitXhiToY w v).Computes ev m
      (LLVM.Value.Word ev (BitVec.ofNat w (a.toNat / 2 ^ w))) := by
  have hr : (a >>> w).setWidth w = BitVec.ofNat w (a.toNat / 2 ^ w) := BitVec.eq_of_toNat_eq (by
    rw [BitVec.toNat_setWidth, BitVec.toNat_ushiftRight, Nat.shiftRight_eq_div_pow,
      BitVec.toNat_ofNat])
  unfold OpEmit.emitXhiToY
  rw [Nat.mul_comm w 2, ← hr]
  refine (computes_cast_self .bitcast hv).then fun v hv => ?_
  refine (computes_bin hv (word_constInt hev (2 * w) w) (eval_lshr a (by omega))).then
    fun s hs => ?_
  exact computes_truncWord hs (by omega)

theorem computes_hi128 {a : BitVec 128} (hev : Consts ev) (hv : v.Word ev a) :
    (OpEmit.emitHi128to64 v).Computes ev m
      (LLVM.Value.Word ev (BitVec.ofNat 64 (a.toNat / 2 ^ 64))) := by
  have hbits : v.ty.bits = 128 := by rw [hv.ty]; rfl
  have hr : laneOf 64 a.toNat 1 = BitVec.ofNat 64 (a.toNat / 2 ^ 64) := BitVec.eq_of_toNat_eq (by
    rw [toNat_laneOf, BitVec.toNat_ofNat]
    rfl)
  unfold OpEmit.emitHi128to64 OpEmit.emitV128to64
  rw [if_pos hbits, ← hr]
  refine (computes_lanes (n := 2) hv a.isLt).then fun v hv => ?_
  exact computes_extract hv (num_get32i (n := 2) hev (by decide) (by decide)) (by decide)

end Families

theorem yields_intUnop {o : IntUnop} (hf : intUnopFits o = true) (a : BitVec o.arg) :
    (intUnopEmit o).Yields [.ofWord a] (.ofWord (o.eval a)) := by
  refine yields_unary fun helpers ev m v hev hv => ?_
  cases o with
  | not w => exact computes_not hev hv
  | widen signed w w' =>
      exact computes_converted hv fun v hv => computes_ext signed hv (of_decide_eq_true hf)
  | narrow w w' =>
      exact computes_converted hv fun v hv => computes_truncWord hv (of_decide_eq_true hf)
  | high w =>
      have hw := of_decide_eq_true hf
      by_cases h64 : w = 64
      · subst h64
        exact computes_hi128 hev hv
      · rw [intUnopEmit, if_neg h64]
        exact computes_xhi hw hev hv

/-! ## Two operands -/

section Families

variable {ev : LLVM.Value → Option RVal} {m : Machine} {w : ℕ} {a b : BitVec w} {v₁ v₂ : LLVM.Value}

theorem eval_arithOp (o : IntArith) (a b : BitVec w) :
    (arithOp o).eval w a.toNat b.toNat = some (o.eval a b).toNat := by
  cases o <;> simp [arithOp, BinOp.eval, IntArith.eval]

theorem eval_shiftOp (o : IntShift) (a : BitVec w) {n : ℕ} (hn : n < w) :
    (shiftOp o).eval w a.toNat n = some (o.eval a n).toNat := by
  have hlt : n < 2 ^ w := hn.trans Nat.lt_two_pow_self
  cases o <;> simp [shiftOp, BinOp.eval, IntShift.eval, Nat.mod_eq_of_lt hlt, hn]

theorem eval_cmpPred (o : IntCmp) (a b : BitVec w) :
    (cmpPred o).eval w a.toNat b.toNat = o.eval a b := by
  cases o with
  | eq => simp [cmpPred, IPred.eval, IntCmp.eval, Bool.beq_eq_decide_eq]
  | ne => simp [cmpPred, IPred.eval, IntCmp.eval, bne, Bool.beq_eq_decide_eq]
  | lt signed => exact eval_ltPred a b signed
  | le signed =>
      cases signed <;> simp [cmpPred, IPred.eval, IntCmp.eval, reading, BitVec.sle, BitVec.ule]

theorem computes_cmp (o : IntCmp) (h₁ : v₁.Word ev a) (h₂ : v₂.Word ev b) :
    (createICmp (cmpPred o) v₁ v₂ : OpCode).Computes ev m
      (LLVM.Value.Word ev (BitVec.ofBool (o.eval a b))) := by
  have h := computes_icmp (ε := EmitError) (m := m) (cmpPred o) h₁ h₂
  rw [eval_cmpPred, ← BitVec.toNat_ofBool] at h
  exact h

/-- An operation whose second operand is widened to the first: it has its width. -/
theorem computes_binop (y : Create2) {t : Ty} {r : ℕ} (h₁ : v₁.Word ev a) (h₂ : v₂.Word ev b)
    (h : ∀ v, v.Word ev b → (create2 y v₁ v : OpCode).Computes ev m
      (LLVM.Value.Holds ev t (.bits r))) :
    (OpEmit.emitBinop y v₁ v₂).Computes ev m (LLVM.Value.Holds ev t (.bits r)) := by
  unfold OpEmit.emitBinop
  rw [h₁.ty]
  exact (computes_zext h₂ w).then h

theorem computes_shift {o : IntShift} {n : BitVec 8} {k : ℕ} (hk : 2 ^ k = w) (hk' : k ≤ 8)
    (hn : n.toNat < w) (h₁ : v₁.Word ev a) (h₂ : v₂.Word ev n) :
    (OpEmit.emitShift (shiftOp o) k v₁ v₂).Computes ev m
      (LLVM.Value.Word ev (o.eval a n.toNat)) := by
  unfold OpEmit.emitShift
  refine (computes_trunc h₂ n.isLt hk').then fun t ht => ?_
  rw [h₁.ty, Nat.mod_eq_of_lt (hk ▸ hn)] at *
  refine (computes_zext ht w).then fun t ht => ?_
  exact computes_bin h₁ ht (eval_shiftOp o a hn)

theorem computes_mull (signed : Bool) (hw : 0 < w) (h₁ : v₁.Word ev a) (h₂ : v₂.Word ev b) :
    (OpEmit.emitBinopExpand (extOp signed) (.int (2 * w)) .mul v₁ v₂).Computes ev m
      (LLVM.Value.Word ev (BitVec.ofInt (2 * w) (reading signed a * reading signed b))) := by
  unfold OpEmit.emitBinopExpand
  refine (computes_ext signed h₁ (by omega)).then fun u₁ hu₁ => ?_
  refine (computes_ext signed h₂ (by omega)).then fun u₂ hu₂ => ?_
  rw [BitVec.ofInt_mul]
  exact computes_bin hu₁ hu₂ (eval_mul _ _)

theorem toNat_setWidth_double (a : BitVec w) : (a.setWidth (2 * w)).toNat = a.toNat := by
  have hle : 2 ^ w ≤ 2 ^ (2 * w) := Nat.pow_le_pow_right Nat.two_pos
    (Nat.le_mul_of_pos_left w Nat.two_pos)
  rw [BitVec.toNat_setWidth, Nat.mod_eq_of_lt (a.isLt.trans_le hle)]

/-- Two words put together by a shift and an or. -/
theorem or_shiftLeft_eq (a b : BitVec w) :
    b.setWidth (2 * w) ||| a.setWidth (2 * w) <<< w = BitVec.ofNat (2 * w)
      (a.toNat * 2 ^ w + b.toNat) := by
  have hlt : a.toNat * 2 ^ w + b.toNat < 2 ^ (2 * w) := by
    rw [Nat.two_mul, Nat.pow_add]
    calc a.toNat * 2 ^ w + b.toNat < a.toNat * 2 ^ w + 2 ^ w := Nat.add_lt_add_left b.isLt _
      _ = (a.toNat + 1) * 2 ^ w := (Nat.succ_mul _ _).symm
      _ ≤ 2 ^ w * 2 ^ w := Nat.mul_le_mul_right _ a.isLt
  refine BitVec.eq_of_toNat_eq ?_
  rw [BitVec.toNat_or, BitVec.toNat_shiftLeft, toNat_setWidth_double, toNat_setWidth_double,
    BitVec.toNat_ofNat, Nat.shiftLeft_eq, Nat.mod_eq_of_lt hlt,
    Nat.mod_eq_of_lt ((Nat.le_add_right _ _).trans_lt hlt), ← Nat.shiftLeft_eq, Nat.or_comm,
    Nat.shiftLeft_add_eq_or_of_lt b.isLt]

theorem computes_concat (hw : 0 < w) (hev : Consts ev) (h₁ : v₁.Word ev a) (h₂ : v₂.Word ev b) :
    (OpEmit.emitHLto w (2 * w) v₁ v₂).Computes ev m
      (LLVM.Value.Word ev (BitVec.ofNat (2 * w) (a.toNat * 2 ^ w + b.toNat))) := by
  have hzext : ∀ {c : BitVec w} {v : LLVM.Value}, v.Word ev c →
      (createZExt v (.int (2 * w)) : OpCode).Computes ev m
        (LLVM.Value.Word ev (c.setWidth (2 * w))) := by
    intro c v hv
    change Computes ev m (LLVM.Value.Num ev (2 * w) (c.setWidth (2 * w)).toNat) _
    rw [toNat_setWidth_double]
    exact computes_zext hv (2 * w)
  unfold OpEmit.emitHLto
  rw [← or_shiftLeft_eq]
  refine (hzext h₁).then fun hi hhi => (hzext h₂).then fun lo hlo => ?_
  refine (computes_bin hhi (word_constInt hev (2 * w) w) (eval_shl _ (by omega))).then
    fun s hs => ?_
  exact computes_bin hlo hs (eval_or _ _)

end Families

theorem yields_intBinop {o : IntBinop} (hf : intBinopFits o = true) {a : BitVec o.lhs}
    {b : BitVec o.rhs} {r : BitVec o.res} (hr : o.eval a b = some r) :
    (intBinopEmit o).Yields [.ofWord a, .ofWord b] (.ofWord r) := by
  refine yields_binary fun helpers ev m v₁ v₂ hev h₁ h₂ => ?_
  cases o with
  | arith o w =>
      cases hr
      exact computes_binop _ h₁ h₂ fun v hv => computes_bin h₁ hv (eval_arithOp o a b)
  | shift o w =>
      obtain ⟨hw, hk⟩ := of_decide_eq_true hf
      have hr : (if b.toNat < w then some (o.eval a b.toNat) else none) = some r := hr
      split at hr
      · next hn =>
          cases hr
          exact computes_shift hw hk hn h₁ h₂
      · cases hr
  | cmp o w =>
      cases hr
      exact computes_binop _ h₁ h₂ fun v hv => computes_cmp o h₁ hv
  | mull signed w =>
      cases hr
      exact computes_mull signed (of_decide_eq_true hf) h₁ h₂
  | concat w =>
      cases hr
      exact computes_concat (of_decide_eq_true hf) hev h₁ h₂

end VexLLVM
