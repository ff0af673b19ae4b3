import VexLLVM.Emit.OpHalf
import VexLLVM.Emit.OpInt
import VexLLVM.Emit.OpSat
import VexLLVM.Emit.OpShiftN
import VexLLVM.Emit.OpShuffle
import VexLLVM.Emit.OpSplit
import VexLLVM.Vex.VecOp

/-!
# The vector operations

What is emitted for every operation on vectors of integers computes what it means, in
whatever types of their width the operands are carried. Operands that the emitter does
not cast have to be integers.
-/

namespace VexLLVM

open LLVM LLVM.Code Vex Word OpEmit

/-! ## The emitters -/

def fpScalar (w : ℕ) : Scalar := if w = 64 then .double else .float

def vecUnopEmit : VecUnop → OpEmit
  | .not => .unopvNot (.int 128)
  | .widen _ => .utoV128
  | .half high => .v128to64 (if high then 1 else 0)
  | .topBits n => .getMSBs8x n
  | .dup => .dup8x16
  | .reinterp toInt w =>
      if toInt then .xToY .bitcast (fpScalar w) (.int w) else .xToY .bitcast (.int w) (fpScalar w)

def vecUnopFits : VecUnop → Bool
  | .not | .half _ | .dup => true
  | .widen w => decide (w ≤ 128)
  | .topBits n => decide (8 ≤ n ∧ n ≤ 16)
  | .reinterp _ w => decide (w = 32 ∨ w = 64)

def vecUnopTy : VecUnop → Ty
  | .not | .dup => .int 128
  | .widen _ => .vec 16 (.int 8)
  | .half _ => .int 64
  | .topBits n => .int n
  | .reinterp toInt w => .scalar (if toInt then .int w else fpScalar w)

def vecUnopTakes (o : VecUnop) (t : Ty) : Bool :=
  match o with
  | .widen _ | .dup => t = .int o.arg
  | _ => t.bits = o.arg

def lanePred : LaneCmp → IPred
  | .eq => .eq
  | .gt signed => gtPred signed

def sumLanes (sub signed : Bool) (n w : ℕ) : SumOp := ⟨.Add8x8, sub, w, signed, n⟩

def laneLanes (signed : Bool) (n w : ℕ) : LaneOp := ⟨.Add8x8, w, signed, n⟩

def vecBinopEmit : VecBinop → OpEmit
  | .whole o w => .opv (.int w) (.bin (arithOp o))
  | .arith o n w => .opv (.vec n (.int w)) (.bin (arithOp o))
  | .shift o n w => .opv (.vec n (.int w)) (.bin (shiftOp o))
  | .shiftN o n w => .opvs n w (shiftOp o)
  | .cmp o n w => .opvCmp (.vec n (.int w)) (.icmp (lanePred o)) (.vec n (.int w))
  | .pick greatest signed n w =>
      .bincmp n (.int w) (.icmp (if greatest then gtPred signed else ltPred signed))
  | .sat sub signed n w => (sumLanes sub signed n w).satEmitter
  | .narrow signed n w => (laneLanes signed n w).narrowEmitter
  | .mulHigh signed n w => (laneLanes signed n w).mulHiEmitter
  | .avg signed n w => (laneLanes signed n w).avgEmitter
  | .halve sub signed n w => (sumLanes sub signed n w).hopEmitter
  | .interleave high n w => .ileave ((List.range n).map (IleaveOps.index n high)) n w
  | .permute n => .opshuf n 8
  | .setLow n w => .setV128lo n w
  | .concat => .hl64toV128
  | .elem n w => .getElem n w

def vecBinopFits : VecBinop → Bool
  | .shiftN _ n w => decide (8 ≤ w ∧ 2 ≤ n)
  | .cmp _ _ w => decide (1 < w)
  | .pick _ _ n _ => decide (n ≤ 16)
  | .sat _ _ n w | .avg _ n w | .halve _ _ n w => decide (0 < w ∧ n ≤ 16)
  | .narrow _ n w => decide (2 ≤ w ∧ n ≤ 16)
  | .mulHigh _ n w => decide (0 < w ∧ 0 < n)
  | .interleave _ n w => decide (∃ e ∈ ileaveOps, e.n = n ∧ e.w = w)
  | .permute n => decide (n ≤ 16)
  | .setLow n _ => decide (0 < n)
  | _ => true

def vecBinopTy : VecBinop → Ty
  | .whole _ w => .int w
  | .halve _ _ n w => .int (n * w)
  | .narrow _ n w => .vec (2 * n) (.int (w / 2))
  | .permute n => .vec n (.int 8)
  | .concat => .vec 16 (.int 8)
  | .elem _ w => .int w
  | .arith _ n w | .shift _ n w | .shiftN _ n w | .cmp _ n w | .pick _ _ n w | .sat _ _ n w
  | .mulHigh _ n w | .avg _ n w | .interleave _ n w | .setLow n w => .vec n (.int w)

/-- The types the second operand may have; the first is always cast. -/
def vecBinopTakes (o : VecBinop) (t : Ty) : Bool :=
  match o with
  | .shiftN _ _ _ | .elem _ _ | .setLow _ _ => t = .int o.rhs
  | _ => t.bits = o.rhs

theorem opEmit_vecUnop (fp : FPImpl) {op : Iop} {o : VecUnop} (h : op.vecUnop? = some o) :
    opEmit fp op = vecUnopEmit o ∧ vecUnopFits o = true := by
  have hall : ∀ op : Iop, ∀ o ∈ op.vecUnop?, ∀ fp ∈ [FPImpl.native, FPImpl.softfloat],
      opEmit fp op = vecUnopEmit o ∧ vecUnopFits o = true :=
    Iop.forall_of_ofNat (by decide +kernel)
  exact hall op o h fp (by cases fp <;> simp)

theorem opEmit_vecBinop (fp : FPImpl) {op : Iop} {o : VecBinop} (h : op.vecBinop? = some o) :
    opEmit fp op = vecBinopEmit o ∧ vecBinopFits o = true := by
  have hall : ∀ op : Iop, ∀ o ∈ op.vecBinop?, ∀ fp ∈ [FPImpl.native, FPImpl.softfloat],
      opEmit fp op = vecBinopEmit o ∧ vecBinopFits o = true :=
    Iop.forall_of_ofNat (by decide +kernel)
  exact hall op o h fp (by cases fp <;> simp)

theorem opEmit_vecTriop (fp : FPImpl) {op : Iop} {o : VecTriop} (h : op.vecTriop? = some o) :
    opEmit fp op = .setElem o.n o.w := by
  cases op <;> cases h <;> rfl

/-! ## Results -/

/-- Emitted on the operands, the operation computes the word, in the type. -/
def OpEmit.Returns (o : OpEmit) (args : List Datum) (t : Ty) {k : ℕ} (z : BitVec k) : Prop :=
  ∃ r : Datum, o.Yields args r ∧ r.ty = t ∧ r.bits = z.toNat

section Results

variable {o : OpEmit} {args : List Datum} {a b c : Datum} {n w k : ℕ} {t : Ty}
  {ev : LLVM.Value → Option RVal} {m : Machine} {v v₁ v₂ : LLVM.Value}

theorem Datum.lane_eq {x : BitVec k} (h : a.bits = x.toNat) (i : ℕ) : Vex.lane w x i = a.lane w i := by
  rw [Vex.lane, ← h, Datum.lane]

theorem Datum.Carried.word {x : BitVec k} (h : a.Carried ev v) (ht : a.ty = .int k)
    (hx : a.bits = x.toNat) : v.Word ev x :=
  ⟨h.ty.trans ht, by rw [h.eq, hx]⟩

/-- A bitcast to an integer. -/
theorem Datum.Carried.cast {x : BitVec k} (h : a.Carried ev v) (hx : a.bits = x.toNat) :
    (createBitCast v (.int k) : OpCode).Computes ev m (LLVM.Value.Word ev x) :=
  (computes_bitCast h _).mono fun u hu => ⟨hu.ty, by rw [hu.eq, hx]⟩

theorem OpEmit.Returns.of_unary {z : BitVec k} (ht : t.bits = k)
    (h : ∀ helpers ev m v, Consts ev → a.Carried ev v →
      (o.build helpers [v]).Computes ev m (LLVM.Value.Holds ev t (.bits z.toNat))) :
    o.Returns [a] t z :=
  ⟨.carrying t ht z, yields_unary h, rfl, rfl⟩

theorem OpEmit.Returns.of_binary {z : BitVec k} (ht : t.bits = k)
    (h : ∀ helpers ev m v₁ v₂, Consts ev → a.Carried ev v₁ → b.Carried ev v₂ →
      (o.build helpers [v₁, v₂]).Computes ev m (LLVM.Value.Holds ev t (.bits z.toNat))) :
    o.Returns [a, b] t z :=
  ⟨.carrying t ht z, yields_binary h, rfl, rfl⟩

theorem OpEmit.Returns.of_ofLanes {f g : ℕ → BitVec w} (h : o.Yields args (.ofLanes n f))
    (hfg : ∀ i < n, f i = g i) : o.Returns args (.vec n (.int w)) (vector n g) :=
  ⟨_, h, rfl, (pack_congr hfg).trans (toNat_vector n g).symm⟩

theorem OpEmit.Returns.of_ofPacked {f g : ℕ → BitVec w} (h : o.Yields args (.ofPacked n f))
    (hfg : ∀ i < n, f i = g i) : o.Returns args (.int (n * w)) (vector n g) :=
  ⟨_, h, rfl, (pack_congr hfg).trans (toNat_vector n g).symm⟩

/-- A vector that is known by its lanes. -/
theorem holds_vector {f g : ℕ → BitVec w} (h : v.Vec ev n f) (hfg : ∀ i < n, f i = g i) :
    v.Holds ev (.vec n (.int w)) (.bits (vector n g).toNat) :=
  ⟨h.ty, by rw [h.eq, toNat_vector, pack_congr hfg]⟩

theorem bitsFrom_eq {s : ℕ} (hs : s ≤ w) (x : ℤ) : bitsFrom s w x = BitVec.ofInt w (bitsAt s w x) := by
  rw [← toNat_bitsFrom hs, BitVec.ofInt_natCast, BitVec.ofNat_toNat, BitVec.setWidth_eq]

end Results

/-! ## One operand -/

section Unary

variable {a : Datum}

theorem topBits_eq (f : ℕ → BitVec 8) (n : ℕ) :
    topBits n f n = (vector n fun i => BitVec.ofBool (f i).msb).cast (Nat.mul_one n) := by
  refine BitVec.eq_of_getLsbD_eq fun i hi => ?_
  have hlane : laneOf 1 (vector n fun i => BitVec.ofBool (f i).msb).toNat i = BitVec.ofBool (f i).msb :=
    lane_vector _ hi
  have hbit : (vector n fun i => BitVec.ofBool (f i).msb).getLsbD i = (f i).msb := by
    have h := congrArg (BitVec.getLsbD · 0) hlane
    simp only [laneOf, LLVM.lane, BitVec.getLsbD_ofNat, Nat.testBit_mod_two_pow,
      Nat.testBit_div_two_pow, BitVec.getLsbD_ofBool] at h
    change (vector n fun i => BitVec.ofBool (f i).msb).toNat.testBit i = _
    simpa using h
  rw [getLsbD_topBits f n hi, BitVec.getLsbD_cast, hbit, decide_eq_true hi, Bool.true_and]
  rfl

theorem dup8x16_eq (b : BitVec 8) : dup8x16 b = vector 16 fun _ => b := by
  refine BitVec.eq_of_toNat_eq ?_
  rw [toNat_vector, ← pack_laneOf (n := 16) (w := 8) (dup8x16 b).isLt]
  exact pack_congr fun i hi => laneOf_dup8x16 b hi

/-- A bitcast from a type of the operand's width needs no repair. -/
theorem computes_reinterp {ev : LLVM.Value → Option RVal} {m : Machine} {v : LLVM.Value} {w z : Scalar}
    {k : ℕ} {x : BitVec k} (ha : a.ty.bits = w.bits) (hx : a.bits = x.toNat) (hv : a.Carried ev v) :
    (emitXToY .bitcast w z v).Computes ev m (LLVM.Value.Holds ev (.scalar z) (.bits x.toNat)) := by
  have hbits : v.ty.bits = w.bits := by rw [hv.ty, ha]
  unfold emitXToY
  dsimp only
  rw [hbits, if_neg (Nat.lt_irrefl _), if_neg (Nat.lt_irrefl _), ← hx]
  exact (computes_bitCast hv _).then fun u hu => computes_bitCast hu _

theorem returns_vecUnop {o : VecUnop} (hf : vecUnopFits o = true) (ht : vecUnopTakes o a.ty = true)
    {x : BitVec o.arg} (hx : a.bits = x.toNat) :
    (vecUnopEmit o).Returns [a] (vecUnopTy o) (o.eval x) := by
  cases o with
  | not =>
      refine .of_unary rfl fun helpers ev m v hev hv => ?_
      exact (hv.cast hx).then fun u hu => computes_not hev hu
  | widen w =>
      have hw := of_decide_eq_true hf
      have ha : a.ty = .int w := of_decide_eq_true ht
      change BitVec w at x
      refine .of_unary rfl fun helpers ev m v hev hv => ?_
      refine (computes_zext (hv.word ha hx) 128).then fun u hu => ?_
      rw [← BitVec.toNat_setWidth_of_le hw] at hu
      exact computes_bitCast hu _
  | half high =>
      have ha : a.ty.bits = 2 * 64 := of_decide_eq_true ht
      refine .of_unary rfl fun helpers ev m v hev hv => ?_
      change Computes ev m (LLVM.Value.Word ev (Vex.lane 64 x _)) _
      rw [Datum.lane_eq hx]
      exact computes_v128to64 hev hv ha (by cases high <;> decide)
  | topBits n =>
      have hn := of_decide_eq_true hf
      have ha : a.ty.bits = n * 8 := of_decide_eq_true ht
      refine .of_unary rfl fun helpers ev m v hev hv => ?_
      change Computes ev m (LLVM.Value.Word ev (BitVec.cast (Nat.mul_one n)
        (vector n fun i => BitVec.ofBool (Vex.lane 8 x i).msb))) _
      simp only [Datum.lane_eq hx]
      rw [← topBits_eq]
      exact computes_getMSBs8x hev hn.1 (hn.2.trans (by decide)) hv ha
  | dup =>
      change BitVec 8 at x
      refine .of_unary rfl fun helpers ev m v hev hv => ?_
      change Computes ev m (LLVM.Value.Word ev (vector 16 fun _ => x)) _
      rw [← dup8x16_eq]
      exact computes_dup8x16 hev (hv.word (of_decide_eq_true ht) hx)
  | reinterp toInt w =>
      have ha : a.ty.bits = w := of_decide_eq_true ht
      have hfp : (fpScalar w).bits = w := by
        obtain rfl | rfl := of_decide_eq_true hf <;> rfl
      cases toInt with
      | true =>
          refine .of_unary rfl fun helpers ev m v hev hv => ?_
          exact computes_reinterp (ha.trans hfp.symm) hx hv
      | false =>
          refine .of_unary hfp fun helpers ev m v hev hv => ?_
          exact computes_reinterp (w := .int w) ha hx hv

end Unary

/-! ## Two operands -/

section Lanes

variable {ev : LLVM.Value → Option RVal} {m : Machine} {v₁ v₂ : LLVM.Value} {n w : ℕ}
  {f g : ℕ → BitVec w}

theorem eval_lanePred (o : LaneCmp) (p q : BitVec w) :
    (lanePred o).eval w p.toNat q.toNat = o.eval p q := by
  cases o with
  | eq => simp [lanePred, IPred.eval, LaneCmp.eval, Bool.beq_eq_decide_eq]
  | gt signed => exact eval_gtPred p q signed

theorem signExtend_ofBool (c : Bool) (w : ℕ) :
    (BitVec.ofBool c).signExtend w = if c then BitVec.allOnes w else 0 := by
  cases c with
  | false => simp [BitVec.signExtend]
  | true => simp [BitVec.signExtend, BitVec.ofInt_neg, BitVec.neg_one_eq_allOnes]

/-- A comparison of all lanes, and ones where it holds. -/
theorem computes_laneCmp (o : LaneCmp) (hw : 1 < w) (h₁ : v₁.Vec ev n f) (h₂ : v₂.Vec ev n g) :
    (do
      let c ← create2 (.icmp (lanePred o)) v₁ v₂
      createCast .sext c (.vec n (.int w)) : OpCode).Computes ev m
      (LLVM.Value.Vec ev n fun i => if o.eval (f i) (g i) then BitVec.allOnes w else 0) := by
  have hcmp : (create2 (.icmp (lanePred o)) v₁ v₂ : OpCode).Computes ev m
      (LLVM.Value.Vec ev n fun i => BitVec.ofBool (o.eval (f i) (g i))) := by
    have hlanes : mapLanes₂ n w 1 (fun a b => some ((lanePred o).eval w a b).toNat) (pack n f)
        (pack n g) = some (pack n fun i => BitVec.ofBool (o.eval (f i) (g i))) :=
      mapLanes₂_pack fun i _ => by rw [eval_lanePred, BitVec.toNat_ofBool]
    refine computes_create ?_ (by rw [Create2.inst, Inst.ty, h₁.ty]; rfl)
    simp [Create2.inst, Inst.value, Inst.createEval, Inst.sameTypeCast?, Inst.eval, h₁.eq, h₂.eq,
      h₁.ty, Inst.evalIcmp, hlanes]
  refine hcmp.then fun c hc => ?_
  refine (computes_vecCast hc (Nat.ne_of_lt hw) (by decide) (by decide) fun i _ => ?_)
  rw [← signExtend_ofBool, CastOp.evalElem, BitVec.ofNat_toNat, BitVec.setWidth_eq]

/-- Of two lanes, the one that the comparison selects. -/
theorem pick_eq (greatest signed : Bool) (p q : BitVec w) :
    (if (if greatest then gtPred signed else ltPred signed).eval w p.toNat q.toNat then p else q) =
      BitVec.ofInt w ((if greatest then max else min) (reading signed p) (reading signed q)) := by
  cases greatest with
  | true =>
      simp only [if_true, eval_gtPred, decide_eq_true_eq]
      split
      · next h => rw [max_eq_left h.le, ofInt_reading]
      · next h => rw [max_eq_right (not_lt.1 h), ofInt_reading]
  | false =>
      simp only [Bool.false_eq_true, if_false, eval_ltPred, decide_eq_true_eq]
      split
      · next h => rw [min_eq_left h.le, ofInt_reading]
      · next h => rw [min_eq_right (not_lt.1 h), ofInt_reading]

theorem computes_pick {p : IPred} (hev : Consts ev) (hn : n ≤ 2 ^ 32) (h₁ : v₁.Vec ev n f)
    (h₂ : v₂.Vec ev n g) :
    (insertLanes n (.int w) fun i => do
      let e1 ← createExtractElement v₁ (get32i i)
      let e2 ← createExtractElement v₂ (get32i i)
      let c ← create2 (.icmp p) e1 e2
      createSelect c e1 e2).Computes ev m fun v => (Datum.ofLanes n fun i =>
        if p.eval w (f i).toNat (g i).toNat then f i else g i).Carried ev v :=
  computes_insertLanes hev hn fun _ hi =>
    (computes_extract h₁ (num_get32i hev hn hi) hi).then fun _ he₁ =>
      (computes_extract h₂ (num_get32i hev hn hi) hi).then fun _ he₂ =>
        (computes_icmp p he₁ he₂).then fun _ hc => computes_select hc he₁ he₂

end Lanes

section Binary

variable {a b : Datum}

theorem returns_concat {x y : BitVec 64} (ha : a.ty.bits = 64) (hb : b.ty.bits = 64)
    (hx : a.bits = x.toNat) (hy : b.bits = y.toNat) :
    OpEmit.hl64toV128.Returns [a, b] (.vec 16 (.int 8)) (BitVec.ofNat 128 (x.toNat * 2 ^ 64 + y.toNat)) := by
  have hword : ∀ u : BitVec 64, BitVec.ofNat 64 u.toNat = u := fun u => by simp
  refine ⟨_, SplitOps.yields_hl64toV128 ha hb, rfl, ?_⟩
  rw [hx, hy, hword, hword, BitVec.toNat_ofNat]
  exact (Nat.mod_eq_of_lt (joined_lt x y)).symm

theorem exists_of_ite_some {α : Type} {p : Prop} [Decidable p] {z z' : α}
    (h : (if p then some z else none) = some z') : p ∧ z' = z := by
  split at h
  · next hp =>
      cases h
      exact ⟨hp, rfl⟩
  · cases h

theorem returns_vecBinop {o : VecBinop} (hf : vecBinopFits o = true) (ha : a.ty.bits = o.lhs)
    (ht : vecBinopTakes o b.ty = true) {x : BitVec o.lhs} {y : BitVec o.rhs} {z : BitVec o.res}
    (hx : a.bits = x.toNat) (hy : b.bits = y.toNat) (hz : o.eval x y = some z) :
    (vecBinopEmit o).Returns [a, b] (vecBinopTy o) z := by
  cases o with
  | whole o w =>
      cases hz
      refine .of_binary rfl fun helpers ev m v₁ v₂ hev h₁ h₂ => ?_
      refine (h₁.cast hx).then fun u₁ hu₁ => (h₂.cast hy).then fun u₂ hu₂ => ?_
      exact computes_bin hu₁ hu₂ (eval_arithOp o _ _)
  | arith o n w =>
      cases hz
      refine .of_binary rfl fun helpers ev m v₁ v₂ hev h₁ h₂ => ?_
      refine (h₁.lanes ha).then fun u₁ hu₁ => (h₂.lanes (of_decide_eq_true ht)).then fun u₂ hu₂ => ?_
      refine (computes_vecBin hu₁ hu₂ fun i _ => eval_arithOp o _ _).mono fun v hv => ?_
      exact holds_vector hv fun i _ => by rw [Datum.lane_eq hx, Datum.lane_eq hy]
  | shift o n w =>
      obtain ⟨hlt, rfl⟩ := exists_of_ite_some hz
      refine .of_binary rfl fun helpers ev m v₁ v₂ hev h₁ h₂ => ?_
      refine (h₁.lanes ha).then fun u₁ hu₁ => (h₂.lanes (of_decide_eq_true ht)).then fun u₂ hu₂ => ?_
      refine (computes_vecBin hu₁ hu₂ fun i hi => eval_shiftOp o _ ?_).mono fun v hv => ?_
      · rw [← Datum.lane_eq hy]
        exact hlt i hi
      · exact holds_vector hv fun i _ => by rw [Datum.lane_eq hx, Datum.lane_eq hy]
  | shiftN o n w =>
      obtain ⟨hw, hn⟩ := of_decide_eq_true hf
      obtain ⟨hlt, rfl⟩ := exists_of_ite_some hz
      have hamount : (BitVec.setWidth w y).toNat = y.toNat := BitVec.toNat_setWidth_of_le hw
      refine .of_binary rfl fun helpers ev m v₁ v₂ hev h₁ h₂ => ?_
      change (emitOpvs n w (shiftOp o) v₁ v₂).Computes ev m _
      rw [emitOpvs_eq]
      refine (h₁.lanes ha).then fun u₁ hu₁ => ?_
      refine (computes_opvsAmount hev hw (Nat.zero_lt_of_lt hn)
        (h₂.word (of_decide_eq_true ht) hy)).then fun u₂ hu₂ => ?_
      have hlane : ∀ i < n, (shiftOp o).eval w (a.lane w i).toNat (BitVec.setWidth w y).toNat =
          some (o.eval (a.lane w i) y.toNat).toNat := fun i _ => by
        rw [hamount]
        exact eval_shiftOp o _ hlt
      refine (computes_vecBin hu₁ hu₂ hlane).mono fun v hv => ?_
      exact holds_vector hv fun i _ => by rw [Datum.lane_eq hx]
  | cmp o n w =>
      cases hz
      refine .of_binary rfl fun helpers ev m v₁ v₂ hev h₁ h₂ => ?_
      refine (h₁.lanes ha).then fun u₁ hu₁ => (h₂.lanes (of_decide_eq_true ht)).then fun u₂ hu₂ => ?_
      refine (computes_laneCmp o (of_decide_eq_true hf) hu₁ hu₂).mono fun v hv => ?_
      exact holds_vector hv fun i _ => by rw [Datum.lane_eq hx, Datum.lane_eq hy]
  | pick greatest signed n w =>
      cases hz
      have hn : n ≤ 16 := of_decide_eq_true hf
      have hyields := yields_binary fun helpers ev m v₁ v₂ hev h₁ h₂ =>
        show (OpEmit.build helpers (vecBinopEmit (.pick greatest signed n w)) [v₁, v₂]).Computes ev m _
        from (h₁.lanes ha).then fun u₁ hu₁ => (h₂.lanes (of_decide_eq_true ht)).then fun u₂ hu₂ =>
          computes_pick hev (hn.trans (by decide)) hu₁ hu₂
      refine .of_ofLanes hyields fun i _ => ?_
      rw [pick_eq, Datum.lane_eq hx, Datum.lane_eq hy]
  | sat sub signed n w =>
      cases hz
      obtain ⟨hw, hn⟩ := of_decide_eq_true hf
      refine .of_ofLanes ((sumLanes sub signed n w).yields_sat hw (hn.trans (by decide)) ha
        (of_decide_eq_true ht)) fun i _ => ?_
      rw [Datum.lane_eq hx, Datum.lane_eq hy]
      rfl
  | narrow signed n w =>
      cases hz
      obtain ⟨hw, hn⟩ := of_decide_eq_true hf
      refine .of_ofLanes ((laneLanes signed n w).yields_narrow hw (by change 2 * n ≤ _; omega) ha
        (of_decide_eq_true ht)) fun i _ => ?_
      simp only [Datum.lane_eq hx, Datum.lane_eq hy]
      rfl
  | mulHigh signed n w =>
      cases hz
      obtain ⟨hw, hn⟩ := of_decide_eq_true hf
      refine .of_ofLanes ((laneLanes signed n w).yields_mulHi hw hn ha (of_decide_eq_true ht))
        fun i _ => ?_
      rw [Datum.lane_eq hx, Datum.lane_eq hy]
      exact bitsFrom_eq le_rfl _
  | avg signed n w =>
      cases hz
      obtain ⟨hw, hn⟩ := of_decide_eq_true hf
      refine .of_ofLanes ((laneLanes signed n w).yields_avg hw (hn.trans (by decide)) ha
        (of_decide_eq_true ht)) fun i _ => ?_
      rw [Datum.lane_eq hx, Datum.lane_eq hy]
      exact bitsFrom_eq hw _
  | halve sub signed n w =>
      cases hz
      obtain ⟨hw, hn⟩ := of_decide_eq_true hf
      refine .of_ofPacked ((sumLanes sub signed n w).yields_hop hw (hn.trans (by decide)) ha
        (of_decide_eq_true ht)) fun i _ => ?_
      rw [Datum.lane_eq hx, Datum.lane_eq hy]
      exact bitsFrom_eq hw _
  | interleave high n w =>
      cases hz
      obtain ⟨e, he, rfl, rfl⟩ := of_decide_eq_true hf
      have hyields := IleaveOps.yields_ileave .native he high ha (of_decide_eq_true ht)
      rw [IleaveOps.opEmit_ileaveOps .native e he high] at hyields
      refine .of_ofLanes hyields fun i _ => ?_
      rw [Datum.lane_eq hx, Datum.lane_eq hy]
      rfl
  | permute n =>
      have hn : n ≤ 16 := of_decide_eq_true hf
      obtain ⟨hlt, rfl⟩ := exists_of_ite_some hz
      simp only [Datum.lane_eq hy] at hlt
      have hyields := yields_binary fun helpers ev m v₁ v₂ hev h₁ h₂ =>
        show (OpEmit.build helpers (vecBinopEmit (.permute n)) [v₁, v₂]).Computes ev m _
        from computes_opshuf hev (hn.trans (by decide)) h₁ h₂ ha (of_decide_eq_true ht) hlt
      exact .of_ofLanes hyields fun i _ => by rw [Datum.lane_eq hx, Datum.lane_eq hy]
  | setLow n w =>
      cases hz
      have hn := of_decide_eq_true hf
      refine .of_binary rfl fun helpers ev m v₁ v₂ hev h₁ h₂ => ?_
      refine (h₁.lanes ha).then fun u₁ hu₁ => ?_
      refine (computes_insert hu₁ (h₂.word (of_decide_eq_true ht) hy)
        (num_constInt hev (Nat.two_pow_pos 32)) hn).mono fun v hv => ?_
      exact holds_vector hv fun i _ => by rw [Datum.lane_eq hx]
  | concat =>
      cases hz
      exact returns_concat ha (of_decide_eq_true ht) hx hy
  | elem n w =>
      obtain ⟨hlt, rfl⟩ := exists_of_ite_some hz
      refine .of_binary rfl fun helpers ev m v₁ v₂ hev h₁ h₂ => ?_
      refine (h₁.lanes ha).then fun u₁ hu₁ => ?_
      rw [Datum.lane_eq hx]
      exact computes_extract hu₁ (h₂.word (of_decide_eq_true ht) hy) hlt

theorem returns_vecTriop {o : VecTriop} {c : Datum} (ha : a.ty.bits = o.n * o.w) (hb : b.ty = .int 8)
    (hc : c.ty = .int o.w) {x : BitVec (o.n * o.w)} {i : BitVec 8} {y : BitVec o.w}
    {z : BitVec (o.n * o.w)} (hx : a.bits = x.toNat) (hi : b.bits = i.toNat) (hy : c.bits = y.toNat)
    (hz : o.eval x i y = some z) :
    (OpEmit.setElem o.n o.w).Returns [a, b, c] (.vec o.n (.int o.w)) z := by
  obtain ⟨hlt, hz⟩ := exists_of_ite_some hz
  refine ⟨.carrying (.vec o.n (.int o.w)) rfl z, ?_, rfl, rfl⟩
  rw [hz]
  rintro helpers ev m vs hev (_ | ⟨h₁, _ | ⟨h₂, _ | ⟨h₃, _ | _⟩⟩⟩)
  refine (Datum.Carried.lanes h₁ ha).then fun u₁ hu₁ => ?_
  refine (computes_insert hu₁ (Datum.Carried.word h₃ hc hy) (Datum.Carried.word h₂ hb hi) hlt).mono
    fun v hv => ?_
  exact holds_vector hv fun j _ => by rw [Datum.lane_eq hx]

end Binary

/-! ## All of them -/

def OpEmit.isVec : OpEmit → Bool
  | .unopvNot _ | .dup8x16 | .setElem _ _ | .getElem _ _ | .v128to64 _ | .utoV128 | .hl64toV128
  | .getMSBs8x _ | .setV128lo _ _ | .helperUnopVec _ _ _ | .ileave _ _ _ | .opvExt _ _ _ _
  | .opnrw _ _ | .opnrwss _ _ _ _ | .opsat _ _ _ _ _ | .opavg _ _ _ | .ophop _ _ _ _
  | .opvs _ _ _ | .opshuf _ _ => true
  | .bincmp _ s _ => s.isInt
  | .opv t _ | .opvCmp t _ _ => t.isIntOrIntVector
  | _ => false

def vecOp (op : Iop) : Bool :=
  op.vecUnop?.isSome || op.vecBinop?.isSome || op.vecTriop?.isSome

/-- The operations that get no meaning: the narrowing of one vector, the narrowings whose
emitter gives up on an assertion, and the counts of sign bits, which pass whole vectors to a
function of single words. -/
def vecOpsWithout : List Iop :=
  [.QNarrowUn16Sto8Ux8, .NarrowBin16to8x16, .NarrowBin32to16x8, .Cls32x2, .Cls32x4]

theorem isVec_of_opEmit (fp : FPImpl) {op : Iop} (h : (opEmit fp op).isVec = true) :
    vecOp op = true ∨ op ∈ vecOpsWithout := by
  have hall : ∀ op : Iop, ∀ fp ∈ [FPImpl.native, FPImpl.softfloat], (opEmit fp op).isVec = true →
      vecOp op = true ∨ op ∈ vecOpsWithout := Iop.forall_of_ofNat (by decide +kernel)
  exact hall op fp (by cases fp <;> simp) h

/-- Every operation that is emitted as one on vectors of integers, but for five, has a meaning
as words and their lanes. Where an operation has it, its code computes it, in whatever types of
its widths the operands are carried; operands that are not cast have to be integers. -/
theorem vecOps_statement (fp : FPImpl) :
    (∀ op, (opEmit fp op).isVec = true → vecOp op = true ∨ op ∈ vecOpsWithout) ∧
    (∀ op o, op.vecUnop? = some o → ∀ (a : Datum) (x : BitVec o.arg), vecUnopTakes o a.ty = true →
      a.bits = x.toNat → (opEmit fp op).Returns [a] (vecUnopTy o) (o.eval x)) ∧
    (∀ op o, op.vecBinop? = some o → ∀ (a b : Datum) (x : BitVec o.lhs) (y : BitVec o.rhs)
      (z : BitVec o.res), a.ty.bits = o.lhs → vecBinopTakes o b.ty = true → a.bits = x.toNat →
        b.bits = y.toNat → o.eval x y = some z → (opEmit fp op).Returns [a, b] (vecBinopTy o) z) ∧
    ∀ op o, op.vecTriop? = some o → ∀ (a b c : Datum) (x : BitVec (o.n * o.w)) (i : BitVec 8)
      (y : BitVec o.w) (z : BitVec (o.n * o.w)), a.ty.bits = o.n * o.w → b.ty = .int 8 →
        c.ty = .int o.w → a.bits = x.toNat → b.bits = i.toNat → c.bits = y.toNat →
          o.eval x i y = some z → (opEmit fp op).Returns [a, b, c] (.vec o.n (.int o.w)) z := by
  refine ⟨fun op => isVec_of_opEmit fp, fun op o ho a x ht hx => ?_,
    fun op o ho a b x y z ha hb hx hy hz => ?_, fun op o ho a b c x i y z ha hb hc hx hi hy hz => ?_⟩
  · obtain ⟨hemit, hf⟩ := opEmit_vecUnop fp ho
    rw [hemit]
    exact returns_vecUnop hf ht hx
  · obtain ⟨hemit, hf⟩ := opEmit_vecBinop fp ho
    rw [hemit]
    exact returns_vecBinop hf ha hb hx hy hz
  · rw [opEmit_vecTriop fp ho]
    exact returns_vecTriop ha hb hc hx hi hy hz

/-- The greater of the words in each lane, as signed ones: of `1` and `-2`, and of `-1` and `3`. -/
theorem vecOps_max16Sx4 : (opEmit .native .Max16Sx4).Returns
    [⟨.int 64, 0xFFFF0001, by decide⟩, ⟨.vec 8 (.int 8), 0x0003FFFE, by decide⟩] (.vec 4 (.int 16))
      (0x00030001 : BitVec 64) :=
  (vecOps_statement .native).2.2.1 .Max16Sx4 (.pick true true 4 16) rfl _ _ 0xFFFF0001 0x0003FFFE _
    rfl (by decide) (by decide) (by decide) (by decide +kernel)

end VexLLVM
