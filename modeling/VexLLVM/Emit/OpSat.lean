import VexLLVM.Emit.OpValue

/-!
# Saturating operations

The lanes of a saturating addition or subtraction, and of a saturating narrowing,
are exact results cut off at the ends of the range of the lane.
-/

namespace VexLLVM

open LLVM LLVM.Code Vex Word OpEmit

/-- The constant a macro is given for a number. -/
def constOf (w : ℕ) (x : ℤ) : ℕ := (BitVec.ofInt w x).toNat

theorem ofNat_constOf (w : ℕ) (x : ℤ) : BitVec.ofNat w (constOf w x) = BitVec.ofInt w x := by
  rw [constOf, BitVec.ofNat_toNat, BitVec.setWidth_eq]

theorem extend_constOf {signed : Bool} {w w' : ℕ} {x : ℤ} (h : Fits signed w x) (hw : 0 < w) :
    extend signed w' (BitVec.ofNat w (constOf w x)) = BitVec.ofInt w' x := by
  rw [extend, ofNat_constOf, reading_ofInt h hw]

namespace SumOp

/-- A signed result is held against both ends of the range, an unsigned sum
against the upper end, and an unsigned difference against zero. -/
def clamps (e : SumOp) : List Clamp :=
  let high := Clamp.high (constOf e.w (greatest e.signed e.w)) (extOp e.signed) (gtPred e.signed)
  let low := Clamp.low (constOf e.w (least e.signed e.w)) (extOp e.signed) .slt
  if e.signed then [high, low] else if e.sub then [low] else [high]

end SumOp

def satOps : List SumOp :=
  [⟨.QAdd64Sx1, false, 64, true, 1⟩, ⟨.QAdd64Sx2, false, 64, true, 2⟩,
    ⟨.QAdd64Ux1, false, 64, false, 1⟩, ⟨.QAdd64Ux2, false, 64, false, 2⟩,
    ⟨.QAdd32Sx2, false, 32, true, 2⟩, ⟨.QAdd32Sx4, false, 32, true, 4⟩,
    ⟨.QAdd32Ux2, false, 32, false, 2⟩, ⟨.QAdd32Ux4, false, 32, false, 4⟩,
    ⟨.QAdd16Sx2, false, 16, true, 2⟩, ⟨.QAdd16Sx4, false, 16, true, 4⟩,
    ⟨.QAdd16Sx8, false, 16, true, 8⟩, ⟨.QAdd16Ux2, false, 16, false, 2⟩,
    ⟨.QAdd16Ux4, false, 16, false, 4⟩, ⟨.QAdd16Ux8, false, 16, false, 8⟩,
    ⟨.QAdd8Sx4, false, 8, true, 4⟩, ⟨.QAdd8Sx8, false, 8, true, 8⟩,
    ⟨.QAdd8Sx16, false, 8, true, 16⟩, ⟨.QAdd8Ux4, false, 8, false, 4⟩,
    ⟨.QAdd8Ux8, false, 8, false, 8⟩, ⟨.QAdd8Ux16, false, 8, false, 16⟩,
    ⟨.QSub64Sx1, true, 64, true, 1⟩, ⟨.QSub64Sx2, true, 64, true, 2⟩,
    ⟨.QSub64Ux1, true, 64, false, 1⟩, ⟨.QSub64Ux2, true, 64, false, 2⟩,
    ⟨.QSub32Sx2, true, 32, true, 2⟩, ⟨.QSub32Sx4, true, 32, true, 4⟩,
    ⟨.QSub32Ux2, true, 32, false, 2⟩, ⟨.QSub32Ux4, true, 32, false, 4⟩,
    ⟨.QSub16Sx2, true, 16, true, 2⟩, ⟨.QSub16Sx4, true, 16, true, 4⟩,
    ⟨.QSub16Sx8, true, 16, true, 8⟩, ⟨.QSub16Ux2, true, 16, false, 2⟩,
    ⟨.QSub16Ux4, true, 16, false, 4⟩, ⟨.QSub16Ux8, true, 16, false, 8⟩,
    ⟨.QSub8Sx4, true, 8, true, 4⟩, ⟨.QSub8Sx8, true, 8, true, 8⟩,
    ⟨.QSub8Sx16, true, 8, true, 16⟩, ⟨.QSub8Ux4, true, 8, false, 4⟩,
    ⟨.QSub8Ux8, true, 8, false, 8⟩, ⟨.QSub8Ux16, true, 8, false, 16⟩]

def SumOp.satEmitter (e : SumOp) : OpEmit := .opsat e.n e.w (extOp e.signed) e.binOp e.clamps

theorem opEmit_satOps (fp : FPImpl) :
    ∀ e ∈ satOps, opEmit fp e.op = e.satEmitter ∧ 0 < e.w ∧ e.n ≤ 16 := by
  cases fp <;> decide +kernel

/-- No other operation is emitted so. -/
theorem mem_satOps (fp : FPImpl) (op : Iop) :
    (opEmit fp op matches .opsat ..) = true → ∃ e ∈ satOps, e.op = op := by
  refine Iop.forall_of_ofNat (P := fun op =>
    (opEmit fp op matches .opsat ..) = true → ∃ e ∈ satOps, e.op = op) ?_ op
  cases fp <;> decide +kernel

section Lanes

variable {ev : LLVM.Value → Option RVal} {m : Machine} {v : LLVM.Value} {signed : Bool} {w d : ℕ}
  {x c : ℤ}

/-- The greater of two numbers gives way to the other. -/
theorem computes_selectMin {hi gt : LLVM.Value} {s : Bool} (hd : 0 < d) (hc : Fits s d c)
    (hx : Fits s d x) (hhi : hi.Word ev (BitVec.ofInt d c)) (hv : v.Word ev (BitVec.ofInt d x))
    (hgt : gt.Num ev 1
      ((gtPred s).eval d (BitVec.ofInt d x).toNat (BitVec.ofInt d c).toNat).toNat) :
    (createSelect gt hi v : OpCode).Computes ev m
      (LLVM.Value.Word ev (BitVec.ofInt d (min c x))) := by
  refine (computes_select hgt hhi hv).mono fun v' hv' => ?_
  have hmin := ofInt_min s (BitVec.ofInt d c) x hx hd
  rw [reading_ofInt hc hd] at hmin
  rw [eval_gtPred, reading_ofInt hc hd] at hv'
  simp only [decide_eq_true_eq] at hv'
  rwa [hmin] at hv'

theorem computes_selectMax {lo lt : LLVM.Value} (hd : 0 < d) (hc : Fits true d c)
    (hx : Fits true d x) (hlo : lo.Word ev (BitVec.ofInt d c)) (hv : v.Word ev (BitVec.ofInt d x))
    (hlt : lt.Num ev 1
      (IPred.slt.eval d (BitVec.ofInt d x).toNat (BitVec.ofInt d c).toNat).toNat) :
    (createSelect lt lo v : OpCode).Computes ev m
      (LLVM.Value.Word ev (BitVec.ofInt d (max c x))) := by
  refine (computes_select hlt hlo hv).mono fun v' hv' => ?_
  have hmax := ofInt_max true (BitVec.ofInt d c) x hx hd
  rw [reading_ofInt hc hd] at hmax
  have heval := eval_ltPred (BitVec.ofInt d x) (BitVec.ofInt d c) true
  rw [reading_ofInt hc hd] at heval
  rw [show IPred.slt = ltPred true from rfl, heval] at hv'
  simp only [decide_eq_true_eq] at hv'
  rwa [hmax] at hv'

/-- `SHIGH`, with the comparison in which both numbers fit the wider lane. -/
theorem computes_high (hev : Consts ev) {s : Bool} (hw : 0 < w) (hd : w < d) (hc : Fits signed w c)
    (hc' : Fits s d c) (hx : Fits s d x) (hv : v.Word ev (BitVec.ofInt d x)) :
    (emitClamp w d v (.high (constOf w c) (extOp signed) (gtPred s))).Computes ev m
      (LLVM.Value.Word ev (BitVec.ofInt d (min c x))) := by
  refine (computes_ext _ (word_constInt hev w (constOf w c)) hd).then fun hi hhi => ?_
  rw [extend_constOf hc hw] at hhi
  exact (computes_icmp (gtPred s) hv hhi).then fun gt hgt =>
    computes_selectMin (Nat.zero_lt_of_lt hd) hc' hx hhi hv hgt

/-- `SLOW`. -/
theorem computes_low (hev : Consts ev) (hw : 0 < w) (hd : w < d) (hc : Fits signed w c)
    (hx : Fits true d x) (hv : v.Word ev (BitVec.ofInt d x)) :
    (emitClamp w d v (.low (constOf w c) (extOp signed) .slt)).Computes ev m
      (LLVM.Value.Word ev (BitVec.ofInt d (max c x))) := by
  refine (computes_ext _ (word_constInt hev w (constOf w c)) hd).then fun lo hlo => ?_
  rw [extend_constOf hc hw] at hlo
  exact (computes_icmp .slt hv hlo).then fun lt hlt =>
    computes_selectMax (Nat.zero_lt_of_lt hd) (hc.widen hw hd) hx hlo hv hlt

namespace SumOp

variable (e : SumOp) {x y : ℤ}

theorem fits_exact (hx : Fits e.signed e.w x) (hy : Fits e.signed e.w y) (hw : 0 < e.w)
    (h : e.signed = true ∨ e.sub = true) : Fits true (e.w + 1) (e.exact x y) := by
  unfold exact
  split
  · exact fits_difference hx hy hw
  · next hs =>
      have hsum := fits_sum hx hy hw
      rwa [h.resolve_right hs] at hsum

theorem computes_clamps (hev : Consts ev) (hw : 0 < e.w) (hx : Fits e.signed e.w x)
    (hy : Fits e.signed e.w y) (hv : v.Word ev (BitVec.ofInt (e.w + 1) (e.exact x y))) :
    (e.clamps.foldlM (emitClamp e.w (e.w + 1)) v).Computes ev m
      (LLVM.Value.Word ev (BitVec.ofInt (e.w + 1) (clamp e.signed e.w (e.exact x y)))) := by
  obtain ⟨hl, hg⟩ := fits_ends e.signed e.w
  have hd : e.w < e.w + 1 := Nat.lt_succ_self _
  obtain ⟨op, sub, w, signed, n⟩ := e
  cases signed with
  | true =>
      have hex := fits_exact ⟨op, sub, w, true, n⟩ hx hy hw (.inl rfl)
      simp only [clamps, if_true, List.foldlM_cons]
      refine (computes_high (s := true) hev hw hd hg (hg.widen hw hd) hex hv).then fun v₁ hv₁ => ?_
      exact (computes_low hev hw hd hl ((hg.widen hw hd).min hex) hv₁).then fun v₂ hv₂ => hv₂
  | false =>
      cases sub with
      | true =>
          have hex := fits_exact ⟨op, true, w, false, n⟩ hx hy hw (.inr rfl)
          have hclamp : clamp false w (x - y) = max (least false w) (x - y) := by
            have : x - y ≤ greatest false w := (Int.sub_le_self x hy.1).trans hx.2
            rw [clamp, min_eq_right this]
          simp only [clamps, if_true, if_neg Bool.false_ne_true, List.foldlM_cons]
          rw [exact, if_pos rfl, hclamp]
          exact (computes_low hev hw hd hl hex hv).then fun v₁ hv₁ => hv₁
      | false =>
          have hclamp : clamp false w (x + y) = min (greatest false w) (x + y) :=
            max_eq_right (le_min hg.1 (Int.add_nonneg hx.1 hy.1))
          have hg' : Fits false (w + 1) (greatest false w) := hg.widen_unsigned hd
          simp only [clamps, if_neg Bool.false_ne_true, List.foldlM_cons]
          rw [exact, if_neg Bool.false_ne_true, hclamp]
          exact (computes_high (s := false) hev hw hd hg hg' (fits_sum hx hy hw) hv).then
            fun v₁ hv₁ => hv₁

/-- The operation lane by lane: exact, and then clamped. -/
theorem yields_sat (hw : 0 < e.w) (hn : e.n ≤ 2 ^ 32) {a b : Datum} (ha : a.ty.bits = e.n * e.w)
    (hb : b.ty.bits = e.n * e.w) :
    e.satEmitter.Yields [a, b] (.ofLanes e.n fun i => BitVec.ofInt e.w (clamp e.signed e.w
      (e.exact (reading e.signed (a.lane e.w i)) (reading e.signed (b.lane e.w i))))) := by
  refine yields_binary fun _ ev m v₁ v₂ hev h₁ h₂ => ?_
  have hd : e.w < e.w + 1 := Nat.lt_succ_self _
  change (emitOpsat e.n e.w (extOp e.signed) e.binOp e.clamps v₁ v₂).Computes ev m _
  unfold emitOpsat
  refine (h₁.lanes ha).then fun l₁ hl₁ => (h₂.lanes hb).then fun l₂ hl₂ => ?_
  refine (computes_vecExt hl₁ hd).then fun x₁ hx₁ => (computes_vecExt hl₂ hd).then fun x₂ hx₂ => ?_
  refine (computes_vecBin hx₁ hx₂ fun i _ => e.eval_binOp _ _ _).then fun part hpart => ?_
  refine computes_insertLanes hev hn fun i hi => ?_
  refine (computes_extract hpart (num_get32i hev hn hi) hi).then fun elem helem => ?_
  refine (e.computes_clamps hev hw (fits_reading _ _) (fits_reading _ _) helem).then fun c hc => ?_
  refine (computes_truncWord hc (Nat.le_of_lt hd)).mono fun t ht => ?_
  rwa [setWidth_ofInt (Nat.le_of_lt hd)] at ht

end SumOp

/-- The narrowing operations: two vectors of `n` signed lanes of `w` bits become
one of `2 n` lanes of half the width, which are signed or not. -/
def narrowOps : List LaneOp :=
  [⟨.QNarrowBin16Sto8Ux8, 16, false, 4⟩, ⟨.QNarrowBin16Sto8Ux16, 16, false, 8⟩,
    ⟨.QNarrowBin32Sto16Ux8, 32, false, 4⟩, ⟨.QNarrowBin16Sto8Sx8, 16, true, 4⟩,
    ⟨.QNarrowBin16Sto8Sx16, 16, true, 8⟩, ⟨.QNarrowBin32Sto16Sx4, 32, true, 2⟩,
    ⟨.QNarrowBin32Sto16Sx8, 32, true, 4⟩]

namespace LaneOp

def narrowEmitter (e : LaneOp) : OpEmit :=
  .opnrwss e.n e.w (constOf e.w (greatest e.signed (e.w / 2))) (constOf e.w (least e.signed (e.w / 2)))

variable (e : LaneOp)

def narrow (b : BitVec e.w) : BitVec (e.w / 2) :=
  BitVec.ofInt (e.w / 2) (clamp e.signed (e.w / 2) (reading true b))

theorem computes_nrwssLane (hev : Consts ev) (hw : 2 ≤ e.w) {n : ℕ} {f : ℕ → BitVec e.w}
    (hv : v.Vec ev n f) {i : ℕ} (hn : n ≤ 2 ^ 32) (hi : i < n) :
    (emitNrwssLane e.w (constOf e.w (greatest e.signed (e.w / 2)))
      (constOf e.w (least e.signed (e.w / 2))) v i).Computes ev m
      (LLVM.Value.Word ev (e.narrow (f i))) := by
  obtain ⟨hl, hg⟩ := fits_ends e.signed (e.w / 2)
  have hd : e.w / 2 < e.w := Nat.div_lt_self (by omega) Nat.one_lt_two
  have hh : 0 < e.w / 2 := Nat.div_pos hw Nat.two_pos
  have hw0 : 0 < e.w := by omega
  have hg' : Fits true e.w (greatest e.signed (e.w / 2)) := hg.widen hh hd
  have hl' : Fits true e.w (least e.signed (e.w / 2)) := hl.widen hh hd
  have hconst := fun x : ℤ => ofNat_constOf e.w x ▸ word_constInt hev e.w (constOf e.w x)
  have hx := fits_reading true (f i)
  unfold emitNrwssLane
  refine (computes_extract hv (num_get32i hev hn hi) hi).then fun elem helem => ?_
  rw [← ofInt_reading true (f i)] at helem
  refine (computes_icmp (gtPred true) helem (hconst _)).then fun gt hgt => ?_
  refine (computes_selectMin hw0 hg' hx (hconst _) helem hgt).then fun elem₁ helem₁ => ?_
  refine (computes_icmp .slt helem₁ (hconst _)).then fun lt hlt => ?_
  refine (computes_selectMax hw0 hl' (hg'.min hx) (hconst _) helem₁ hlt).then fun elem₂ helem₂ => ?_
  refine (computes_truncWord helem₂ (Nat.le_of_lt hd)).mono fun t ht => ?_
  rwa [setWidth_ofInt (Nat.le_of_lt hd)] at ht

/-- The lanes of the second operand, and then those of the first. -/
theorem yields_narrow (hw : 2 ≤ e.w) (hn : 2 * e.n ≤ 2 ^ 32) {a b : Datum}
    (ha : a.ty.bits = e.n * e.w) (hb : b.ty.bits = e.n * e.w) :
    e.narrowEmitter.Yields [a, b] (.ofLanes (2 * e.n) fun i =>
      if i < e.n then e.narrow (b.lane e.w i) else e.narrow (a.lane e.w (i - e.n))) := by
  refine yields_binary fun _ ev m v₁ v₂ hev h₁ h₂ => ?_
  change (emitOpnrwss e.n e.w _ _ v₁ v₂).Computes ev m _
  unfold emitOpnrwss
  refine (h₁.lanes ha).then fun l₁ hl₁ => (h₂.lanes hb).then fun l₂ hl₂ => ?_
  refine (computes_zeroVec hev (2 * e.n) (e.w / 2)).then fun r hr => ?_
  have hn' : e.n ≤ 2 ^ 32 := by omega
  have hlane₁ := fun i => e.computes_nrwssLane (m := m) hev hw hl₁ (i := i) hn'
  have hlane₂ := fun i => e.computes_nrwssLane (m := m) hev hw hl₂ (i := i) hn'
  refine (computes_setLanes (k := 0) hev hn (by omega) hr hlane₂).then fun r₁ hr₁ => ?_
  refine (computes_setLanes hev hn (by omega) hr₁ hlane₁).mono fun r₂ hr₂ => ?_
  refine ⟨hr₂.ty, hr₂.eq.trans (congrArg (some ∘ RVal.bits) (pack_congr fun i hi => ?_))⟩
  by_cases h : i < e.n
  · rw [if_neg (by omega), if_pos (by omega), if_pos h]
    rfl
  · rw [if_pos (by omega), if_neg h]

end LaneOp

end Lanes

/-- Saturating addition and subtraction: the mathematical result of the two
lanes, clamped to the range of the lane. -/
theorem satOps_statement (fp : FPImpl) :
    (∀ op, (opEmit fp op matches .opsat ..) = true → ∃ e ∈ satOps, e.op = op) ∧
    ∀ e ∈ satOps, (opEmit fp e.op).LaneWise e.n e.w (.vec e.n (.int e.w)) fun x y z =>
      reading e.signed z = clamp e.signed e.w (e.exact (reading e.signed x) (reading e.signed y)) := by
  refine ⟨mem_satOps fp, fun e he => ?_⟩
  obtain ⟨hop, hw, hn⟩ := opEmit_satOps fp e he
  rw [hop]
  exact laneWise_ofLanes
    (g := fun x y => BitVec.ofInt e.w (clamp e.signed e.w
      (e.exact (reading e.signed x) (reading e.signed y))))
    (fun a b ha hb => e.yields_sat hw (hn.trans (by decide)) ha hb)
    fun x y => reading_ofInt (fits_clamp _ _ _) hw

/-- Lane `0` of two vectors of bytes: `200 + 100` saturates. -/
theorem satOps_bytes : ∃ r : Datum,
    (opEmit .native .QAdd8Ux8).Yields
      [⟨.int 64, 200, by decide⟩, ⟨.vec 8 (.int 8), 100, by decide⟩] r ∧
    reading false (r.lane 8 0) = 255 := by
  obtain ⟨r, hr, -, hl⟩ := (satOps_statement .native).2 ⟨.QAdd8Ux8, false, 8, false, 8⟩ (by decide)
    ⟨.int 64, 200, by decide⟩ ⟨.vec 8 (.int 8), 100, by decide⟩ rfl rfl
  exact ⟨r, hr, (hl 0 (by decide)).trans (by decide)⟩

theorem opEmit_narrowOps (fp : FPImpl) :
    ∀ e ∈ narrowOps, opEmit fp e.op = e.narrowEmitter ∧ 2 ≤ e.w ∧ e.n ≤ 8 := by
  cases fp <;> decide +kernel

/-- Saturating narrowing: the lanes of the second operand and then those of the
first, clamped to the range of the narrow lane. -/
theorem narrowOps_statement (fp : FPImpl) (e : LaneOp) (he : e ∈ narrowOps) (l r : Datum)
    (hl : l.ty.bits = e.n * e.w) (hr : r.ty.bits = e.n * e.w) :
    ∃ q : Datum, (opEmit fp e.op).Yields [l, r] q ∧ q.ty = .vec (2 * e.n) (.int (e.w / 2)) ∧
      (∀ i < e.n, reading e.signed (q.lane (e.w / 2) i) =
        clamp e.signed (e.w / 2) (reading true (r.lane e.w i))) ∧
      ∀ i, e.n ≤ i → i < 2 * e.n → reading e.signed (q.lane (e.w / 2) i) =
        clamp e.signed (e.w / 2) (reading true (l.lane e.w (i - e.n))) := by
  obtain ⟨hop, hw, hn⟩ := opEmit_narrowOps fp e he
  have hh : 0 < e.w / 2 := Nat.div_pos hw Nat.two_pos
  refine ⟨_, hop ▸ e.yields_narrow hw (by omega) hl hr, rfl, fun i hi => ?_, fun i hi hi' => ?_⟩
  · rw [Datum.lane_ofLanes (by omega), if_pos hi]
    exact reading_ofInt (fits_clamp _ _ _) hh
  · rw [Datum.lane_ofLanes hi', if_neg (Nat.not_lt.2 hi)]
    exact reading_ofInt (fits_clamp _ _ _) hh

/-- `-1` becomes `0`, and `300` becomes `255`. -/
theorem narrowOps_words : ∃ q : Datum,
    (opEmit .native .QNarrowBin16Sto8Ux8).Yields
      [⟨.int 64, 300, by decide⟩, ⟨.int 64, 0xFFFF, by decide⟩] q ∧
    reading false (q.lane 8 0) = 0 ∧ reading false (q.lane 8 4) = 255 := by
  obtain ⟨q, hq, -, h₁, h₂⟩ := narrowOps_statement .native ⟨.QNarrowBin16Sto8Ux8, 16, false, 4⟩
    (by decide) ⟨.int 64, 300, by decide⟩ ⟨.int 64, 0xFFFF, by decide⟩ rfl rfl
  exact ⟨q, hq, (h₁ 0 (by decide)).trans (by decide),
    (h₂ 4 (by decide) (by decide)).trans (by decide)⟩

end VexLLVM
