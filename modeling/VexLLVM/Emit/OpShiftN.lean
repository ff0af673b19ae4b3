import VexLLVM.Emit.OpValue

/-!
# Shifts by a scalar amount

A vector shifted by one amount. A constant amount becomes a constant vector when
the code is emitted, and any other is copied into all lanes when it runs.
-/

namespace VexLLVM

open LLVM LLVM.Code Vex Word OpEmit

inductive ShiftKind where
  | shl
  | shr
  | sar
  deriving DecidableEq, Repr

namespace ShiftKind

def binOp : ShiftKind → BinOp
  | shl => .shl
  | shr => .lshr
  | sar => .ashr

/-- A lane shifted: `Shl` and `Shr` fill with zeros, and `Sar` with the sign. -/
def lane {w : ℕ} : ShiftKind → BitVec w → ℕ → BitVec w
  | shl, b, k => b <<< k
  | shr, b, k => b >>> k
  | sar, b, k => b.sshiftRight k

theorem eval_binOp {w k : ℕ} (z : ShiftKind) (b c : BitVec w) (hc : c.toNat = k) (hk : k < w) :
    z.binOp.eval w b.toNat c.toNat = some (z.lane b k).toNat := by
  subst hc
  cases z <;> simp [binOp, lane, BinOp.eval, hk]

end ShiftKind

/-- A shift of vectors of `n` lanes of `w` bits, as its name has it. -/
structure ShiftOp where
  op : Iop
  kind : ShiftKind
  w : ℕ
  n : ℕ
  deriving DecidableEq, Repr

def shiftOps : List ShiftOp :=
  [⟨.ShlN8x8, .shl, 8, 8⟩, ⟨.SarN8x8, .sar, 8, 8⟩, ⟨.ShrN8x8, .shr, 8, 8⟩,
    ⟨.ShlN8x16, .shl, 8, 16⟩, ⟨.SarN8x16, .sar, 8, 16⟩, ⟨.ShrN8x16, .shr, 8, 16⟩,
    ⟨.ShlN16x4, .shl, 16, 4⟩, ⟨.SarN16x4, .sar, 16, 4⟩, ⟨.ShrN16x4, .shr, 16, 4⟩,
    ⟨.ShlN16x8, .shl, 16, 8⟩, ⟨.SarN16x8, .sar, 16, 8⟩, ⟨.ShrN16x8, .shr, 16, 8⟩,
    ⟨.ShlN32x2, .shl, 32, 2⟩, ⟨.SarN32x2, .sar, 32, 2⟩, ⟨.ShrN32x2, .shr, 32, 2⟩,
    ⟨.ShlN32x4, .shl, 32, 4⟩, ⟨.SarN32x4, .sar, 32, 4⟩, ⟨.ShrN32x4, .shr, 32, 4⟩,
    ⟨.ShlN64x2, .shl, 64, 2⟩, ⟨.SarN64x2, .sar, 64, 2⟩, ⟨.ShrN64x2, .shr, 64, 2⟩]

def ShiftOp.emitter (e : ShiftOp) : OpEmit := .opvs e.n e.w e.kind.binOp

theorem opEmit_shiftOps (fp : FPImpl) :
    ∀ e ∈ shiftOps, opEmit fp e.op = e.emitter ∧ 8 ≤ e.w ∧ 2 ≤ e.n := by
  cases fp <;> decide

/-- No other operation is emitted so. -/
theorem mem_shiftOps (fp : FPImpl) (op : Iop) :
    (opEmit fp op matches .opvs ..) = true → ∃ e ∈ shiftOps, e.op = op := by
  refine Iop.forall_of_ofNat (P := fun op =>
    (opEmit fp op matches .opvs ..) = true → ∃ e ∈ shiftOps, e.op = op) ?_ op
  cases fp <;> decide +kernel

def opvsAmount (n w : ℕ) (v2 : LLVM.Value) : OpCode := do
  let v2 ← createZExt v2 (.int (n * w))
  match v2 with
  | .const _ x => pure (.const (.vec n (.int w)) (LLVM.ofLanes w (List.replicate n x)))
  | v2 => do
      let v2 ← createBitCast v2 (.vec n (.int w))
      createShuffleVector v2 v2 (List.replicate n 0)

theorem emitOpvs_eq (n w : ℕ) (z : BinOp) (v1 v2 : LLVM.Value) :
    emitOpvs n w z v1 v2 = (do
      let v1 ← createBitCast v1 (.vec n (.int w))
      let amount ← opvsAmount n w v2
      createBin z v1 amount) := by
  refine congrArg (Code.ins _) (funext fun v1 => congrArg (Code.ins _) (funext fun v2 => ?_))
  cases v2 <;> rfl

section Amount

variable {n w : ℕ} {N : BitVec 8}

theorem ofLanes_replicate (n w x : ℕ) :
    LLVM.ofLanes w (List.replicate n x) = pack n fun _ => BitVec.ofNat w x := by
  unfold pack
  rw [List.map_const', List.length_range]
  induction n with
  | zero => rfl
  | succ n ih =>
      rw [List.replicate_succ, List.replicate_succ, LLVM.ofLanes, LLVM.ofLanes, ih,
        BitVec.toNat_ofNat, Nat.mod_mod]

/-- The folder widens a constant. -/
theorem create_zext_const (b : Builder) {s d x : ℕ} (h : s < d) :
    b.create (.cast .zext (.const (.int s) x) (.int d)) = (.const (.int d) x, b) := by
  have hne : Ty.int s ≠ .int d := fun he => Nat.ne_of_lt h (by injection he with he; injection he)
  have hok : CastOp.zext.ok (.int s) (.int d) = true := by
    simp [CastOp.ok, Ty.sameShape, Ty.elem?, CastOp.elemOk, h]
  simp [Builder.create, Inst.simplify?, Inst.sameTypeCast?, Inst.constFold?, hne, hok,
    Inst.WF, Inst.operands, Value.isConst, Inst.eval, Value.constEval, Inst.evalCast,
    CastOp.evalElem, Inst.ty]

/-- A constant amount is made into a constant vector, with no instruction. -/
theorem opvsAmount_const (hw : 8 ≤ w) (hn : 2 ≤ n) (b : Builder) :
    (opvsAmount n w (constInt 8 N.toNat)).run b =
      .ok (.const (.vec n (.int w)) (pack n fun _ => N.setWidth w), b) := by
  have h8 : 8 < n * w := Nat.lt_of_lt_of_le (by decide : 8 < 2 * 8) (Nat.mul_le_mul hn hw)
  have hN : N.toNat % 2 ^ 8 = N.toNat := Nat.mod_eq_of_lt N.isLt
  have hrun : (opvsAmount n w (constInt 8 N.toNat)).run b = .ok (.const (.vec n (.int w))
      (LLVM.ofLanes w (List.replicate n N.toNat)), b) := by
    unfold opvsAmount constInt createZExt
    rw [hN, create_bind, Code.run, create_zext_const b h8]
    rfl
  rw [hrun, ofLanes_replicate, BitVec.ofNat_toNat]

/-- Any amount comes to be in every lane. -/
theorem computes_opvsAmount {ev : LLVM.Value → Option RVal} {m : Machine} {v : LLVM.Value}
    (hev : Consts ev) (hw : 8 ≤ w) (hn : 0 < n) (hv : v.Word ev N) :
    (opvsAmount n w v).Computes ev m (LLVM.Value.Vec ev n fun _ => N.setWidth w) := by
  have hN : N.toNat < 2 ^ w := Nat.lt_of_lt_of_le N.isLt (Nat.pow_le_pow_right Nat.two_pos hw)
  have hlt : N.toNat < 2 ^ (n * w) :=
    hN.trans_le (Nat.pow_le_pow_right Nat.two_pos (Nat.le_mul_of_pos_left w hn))
  refine (computes_zext hv (n * w)).then fun z hz => ?_
  have hshuffle : ∀ z : LLVM.Value, z.Num ev (n * w) N.toNat →
      (do let v2 ← createBitCast z (.vec n (.int w))
          createShuffleVector v2 v2 (List.replicate n 0) : OpCode).Computes ev m
        (LLVM.Value.Vec ev n fun _ => N.setWidth w) := by
    intro z hz
    refine (computes_lanes hz hlt).then fun l hl => (computes_splat hl hn).mono fun s hs => ?_
    have : laneOf w N.toNat 0 = N.setWidth w := by
      rw [laneOf, LLVM.lane, Nat.mul_zero, pow_zero, Nat.div_one, Nat.mod_eq_of_lt hN,
        BitVec.ofNat_toNat]
    rwa [this] at hs
  cases z with
  | const t x =>
      have hx : x = N.toNat := by
        have := (hev t x).symm.trans hz.eq
        cases this
        rfl
      refine ⟨rfl, ?_⟩
      rw [hev, hx, ofLanes_replicate, BitVec.ofNat_toNat]
  | undef t => exact hshuffle _ hz
  | arg i t => exact hshuffle _ hz
  | inst i t => exact hshuffle _ hz

end Amount

namespace ShiftOp

variable (e : ShiftOp)

theorem yields {a : Datum} {N : BitVec 8} (hw : 8 ≤ e.w) (hn : 2 ≤ e.n) (ha : a.ty.bits = e.n * e.w)
    (hN : N.toNat < e.w) :
    e.emitter.Yields [a, .ofWord N] (.ofLanes e.n fun i => e.kind.lane (a.lane e.w i) N.toNat) := by
  refine yields_binary fun _ ev m v₁ v₂ hev h₁ h₂ => ?_
  change (emitOpvs e.n e.w e.kind.binOp v₁ v₂).Computes ev m _
  rw [emitOpvs_eq]
  have hn0 : 0 < e.n := Nat.lt_of_lt_of_le Nat.two_pos hn
  have hamount : (N.setWidth e.w).toNat = N.toNat :=
    BitVec.toNat_setWidth_of_le hw
  refine (h₁.lanes ha).then fun l hl => (computes_opvsAmount hev hw hn0 h₂).then fun s hs => ?_
  exact computes_vecBin hl hs fun i _ => e.kind.eval_binOp _ _ hamount hN

end ShiftOp

/-- Shifts by a scalar: whether the amount is a constant or not, the code shifts by
a vector with the amount in every lane, and an amount below the width shifts each
lane by itself. -/
theorem shiftOps_statement (fp : FPImpl) :
    (∀ op, (opEmit fp op matches .opvs ..) = true → ∃ e ∈ shiftOps, e.op = op) ∧
    ∀ e ∈ shiftOps,
    (∀ helpers v₁ v₂, (opEmit fp e.op).build helpers [v₁, v₂] = (do
      let l ← createBitCast v₁ (.vec e.n (.int e.w))
      let amount ← opvsAmount e.n e.w v₂
      createBin e.kind.binOp l amount)) ∧
    (∀ (N : BitVec 8) (b : Builder), (opvsAmount e.n e.w (constInt 8 N.toNat)).run b =
      .ok (.const (.vec e.n (.int e.w)) (pack e.n fun _ => N.setWidth e.w), b)) ∧
    (∀ (N : BitVec 8) (ev : LLVM.Value → Option RVal) (m : Machine) (v : LLVM.Value), Consts ev →
      v.Word ev N → (opvsAmount e.n e.w v).Computes ev m
        (LLVM.Value.Vec ev e.n fun _ => N.setWidth e.w)) ∧
    ∀ (a : Datum) (N : BitVec 8), a.ty.bits = e.n * e.w → N.toNat < e.w →
      ∃ r : Datum, (opEmit fp e.op).Yields [a, .ofWord N] r ∧ r.ty = .vec e.n (.int e.w) ∧
        ∀ i < e.n, r.lane e.w i = e.kind.lane (a.lane e.w i) N.toNat := by
  refine ⟨mem_shiftOps fp, fun e he => ?_⟩
  obtain ⟨hop, hw, hn⟩ := opEmit_shiftOps fp e he
  have hn0 : 0 < e.n := Nat.lt_of_lt_of_le Nat.two_pos hn
  rw [hop]
  refine ⟨fun _ v₁ v₂ => emitOpvs_eq _ _ _ v₁ v₂, fun N b => opvsAmount_const hw hn b,
    fun N ev m v hev hv => computes_opvsAmount hev hw hn0 hv, fun a N ha hN => ?_⟩
  exact ⟨_, e.yields hw hn ha hN, rfl, fun i hi => Datum.lane_ofLanes hi⟩

/-- The word `-2` shifted to the right by one with its sign is `-1`. -/
theorem shiftOps_words : ∃ r : Datum,
    (opEmit .native .SarN16x4).Yields [⟨.int 64, 0xFFFE, by decide⟩, .ofWord (1 : BitVec 8)] r ∧
    r.lane 16 0 = 0xFFFF := by
  obtain ⟨-, -, -, h⟩ := (shiftOps_statement .native).2 ⟨.SarN16x4, .sar, 16, 4⟩ (by decide)
  obtain ⟨r, hr, -, hl⟩ := h ⟨.int 64, 0xFFFE, by decide⟩ 1 rfl (by decide)
  exact ⟨r, hr, (hl 0 (by decide)).trans (by decide)⟩

end VexLLVM
