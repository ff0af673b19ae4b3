import VexLLVM.Emit.OpValue

/-!
# High halves, averages and halved sums

Operations whose lanes are computed at twice the width, shifted to the right and
truncated. The shift is a logical one, also where the lanes are signed: the bits
it brings in lie above those that are kept.
-/

namespace VexLLVM

open LLVM LLVM.Code Vex Word OpEmit

def mulHiOps : List LaneOp :=
  [⟨.MulHi16Ux4, 16, false, 4⟩, ⟨.MulHi16Sx4, 16, true, 4⟩, ⟨.MulHi16Ux8, 16, false, 8⟩,
    ⟨.MulHi16Sx8, 16, true, 8⟩, ⟨.MulHi32Ux4, 32, false, 4⟩, ⟨.MulHi32Sx4, 32, true, 4⟩]

def avgOps : List LaneOp :=
  [⟨.Avg8Ux8, 8, false, 8⟩, ⟨.Avg8Ux16, 8, false, 16⟩, ⟨.Avg8Sx16, 8, true, 16⟩,
    ⟨.Avg16Ux4, 16, false, 4⟩, ⟨.Avg16Ux8, 16, false, 8⟩, ⟨.Avg16Sx8, 16, true, 8⟩,
    ⟨.Avg32Ux4, 32, false, 4⟩, ⟨.Avg32Sx4, 32, true, 4⟩]

def hopOps : List SumOp :=
  [⟨.HAdd16Ux2, false, 16, false, 2⟩, ⟨.HAdd16Sx2, false, 16, true, 2⟩,
    ⟨.HSub16Ux2, true, 16, false, 2⟩, ⟨.HSub16Sx2, true, 16, true, 2⟩,
    ⟨.HAdd8Ux4, false, 8, false, 4⟩, ⟨.HAdd8Sx4, false, 8, true, 4⟩,
    ⟨.HSub8Ux4, true, 8, false, 4⟩, ⟨.HSub8Sx4, true, 8, true, 4⟩]

def LaneOp.mulHiEmitter (e : LaneOp) : OpEmit := .opvExt e.n e.w (extOp e.signed) .mul

def LaneOp.avgEmitter (e : LaneOp) : OpEmit := .opavg e.n e.w (extOp e.signed)

def SumOp.hopEmitter (e : SumOp) : OpEmit := .ophop e.n e.w e.binOp (extOp e.signed)

theorem opEmit_mulHiOps (fp : FPImpl) :
    ∀ e ∈ mulHiOps, opEmit fp e.op = e.mulHiEmitter ∧ 0 < e.w ∧ 0 < e.n ∧ e.n ≤ 16 := by
  cases fp <;> decide

theorem opEmit_avgOps (fp : FPImpl) :
    ∀ e ∈ avgOps, opEmit fp e.op = e.avgEmitter ∧ 0 < e.w ∧ e.n ≤ 16 := by
  cases fp <;> decide

theorem opEmit_hopOps (fp : FPImpl) :
    ∀ e ∈ hopOps, opEmit fp e.op = e.hopEmitter ∧ 0 < e.w ∧ e.n ≤ 16 := by
  cases fp <;> decide

/-- No other operation is emitted by the three macros. -/
theorem mem_halfOps (fp : FPImpl) (op : Iop) :
    ((opEmit fp op matches .opvExt ..) = true → ∃ e ∈ mulHiOps, e.op = op) ∧
    ((opEmit fp op matches .opavg ..) = true → ∃ e ∈ avgOps, e.op = op) ∧
    ((opEmit fp op matches .ophop ..) = true → ∃ e ∈ hopOps, e.op = op) := by
  refine Iop.forall_of_ofNat (P := fun op =>
    ((opEmit fp op matches .opvExt ..) = true → ∃ e ∈ mulHiOps, e.op = op) ∧
    ((opEmit fp op matches .opavg ..) = true → ∃ e ∈ avgOps, e.op = op) ∧
    ((opEmit fp op matches .ophop ..) = true → ∃ e ∈ hopOps, e.op = op)) ?_ op
  cases fp <;> decide +kernel

def bitsFrom (s w : ℕ) (x : ℤ) : BitVec w := (BitVec.ofInt (2 * w) x >>> s).setWidth w

theorem toNat_bitsFrom {s w : ℕ} (h : s ≤ w) (x : ℤ) :
    ((bitsFrom s w x).toNat : ℤ) = bitsAt s w x :=
  toNat_shiftRight_setWidth (by omega) x

section Lanes

variable {ev : LLVM.Value → Option RVal} {m : Machine} {v : LLVM.Value} {n w : ℕ} {x : ℤ}

/-- A shift by one and a truncation. -/
theorem computes_half (hev : Consts ev) (hw : 0 < w) (hv : v.Word ev (BitVec.ofInt (2 * w) x)) :
    (do
      let e ← createBin .lshr v (constInt (2 * w) 1)
      createTrunc e (.int w) : OpCode).Computes ev m (LLVM.Value.Word ev (bitsFrom 1 w x)) :=
  (computes_bin hv (word_constInt hev (2 * w) 1) (eval_lshr _ (by omega))).then fun _ he =>
    computes_truncWord he (by omega)

/-- The vector with the shift amount in each lane. -/
theorem computes_shiftVec (hev : Consts ev) (hw : 0 < w) (hn : 0 < n) :
    (do
      let shift ← createZExt (constInt (2 * w) w) (.int (n * (2 * w)))
      let shift ← createBitCast shift (.vec n (.int (2 * w)))
      createShuffleVector shift shift (List.replicate n 0) : OpCode).Computes ev m
      (LLVM.Value.Vec ev n fun _ => BitVec.ofNat (2 * w) w) := by
  have hlt : w < 2 ^ (2 * w) :=
    Nat.lt_two_pow_self.trans (Nat.pow_lt_pow_right (by decide) (by omega))
  have hle : 2 * w ≤ n * (2 * w) := Nat.le_mul_of_pos_left _ hn
  refine (computes_zext (num_constInt hev hlt) _).then fun z hz => ?_
  refine (computes_lanes hz (hlt.trans_le (Nat.pow_le_pow_right Nat.two_pos hle))).then
    fun l hl => ?_
  refine (computes_splat hl hn).mono fun s hs => ?_
  have : laneOf (2 * w) w 0 = BitVec.ofNat (2 * w) w := by
    rw [laneOf, LLVM.lane, Nat.mul_zero, pow_zero, Nat.div_one, Nat.mod_eq_of_lt hlt]
  rwa [this] at hs

end Lanes

section Yields

variable {a b : Datum}

theorem LaneOp.yields_mulHi (e : LaneOp) (hw : 0 < e.w) (hn : 0 < e.n) (ha : a.ty.bits = e.n * e.w)
    (hb : b.ty.bits = e.n * e.w) :
    e.mulHiEmitter.Yields [a, b] (.ofLanes e.n fun i =>
      bitsFrom e.w e.w (reading e.signed (a.lane e.w i) * reading e.signed (b.lane e.w i))) := by
  refine yields_binary fun _ ev m v₁ v₂ hev h₁ h₂ => ?_
  have hd : e.w < 2 * e.w := by omega
  change (emitOpvExt e.n e.w (extOp e.signed) .mul v₁ v₂).Computes ev m _
  unfold emitOpvExt
  rw [Nat.mul_comm e.w 2]
  refine (h₁.lanes ha).then fun l₁ hl₁ => (computes_vecExt hl₁ hd).then fun x₁ hx₁ => ?_
  refine (h₂.lanes hb).then fun l₂ hl₂ => (computes_vecExt hl₂ hd).then fun x₂ hx₂ => ?_
  refine (computes_vecBin hx₁ hx₂ fun i _ => eval_mul _ _).then fun full hfull => ?_
  refine (computes_shiftVec hev hw hn).then fun shift hshift => ?_
  refine (computes_vecBin hfull hshift fun i _ => eval_lshr _ hd).then fun q hq => ?_
  refine (computes_vecTrunc hq hd).mono fun t ht => ?_
  simp only [extend, ← BitVec.ofInt_mul] at ht
  exact ht

theorem LaneOp.yields_avg (e : LaneOp) (hw : 0 < e.w) (hn : e.n ≤ 2 ^ 32)
    (ha : a.ty.bits = e.n * e.w) (hb : b.ty.bits = e.n * e.w) :
    e.avgEmitter.Yields [a, b] (.ofLanes e.n fun i =>
      bitsFrom 1 e.w (reading e.signed (a.lane e.w i) + reading e.signed (b.lane e.w i) + 1)) := by
  refine yields_binary fun _ ev m v₁ v₂ hev h₁ h₂ => ?_
  have hd : e.w < 2 * e.w := by omega
  change (emitOpavg e.n e.w (extOp e.signed) v₁ v₂).Computes ev m _
  unfold emitOpavg
  refine (h₁.lanes ha).then fun l₁ hl₁ => (h₂.lanes hb).then fun l₂ hl₂ => ?_
  refine (computes_vecExt hl₁ hd).then fun x₁ hx₁ => (computes_vecExt hl₂ hd).then fun x₂ hx₂ => ?_
  refine (computes_vecBin hx₁ hx₂ fun i _ => eval_add _ _).then fun part hpart => ?_
  refine computes_insertLanes hev hn fun i hi => ?_
  refine (computes_extract hpart (num_get32i hev hn hi) hi).then fun s hs => ?_
  simp only [extend, ← BitVec.ofInt_add] at hs
  rw [hs.ty, Ty.bits_int]
  refine (computes_bin hs (word_constInt hev (2 * e.w) 1) (eval_add _ _)).then fun t ht => ?_
  rw [← BitVec.ofInt_natCast, ← BitVec.ofInt_add] at ht
  rw [ht.ty, Ty.bits_int]
  exact computes_half hev hw ht

def Datum.ofPacked {w : ℕ} (n : ℕ) (f : ℕ → BitVec w) : Datum where
  ty := .int (n * w)
  bits := pack n f
  lt := pack_lt n f

theorem SumOp.yields_hop (e : SumOp) (hw : 0 < e.w) (hn : e.n ≤ 2 ^ 32)
    (ha : a.ty.bits = e.n * e.w) (hb : b.ty.bits = e.n * e.w) :
    e.hopEmitter.Yields [a, b] (.ofPacked e.n fun i => bitsFrom 1 e.w
      (e.exact (reading e.signed (a.lane e.w i)) (reading e.signed (b.lane e.w i)))) := by
  refine yields_binary fun _ ev m v₁ v₂ hev h₁ h₂ => ?_
  have hd : e.w < 2 * e.w := by omega
  change (emitOphop e.n e.w e.binOp (extOp e.signed) v₁ v₂).Computes ev m _
  unfold emitOphop
  rw [Nat.mul_comm e.w 2]
  refine (h₁.lanes ha).then fun l₁ hl₁ => (h₂.lanes hb).then fun l₂ hl₂ => ?_
  refine Computes.then (computes_insertLanes hev hn fun i hi => ?_) fun r hr =>
    computes_bitCast hr _
  refine (computes_extract hl₁ (num_get32i hev hn hi) hi).then fun x₁ hx₁ => ?_
  refine (computes_extract hl₂ (num_get32i hev hn hi) hi).then fun x₂ hx₂ => ?_
  refine (computes_ext _ hx₁ hd).then fun y₁ hy₁ => (computes_ext _ hx₂ hd).then fun y₂ hy₂ => ?_
  exact (computes_bin hy₁ hy₂ (e.eval_binOp _ _ _)).then fun s hs => computes_half hev hw hs

end Yields

/-- High multiplication gives the upper half of the product, and the averages and
halved sums and differences the bits from `1` on, all of the exact result. -/
theorem halfOps_statement (fp : FPImpl) :
    (∀ op, ((opEmit fp op matches .opvExt ..) = true → ∃ e ∈ mulHiOps, e.op = op) ∧
      ((opEmit fp op matches .opavg ..) = true → ∃ e ∈ avgOps, e.op = op) ∧
      ((opEmit fp op matches .ophop ..) = true → ∃ e ∈ hopOps, e.op = op)) ∧
    (∀ e ∈ mulHiOps, (opEmit fp e.op).LaneWise e.n e.w (.vec e.n (.int e.w)) fun x y z =>
      (z.toNat : ℤ) = bitsAt e.w e.w (reading e.signed x * reading e.signed y)) ∧
    (∀ e ∈ avgOps, (opEmit fp e.op).LaneWise e.n e.w (.vec e.n (.int e.w)) fun x y z =>
      (z.toNat : ℤ) = bitsAt 1 e.w (reading e.signed x + reading e.signed y + 1)) ∧
    ∀ e ∈ hopOps, (opEmit fp e.op).LaneWise e.n e.w (.int (e.n * e.w)) fun x y z =>
      (z.toNat : ℤ) = bitsAt 1 e.w (e.exact (reading e.signed x) (reading e.signed y)) := by
  refine ⟨mem_halfOps fp, fun e he => ?_, fun e he => ?_, fun e he => ?_⟩
  · obtain ⟨hop, hw, hn, -⟩ := opEmit_mulHiOps fp e he
    rw [hop]
    exact laneWise_ofLanes
      (g := fun x y => bitsFrom e.w e.w (reading e.signed x * reading e.signed y))
      (fun a b ha hb => e.yields_mulHi hw hn ha hb) fun x y => toNat_bitsFrom le_rfl _
  · obtain ⟨hop, hw, hn⟩ := opEmit_avgOps fp e he
    rw [hop]
    exact laneWise_ofLanes
      (g := fun x y => bitsFrom 1 e.w (reading e.signed x + reading e.signed y + 1))
      (fun a b ha hb => e.yields_avg hw (hn.trans (by decide)) ha hb) fun x y => toNat_bitsFrom hw _
  · obtain ⟨hop, hw, hn⟩ := opEmit_hopOps fp e he
    rw [hop]
    intro a b ha hb
    refine ⟨_, e.yields_hop hw (hn.trans (by decide)) ha hb, rfl, fun i hi => ?_⟩
    have : (Datum.ofPacked e.n fun i => bitsFrom 1 e.w (e.exact (reading e.signed (a.lane e.w i))
        (reading e.signed (b.lane e.w i)))).lane e.w i = _ := laneOf_pack hi
    rw [this]
    exact toNat_bitsFrom hw _

/-- The high half of `-1 * 2` is `-1`, the average of `255` and `254` is `255`, and
half of `0 - 1` is `255`. -/
theorem halfOps_bytes :
    (∃ r : Datum, (opEmit .native .MulHi16Sx4).Yields
      [⟨.int 64, 0xFFFF, by decide⟩, ⟨.int 64, 2, by decide⟩] r ∧ (r.lane 16 0).toNat = 0xFFFF) ∧
    (∃ r : Datum, (opEmit .native .Avg8Ux8).Yields
      [⟨.int 64, 255, by decide⟩, ⟨.int 64, 254, by decide⟩] r ∧ (r.lane 8 0).toNat = 255) ∧
    ∃ r : Datum, (opEmit .native .HSub8Ux4).Yields
      [⟨.int 32, 0, by decide⟩, ⟨.int 32, 1, by decide⟩] r ∧ (r.lane 8 0).toNat = 255 := by
  obtain ⟨-, hmul, havg, hhop⟩ := halfOps_statement .native
  obtain ⟨r, hr, -, hl⟩ := hmul ⟨.MulHi16Sx4, 16, true, 4⟩ (by decide)
    ⟨.int 64, 0xFFFF, by decide⟩ ⟨.int 64, 2, by decide⟩ rfl rfl
  obtain ⟨s, hs, -, hk⟩ := havg ⟨.Avg8Ux8, 8, false, 8⟩ (by decide)
    ⟨.int 64, 255, by decide⟩ ⟨.int 64, 254, by decide⟩ rfl rfl
  obtain ⟨t, ht, -, hm⟩ := hhop ⟨.HSub8Ux4, true, 8, false, 4⟩ (by decide)
    ⟨.int 32, 0, by decide⟩ ⟨.int 32, 1, by decide⟩ rfl rfl
  refine ⟨⟨r, hr, ?_⟩, ⟨s, hs, ?_⟩, t, ht, ?_⟩
  · exact_mod_cast (hl 0 (by decide)).trans (by decide : _ = (0xFFFF : ℤ))
  · exact_mod_cast (hk 0 (by decide)).trans (by decide : _ = (255 : ℤ))
  · exact_mod_cast (hm 0 (by decide)).trans (by decide : _ = (255 : ℤ))

end VexLLVM
