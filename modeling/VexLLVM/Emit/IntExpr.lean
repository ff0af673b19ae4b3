import VexLLVM.Emit.IntTypes
import VexLLVM.Emit.ExitType
import VexLLVM.Emit.CtxPointers
import VexLLVM.Emit.RegArray

/-!
# Integer expressions

What is emitted for an integer expression computes what it means, where the context
holds the guest's state, the host has guest memory, and the temporaries are recorded.
-/

namespace VexLLVM

open LLVM LLVM.Code Vex StateExcept

/-! ## The guest on the machine -/

namespace GenLLVM

variable (gen : GenLLVM)

def guestMem (mem : BitVec 64 → LLVM.Byte) : BitVec 64 → LLVM.Byte := fun a => mem (gen.hostAt a.toNat)

/-- The guest's state is in the context, and its memory where the host has it. -/
structure Shows (M : Machine) (s : State) : Prop where
  guest : s.guest = M.ctx
  mem : s.mem = gen.guestMem M.mem

variable {gen} {mem : BitVec 64 → LLVM.Byte} {a : BitVec 64} {n y : ℕ}

theorem hostAt_toNat (a : BitVec 64) :
    gen.hostAt a.toNat = a + if gen.relocates then gen.base else 0 := by
  rw [hostAt, BitVec.ofNat_toNat, BitVec.setWidth_eq]

theorem readBytes_guestMem :
    readBytes (gen.guestMem mem) a n = readBytes mem (gen.hostAt a.toNat) n := by
  induction n generalizing a with
  | zero => rfl
  | succ n ih =>
      rw [readBytes, readBytes, ih, guestMem, hostAt_toNat, hostAt_toNat, add_right_comm]

theorem guestMem_writeBytes :
    gen.guestMem (writeBytes mem (gen.hostAt a.toNat) n y) =
      writeBytes (gen.guestMem mem) a n y := by
  funext p
  rw [guestMem, writeBytes, writeBytes, guestMem, hostAt_toNat, hostAt_toNat,
    add_sub_add_right_eq_sub]

end GenLLVM

def tmpValues (s : State) : IRTemp → Option (Ty × ℕ) := fun t =>
  (s.tmps t).map fun a => (.int a.width, a.bits.toNat)

/-- The guest is on the machine, and its temporaries have the widths; host copies are
of what is in its memory. -/
structure Ready (gen : GenLLVM) (Γ : Widths) (s : State) (M : Machine) : Prop where
  is64 : gen.is32Bit = false
  shows : gen.Shows M s
  copies : gen.Copies M.mem
  typed : s.Typed Γ

theorem GenLLVM.int_addrBits {gen : GenLLVM} (h64 : gen.is32Bit = false) :
    Ty.int 64 = .int gen.addrBits := by
  rw [addrBits, h64]
  rfl

def Emits (gen : GenLLVM) (s : State) (M : Machine) (e : IRExpr) (a : IRWord) : Prop :=
  ∀ (total : Bool) (ext : Extern) (L : List (LLVM.Value × RVal)) (R : Frame → RVal → Prop),
    Runs total ext (Stands (tmpValues s) L M) ((VexExpr.create gen e).emit gen)
      (Got (tmpValues s) L M (.int a.width) (.bits a.bits.toNat)) R

section Words

variable {f : BitVec 64 → LLVM.Byte} {o : BitVec 64} {w : ℕ}

/-- The number that the bytes of a word are. -/
theorem toNat_ofNat_readBytes (hw : w = 8 * (w / 8)) :
    (BitVec.ofNat w (readBytes f o (w / 8))).toNat = readBytes f o (w / 8) := by
  have hlt := readBytes_lt f o (w / 8)
  rw [← hw] at hlt
  rw [BitVec.toNat_ofNat, Nat.mod_eq_of_lt hlt]

end Words

/-- The element of an indexed access is where the array has it. -/
theorem ctxElemOff_eq {d : IRRegArray} {w : ℕ} (hty : d.elemTy.stored? = some w)
    (hd : d.fits w = true) (hpos : 0 < w / 8) (i : BitVec 32) (bias : ℤ) :
    d.base % (w / 8) = 0 ∧ 0 < d.nElems ∧ d.nElems < 2 ^ 32 ∧
      ctxElemOff d.base (w / 8) bias d.nElems i.toNat = BitVec.ofNat 64 (d.offset i bias) := by
  obtain ⟨hpow, hdvd, hle⟩ := of_decide_eq_true hd
  have hbits : d.elemTy.bits = w := by
    obtain ⟨hw, -⟩ := Option.filter_eq_some_iff.1 hty
    unfold IRType.width? at hw
    split at hw <;> cases hw
    rfl
  have hlen : 0 < d.nElems := hpow ▸ Nat.two_pow_pos _
  have hmul := Nat.le_mul_of_pos_right d.nElems hpos
  have hlog : d.nElems.log2 ≤ 32 := by
    refine (Nat.pow_le_pow_iff_right Nat.one_lt_two).1 ?_
    rw [hpow]
    omega
  have hmod := Nat.mod_eq_zero_of_dvd hdvd
  have hk := ctxElem_lt bias hlen i.toNat
  refine ⟨hmod, hlen, by omega, ?_⟩
  have hlt : ctxElem bias d.nElems i.toNat + d.base / (w / 8) < 2 ^ 31 := by
    have hbase := Nat.div_le_self d.base (w / 8)
    omega
  have helem : (ctxElem bias d.nElems i.toNat : ℤ) = (i.toInt + bias) % d.nElems := by
    have h := ctxElem_two_pow hlog bias i
    rwa [hpow] at h
  calc ctxElemOff d.base (w / 8) bias d.nElems i.toNat
      = BitVec.ofNat 64 (d.base + ctxElem bias d.nElems i.toNat * (w / 8)) := elemOff_eq hmod hlt
    _ = BitVec.ofNat 64 (d.offset i bias) := by
        rw [IRRegArray.offset, ← helem, Int.toNat_natCast, hbits]

section Expressions

variable {gen : GenLLVM} {s : State} {M : Machine} {Γ : Widths} {e : IRExpr} {w : ℕ} {a b : IRWord}

theorem emits_get (hM : gen.Shows M s) {offset : ℕ} {ty : IRType} (hty : ty.stored? = some w)
    (hp : placed offset w = true) : Emits gen s M (.Get offset ty) (s.get offset w) := by
  intro total ext L R
  change Runs total ext _ (gen.readCtx offset ty) _ R
  cases ht : vexTy2LLVM ty with
  | none =>
      unfold GenLLVM.readCtx
      exact runs_llvmTy_bind fun t h => by rw [ht] at h; cases h
  | some t =>
      obtain ⟨rfl, hbytes, hw, hpos, -⟩ := vexTy2LLVM_stored hty ht
      obtain ⟨hdvd, hlt⟩ := of_decide_eq_true hp
      have hread : Runs total ext (Stands (tmpValues s) L M) (gen.readCtx offset ty)
          (Got (tmpValues s) L M (.int w) (.bits (readBytes M.ctx (ctxOff offset (Ty.int w).bytes)
            (Ty.int w).bytes))) R := runs_readCtx gen offset ht
      rw [hbytes, GenLLVM.ctxOff_eq hdvd hlt] at hread
      change Runs total ext _ _ (Got _ _ _ (.int w) (.bits (BitVec.ofNat w _).toNat)) R
      rw [toNat_ofNat_readBytes hw, hM.guest]
      exact hread

theorem emits_getI (hM : gen.Shows M s) {descr : IRRegArray} {ix : IRExpr} {i : BitVec 32}
    (bias : ℤ) (hi : Emits gen s M ix ⟨32, i⟩) (hty : descr.elemTy.stored? = some w)
    (hd : descr.fits w = true) :
    Emits gen s M (.GetI descr ix bias) (s.get (descr.offset i bias) w) := by
  intro total ext L R
  change Runs total ext _ (do
    let ix ← (VexExpr.create gen ix).emit gen
    let elemType ← llvmTy descr.elemTy
    gen.readCtxI descr.base bias descr.nElems ix elemType) _ R
  refine (hi total ext L R).got fun v hv => runs_llvmTy_bind fun t ht => ?_
  obtain ⟨rfl, hbytes, hw, hpos, -⟩ := vexTy2LLVM_stored hty ht
  obtain ⟨hoff, hlen, hlen', hat⟩ := ctxElemOff_eq hty hd hpos i bias
  have hread : Runs total ext (Stands (tmpValues s) ((v, .bits i.toNat) :: L) M)
      (gen.readCtxI descr.base bias descr.nElems v (.int w))
        (Got (tmpValues s) ((v, .bits i.toNat) :: L) M
        (.int w) (.bits (readBytes M.ctx
          (ctxElemOff descr.base (Ty.int w).bytes bias descr.nElems i.toNat)
          (Ty.int w).bytes))) R :=
    runs_readCtxI gen bias (hbytes ▸ hpos.ne') (hbytes ▸ hoff) hlen hlen' hv (List.mem_cons_self ..)
  rw [hbytes, hat] at hread
  change Runs total ext _ _ (Got _ _ _ (.int w) (.bits (BitVec.ofNat w _).toNat)) R
  rw [toNat_ofNat_readBytes hw, hM.guest]
  exact hread.post fun _ _ _ => Got.drop

theorem emits_rdTmp {tmp : IRTemp} (h : s.tmps tmp = some a) : Emits gen s M (.RdTmp tmp) a := by
  have hv : tmpValues s tmp = some (.int a.width, a.bits.toNat) := by rw [tmpValues, h]; rfl
  exact fun total ext L R => operand_rdTmp gen hv total ext L M R

theorem emits_const {con : IRConst} (h : con.word? = some a) : Emits gen s M (.Const con) a := by
  have hcon : VexExpr.create gen (.Const con) = .const con ∧
      intConst? con = some (a.width, a.bits.toNat) := by
    cases con <;> cases h <;> simp [VexExpr.create, VexExpr.createConst, intConst?]
  intro total ext L R
  rw [hcon.1]
  exact operand_const gen _ hcon.2 total ext L M R

theorem emits_unop {op : Iop} {o : IntUnop} {args : Fin NaryTag.Unop.arity → IRExpr}
    {x : BitVec o.arg} (ho : op.intUnop? = some o)
    (ha : Emits gen s M (args ⟨0, by decide⟩) ⟨o.arg, x⟩) :
    Emits gen s M (.Nary .Unop (.iop op) args) ⟨o.res, o.eval x⟩ := by
  intro total ext L R
  obtain ⟨hop, hf⟩ := opEmit_intUnop gen.fp ho
  rw [VexExpr.create, VexExpr.emit, ofFn_one (tagop_intUnop ho), hop]
  simp only [emitAll, bind_assoc, pure_bind]
  refine (ha total ext L R).got fun v hv => ?_
  exact ((yields_intUnop hf x).runs (.cons ⟨hv, List.mem_cons_self ..⟩ .nil)).post
    fun _ _ _ => Got.drop

theorem emits_binop {op : Iop} {o : IntBinop} {args : Fin NaryTag.Binop.arity → IRExpr}
    {x : BitVec o.lhs} {y : BitVec o.rhs} {z : BitVec o.res} (ho : op.intBinop? = some o)
    (ha : Emits gen s M (args ⟨0, by decide⟩) ⟨o.lhs, x⟩)
    (hb : Emits gen s M (args ⟨1, by decide⟩) ⟨o.rhs, y⟩) (hz : o.eval x y = some z) :
    Emits gen s M (.Nary .Binop (.iop op) args) ⟨o.res, z⟩ := by
  intro total ext L R
  obtain ⟨hop, hf⟩ := opEmit_intBinop gen.fp ho
  rw [VexExpr.create, VexExpr.emit, ofFn_two (tagop_intBinop ho), hop]
  simp only [emitAll, bind_assoc, pure_bind]
  refine (ha total ext L R).got fun v hv => (hb total ext _ R).got fun u hu => ?_
  refine ((yields_intBinop hf hz).runs
    (.cons ⟨hv, ?_⟩ (.cons ⟨hu, List.mem_cons_self ..⟩ .nil))).post
    fun _ _ _ h => Got.drop (Got.drop h)
  exact List.mem_cons_of_mem _ (List.mem_cons_self ..)

/-- A load at an address just computed. -/
theorem runs_loadWord (hr : Ready gen Γ s M) {total : Bool} {ext : Extern}
    {L : List (LLVM.Value × RVal)} {R : Frame → RVal → Prop} {u : LLVM.Value} {x : BitVec 64}
    (hw : w = 8 * (w / 8)) (hpos : 0 < w / 8)
    (hle : w / 8 ≤ 8) (hu : u.ty = .int 64) (hL : (u, .bits x.toNat) ∈ L) :
    Runs total ext (Stands (tmpValues s) L M) (gen.load u (.int w))
      (Got (tmpValues s) L M (.int w) (.bits (s.load x w).bits.toNat)) R := by
  change Runs total ext _ _ (Got _ _ _ (.int w) (.bits (BitVec.ofNat w _).toNat)) R
  rw [toNat_ofNat_readBytes hw, hr.shows.mem, GenLLVM.readBytes_guestMem]
  exact runs_load hw hpos hle (hu.trans (GenLLVM.int_addrBits hr.is64)) hL hr.copies

theorem emits_load (hr : Ready gen Γ s M) {ty : IRType} {addr : IRExpr} {x : BitVec 64}
    (ha : Emits gen s M addr ⟨64, x⟩) (hty : ty.stored? = some w) :
    Emits gen s M (.Load .LE ty addr) (s.load x w) := by
  intro total ext L R
  change Runs total ext _ (do
    let addr ← (VexExpr.create gen addr).emit gen
    let ty ← llvmTy ty
    gen.load addr ty) _ R
  refine (ha total ext L R).got fun v hv => runs_llvmTy_bind fun t ht => ?_
  obtain ⟨rfl, -, hw, hpos, hle⟩ := vexTy2LLVM_stored hty ht
  exact (runs_loadWord hr hw hpos hle hv (List.mem_cons_self ..)).post fun _ _ _ => Got.drop

/-- An arm of a mux: integers are not flattened. -/
theorem runs_flattened {total : Bool} {ext : Extern} {L : List (LLVM.Value × RVal)}
    {R : Frame → RVal → Prop} (h : Emits gen s M e a) :
    Runs total ext (Stands (tmpValues s) L M) (do
        let v ← (VexExpr.create gen e).emit gen
        code (VexExpr.flattenType v))
      (Got (tmpValues s) L M (.int a.width) (.bits a.bits.toNat)) R := by
  refine (h total ext L R).got fun v hv => ?_
  have hflat : VexExpr.flattenType v = pure v := by
    unfold VexExpr.flattenType
    rw [hv]
  rw [hflat]
  exact (runs_code_got (c := pure v) fun ev hev => ⟨hv, hev.vals _ _ (List.mem_cons_self ..)⟩).post
    fun _ _ _ => Got.drop

theorem eval_isZero (c : BitVec 1) :
    (IPred.eq.eval 1 c.toNat 0).toNat = if c = 1 then 0 else 1 := by
  revert c
  decide

theorem computes_muxCond {ev : LLVM.Value → Option RVal} {v : LLVM.Value} {c : BitVec 1}
    (hev : Consts ev) (hv : v.Word ev c) :
    (VexExpr.muxCond v).Computes ev M (LLVM.Value.Num ev 1 (if c = 1 then 0 else 1)) := by
  unfold VexExpr.muxCond
  rw [hv.ty, ← eval_isZero]
  exact computes_icmp .eq hv (num_constInt hev (Nat.two_pow_pos 1))

theorem emits_ite {cond iftrue iffalse : IRExpr} {c : BitVec 1} (hc : Emits gen s M cond ⟨1, c⟩)
    (ha : Emits gen s M iftrue a) (hb : Emits gen s M iffalse b) (hw : a.width = b.width) :
    Emits gen s M (.ITE cond iftrue iffalse) (if c = 1 then a else b) := by
  intro total ext L R
  rw [VexExpr.create, VexExpr.emit]
  -- the branch is on the comparison of the condition with zero
  have hcmp : Runs total ext (Stands (tmpValues s) L M) (do
      let cmp ← (VexExpr.create gen cond).emit gen
      code (VexExpr.muxCond cmp))
      (Got (tmpValues s) L M (.int 1) (.bits (if c = 1 then 0 else 1))) R := by
    refine (hc total ext L R).got fun v hv => ?_
    exact (runs_code_got fun ev hev => computes_muxCond hev.consts
      (hev.num hv (List.mem_cons_self ..))).post fun _ _ _ => Got.drop
  have hlast : ∀ (x : IRWord) v, Lasting (Got (tmpValues s) L M (.int x.width)
    (.bits x.bits.toNat) v) :=
    fun x v => (lasting_const _).and (kept_stands _ _ _)
  have hand : ∀ {e : IRExpr} {x : IRWord}, Emits gen s M e x → Hands (Stands (tmpValues s) L M) (do
      let v ← (VexExpr.create gen e).emit gen
      code (VexExpr.flattenType v)) fun v => v.ty = .int x.width := fun h =>
    (runs_flattened h : Runs true ext _ _ _ _).hands fun _ _ _ hq => hq.1
  refine (runs_branches (b := true) (hlast a) (hlast b) hcmp (runs_flattened ha) (runs_flattened hb)
    (hand ha) (hand hb)).bind fun r => ?_
  obtain ⟨⟨nonzero, bbNz⟩, ⟨zero, bbZ⟩⟩ := r
  refine runs_of_and fun hr => ?_
  obtain ⟨hnz, hz, hne⟩ := hr
  dsimp only at hz hne ⊢
  have hty : zero.ty = .int (if c = 1 then a else b).width := by
    rw [hz, apply_ite IRWord.width, hw, ite_self]
  rw [hty]
  refine runs_phi.pre ?_
  rintro σ fr (⟨hprev, h, hq⟩ | ⟨hprev, h, hq⟩)
  · have h1 : c = 1 := by simpa using h
    rw [if_pos h1]
    exact ⟨by simp [hprev, hne.symm, hq.eval], hq.2.drop⟩
  · have h1 : ¬ c = 1 := by simpa using h
    rw [if_neg h1]
    exact ⟨by simp [hprev, hq.eval], hq.2.drop⟩

/-- The emitted code computes what the expression means. -/
theorem emits_of_eval (hr : Ready gen Γ s M) (h : HasWidth Γ e w) (ha : s.eval e = .ok a) :
    Emits gen s M e a := by
  induction h generalizing a with
  | get hty hp =>
      obtain ⟨w', hw, ha⟩ := exists_of_bind_ok ha
      cases hty.symm.trans (eq_some_of_orIllTyped hw)
      cases ha
      exact emits_get hr.shows hty hp
  | getI bias hix hty hd ih =>
      obtain ⟨w', hw, ha⟩ := exists_of_bind_ok ha
      cases hty.symm.trans (eq_some_of_orIllTyped hw)
      obtain ⟨i, hi, ha⟩ := exists_of_bind_ok ha
      obtain ⟨x, hx, ha⟩ := exists_of_bind_ok ha
      cases ha
      cases IRWord.as_eq_ok hx
      exact emits_getI hr.shows bias (ih hi) hty hd
  | rdTmp h => exact emits_rdTmp (eq_some_of_orIllTyped ha)
  | unop ho _ ih =>
      obtain ⟨o', ho', ha⟩ := exists_of_bind_ok ha
      cases ho.symm.trans (eq_some_of_orIllTyped ho')
      obtain ⟨y, hy, ha⟩ := exists_of_bind_ok ha
      obtain ⟨x, rfl, rfl⟩ := IntUnop.of_apply_ok ha
      exact emits_unop ho (ih hy)
  | binop ho _ _ iha ihb =>
      obtain ⟨o', ho', ha⟩ := exists_of_bind_ok ha
      cases ho.symm.trans (eq_some_of_orIllTyped ho')
      obtain ⟨u, hu, ha⟩ := exists_of_bind_ok ha
      obtain ⟨v, hv, ha⟩ := exists_of_bind_ok ha
      obtain ⟨x, y, z, rfl, rfl, hz, rfl⟩ := IntBinop.of_apply_ok ha
      exact emits_binop ho (iha hu) (ihb hv) hz
  | load _ hty ih =>
      obtain ⟨w', hw, ha⟩ := exists_of_bind_ok ha
      cases hty.symm.trans (eq_some_of_orIllTyped hw)
      obtain ⟨y, hy, ha⟩ := exists_of_bind_ok ha
      obtain ⟨x, hx, ha⟩ := exists_of_bind_ok ha
      cases ha
      cases IRWord.as_eq_ok hx
      exact emits_load hr (ih hy) hty
  | const h =>
      cases h.symm.trans (eq_some_of_orIllTyped ha)
      exact emits_const h
  | ite _ hta htb ihc iha ihb =>
      obtain ⟨u, hu, ha⟩ := exists_of_bind_ok ha
      obtain ⟨c, hc, ha⟩ := exists_of_bind_ok ha
      obtain ⟨x, hx, ha⟩ := exists_of_bind_ok ha
      obtain ⟨y, hy, ha⟩ := exists_of_bind_ok ha
      cases ha
      cases IRWord.as_eq_ok hc
      have hwx : x.width = _ := width_of_eval hr.typed hta hx
      have hwy : y.width = _ := width_of_eval hr.typed htb hy
      exact emits_ite (ihc hu) (iha hx) (ihb hy) (hwx.trans hwy.symm)

theorem emits_of_evalAs (hr : Ready gen Γ s M) (h : HasWidth Γ e w) {x : BitVec w}
    (hx : s.evalAs w e = .ok x) : Emits gen s M e ⟨w, x⟩ := by
  obtain ⟨a, ha, hx⟩ := exists_of_bind_ok hx
  cases IRWord.as_eq_ok hx
  exact emits_of_eval hr h ha

end Expressions

end VexLLVM
