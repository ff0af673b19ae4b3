import VexLLVM.LLVM.Compute
import VexLLVM.LLVM.Bytes
import VexLLVM.Emit.Runs

/-!
# Accesses at run time

What the generator's accesses to guest memory and to the guest context do when
the emitted code runs. `Stands` is what is known at an insertion point: some
values, those of the temporaries, where the cached pointers point, and the
machine.
-/

namespace VexLLVM

open LLVM LLVM.Code Vex StateExcept

namespace GenLLVM

variable (gen : GenLLVM)

def addrBits : ℕ := if gen.is32Bit then 32 else 64

def hostAt (x : ℕ) : BitVec 64 := BitVec.ofNat 64 x + if gen.relocates then gen.base else 0

def Copies (mem : BitVec 64 → LLVM.Byte) : Prop :=
  gen.fakeVsysReads = true →
    ∀ a v, gen.sysHostAddr a = some v → v.toNat = readBytes mem (gen.hostAt a.toNat) 8

/-- The machine after `n` bytes of `y` are stored at the guest address `x`. -/
def storeTo (m : Machine) (x n y : ℕ) : Machine where
  ctx := m.ctx
  mem := writeBytes m.mem (gen.hostAt x) n y
  log := if gen.logLastStore then [x, n % 2 ^ 64, y] else m.log

end GenLLVM

/-- Where in the context an access of `n` bytes at the offset goes. -/
def ctxOff (off n : ℕ) : BitVec 64 :=
  (BitVec.ofNat 32 (off / n)).signExtend 64 * BitVec.ofNat 64 n

structure Sees (L : List (Value × RVal)) (ev : Value → Option RVal) : Prop where
  consts : Consts ev
  undef : ∀ t, ev (.undef t) = some (.agg (List.replicate t.nfields 0))
  ctx : ∀ t, ev (.arg 0 t) = some (.ctxPtr 0)
  log : ∀ t, ev (.arg 1 t) = some .logPtr
  vals : ∀ v x, (v, x) ∈ L → ev v = some x

/-- At the insertion point of `σ`, a frame with the machine `M` has the values
listed, and those of the temporaries; cached pointers point where they are filed. -/
structure Stands (ρ : IRTemp → Option (Ty × ℕ)) (L : List (Value × RVal)) (M : Machine)
    (σ : GenState) (fr : Frame) : Prop where
  mach : fr.m = M
  vals : ∀ v x, (v, x) ∈ L → fr.Has σ.nextId v x
  tmps : ∀ t ty x, ρ t = some (ty, x) →
    ∃ v, σ.values t = some v ∧ v.ty = ty ∧ fr.Has σ.nextId v (.bits x)
  casts : σ.insertBlock = entryBB → ∀ ty p, σ.ctxcastMap ty = some p →
    p.ty = ty ∧ fr.Has σ.nextId p (.ctxPtr 0)
  geps : σ.insertBlock = entryBB → ∀ off n p, σ.gepbyteMap (off, n) = some p →
    fr.Has σ.nextId p (.ctxPtr (ctxOff off n))

variable {ext : Extern} {total : Bool} {R : Frame → RVal → Prop} {ρ : IRTemp → Option (Ty × ℕ)}
  {L L' : List (Value × RVal)} {M : Machine} {σ : GenState} {fr : Frame} {gen : GenLLVM}
  {v a d : Value} {t : Ty} {r : RVal} {n x y : ℕ}

theorem Stands.sees (h : Stands ρ L M σ fr) {ev : Value → Option RVal}
    (hev : fr.KnownTo σ.nextId ev) : Sees L ev where
  consts := hev.const
  undef _ := hev _ _ (.of_isConst rfl rfl)
  ctx _ := hev _ _ ⟨trivial, rfl⟩
  log _ := hev _ _ ⟨trivial, rfl⟩
  vals v x hv := hev v x (h.vals v x hv)

theorem Stands.sub (h : Stands ρ L M σ fr) (hL : L' ⊆ L) : Stands ρ L' M σ fr :=
  { h with vals := fun v x hv => h.vals v x (hL hv) }

theorem Stands.drop {p : Value × RVal} (h : Stands ρ (p :: L) M σ fr) : Stands ρ L M σ fr :=
  h.sub (List.subset_cons_self p L)

theorem Stands.cons (h : Stands ρ L M σ fr) (hv : fr.Has σ.nextId v r) :
    Stands ρ ((v, r) :: L) M σ fr :=
  { h with
    vals := fun w x hw => by
      rcases List.mem_cons.1 hw with he | hw
      · cases he
        exact hv
      · exact h.vals w x hw }

theorem kept_stands (ρ : IRTemp → Option (Ty × ℕ)) (L : List (Value × RVal)) (M : Machine) :
    Lasting (Stands ρ L M) := by
  intro σ σ' fr fr' hl hk hm h
  have hhas : ∀ {v x}, fr.Has σ.nextId v x → fr'.Has σ'.nextId v x := fun hv =>
    hv.keeps hk (Nat.le_refl _) hl.nextId
  refine ⟨hm.trans h.mach, fun v x hv => hhas (h.vals v x hv), ?_, ?_, ?_⟩
  · intro t ty x ht
    obtain ⟨v, hv, hty, hx⟩ := h.tmps t ty x ht
    exact ⟨v, hl.values t v hv, hty, hhas hx⟩
  · intro hb ty p hp
    obtain ⟨hb, -, hc⟩ := hl.caches hb
    rw [hc] at hp
    exact ⟨(h.casts hb ty p hp).1, hhas (h.casts hb ty p hp).2⟩
  · intro hb off n p hp
    obtain ⟨hb, hg, -⟩ := hl.caches hb
    rw [hg] at hp
    exact hhas (h.geps hb off n p hp)

/-- An instruction that changes the machine. -/
theorem Stands.moved {σ' : GenState} {fr' : Frame} (h : Stands ρ L M σ fr) (hl : Later σ σ')
    (hk : fr.Keeps fr' σ.nextId) : Stands ρ L fr'.m σ' fr' :=
  have h' := kept_stands ρ L M σ σ' fr { fr' with m := M } hl hk h.mach.symm h
  ⟨rfl, h'.vals, h'.tmps, h'.casts, h'.geps⟩

theorem at_beginBB (M : Machine) : (Func.start M).At GenLLVM.beginBB.toBuilder := ⟨rfl, rfl⟩

/-- Nothing is known before the first statement. -/
theorem stands_beginBB (M : Machine) : Stands (fun _ => none) [] M GenLLVM.beginBB (Func.start M) :=
  ⟨rfl, fun _ _ h => (by cases h), fun _ _ _ h => (by cases h), fun _ _ _ h => (by cases h),
    fun _ _ _ _ h => (by cases h)⟩

/-- What is known after a computation that hands back the value `r` of type `t`. -/
def Got (ρ : IRTemp → Option (Ty × ℕ)) (L : List (Value × RVal)) (M : Machine) (t : Ty)
    (r : RVal) (v : Value) : Assertion :=
  fun σ fr => v.ty = t ∧ Stands ρ ((v, r) :: L) M σ fr

theorem Got.drop {p : Value × RVal} (h : Got ρ (p :: L) M t r v σ fr) : Got ρ L M t r v σ fr :=
  ⟨h.1, h.2.sub (List.cons_subset_cons _ (List.subset_cons_self p L))⟩

theorem Got.eval (h : Got ρ L M t r v σ fr) : fr.eval v = some r :=
  (h.2.vals _ _ (List.mem_cons_self ..)).2

/-- A value that is branched on is the known one. -/
theorem Got.bits_eq {c n : ℕ} (h : Got ρ L M t (.bits c) v σ fr) (hn : fr.eval v = some (.bits n)) :
    c = n :=
  RVal.bits.inj (Option.some.inj (h.eval.symm.trans hn))

/-- Gone on with what was handed back. -/
theorem Runs.got {β : Type} {P : Assertion} {m : EmitM Value} {f : Value → EmitM β}
    {Q : β → Assertion} [Builds m] [∀ a, Builds (f a)]
    (h : Runs total ext P m (Got ρ L M t r) R)
    (hf : ∀ v, v.ty = t → Runs total ext (Stands ρ ((v, r) :: L) M) (f v) Q R) :
    Runs total ext P (m >>= f) Q R :=
  h.bind fun v => runs_of_and (hf v)

theorem runs_code_got {c : OpCode}
    (h : ∀ ev, Sees L ev → c.Computes ev M (Value.Holds ev t r)) :
    Runs total ext (Stands ρ L M) (code c) (Got ρ L M t r) R := by
  refine (runs_code c (q := fun ev => Value.Holds ev t r) (kept_stands ρ L M)
    fun σ fr ev hs hev => ?_).post ?_
  · rw [hs.mach]
    exact h ev (hs.sees hev)
  · rintro v σ fr ⟨hs, hv⟩
    exact ⟨(hv _ (.known fr _)).ty, hs.cons (Frame.has_of_known fun ev hev => (hv ev hev).eq)⟩

theorem passes_code_got {c : OpCode} (hc : c.Plain)
    (h : ∀ ev, Sees L ev → c.Computes ev M (Value.Holds ev t r)) :
    Passes ext (Stands ρ L M) (code c) True (Got ρ L M t r) := by
  refine (passes_code c hc (q := fun ev => Value.Holds ev t r) (kept_stands ρ L M)
    fun σ fr ev hs hev => ?_).post ?_
  · rw [hs.mach]
    exact h ev (hs.sees hev)
  · rintro v σ fr ⟨hs, hv⟩
    exact ⟨(hv _ (.known fr _)).ty, hs.cons (Frame.has_of_known fun ev hev => (hv ev hev).eq)⟩

/-- A result that is filed in a cache. -/
theorem Runs.filed {P : Assertion} {Q Q' : Value → Assertion} {m : EmitM Value} [Builds m]
    {g : Value → GenState → GenState} (hg : ∀ v σ, (g v σ).toBuilder = σ.toBuilder)
    (h : Runs total ext P m Q R) (hq : ∀ v σ fr, Q v σ fr → Q' v (g v σ) fr) :
    Runs total ext P (do let v ← m; modify (g v); pure v) Q' R := by
  intro σ v σ' G fr hm hok hG hl hat hp
  obtain ⟨w, σ₁, h₁, h₂⟩ := bind_eq_ok hm
  cases h₂
  rcases h σ v σ₁ G fr h₁ hok (by rwa [hg] at hG) hl hat hp with ⟨fr', hr, hat', hk, hQ⟩ | hleave
  · exact .inl ⟨fr', hr, by rwa [hg], hk, hq v σ₁ fr' hQ⟩
  · exact .inr hleave

/-! ## The context -/

theorem Sees.curGuestCtx {ev : Value → Option RVal} (h : Sees L ev) (gen : GenLLVM) :
    gen.curGuestCtx.Holds ev (.ptr gen.guestCtxTy) (.ctxPtr 0) := ⟨rfl, h.ctx _⟩

theorem Sees.num {ev : Value → Option RVal} {w : ℕ} (h : Sees L ev) (ha : a.ty = .int w)
    (hx : (a, .bits x) ∈ L) : a.Num ev w x := ⟨ha, h.vals a _ hx⟩

theorem runs_getCtxPtr (gen : GenLLVM) (t : Ty) :
    Runs total ext (Stands ρ L M) (gen.getCtxPtr (.ptr t)) (Got ρ L M (.ptr t) (.ctxPtr 0)) R := by
  have hcast : Runs total ext (Stands ρ L M) (code (createBitCast gen.curGuestCtx (.ptr t)))
      (Got ρ L M (.ptr t) (.ctxPtr 0)) R :=
    runs_code_got fun ev hev => computes_bitCast (hev.curGuestCtx gen) _
  unfold GenLLVM.getCtxPtr
  refine runs_get fun s => ?_
  split
  · exact hcast.pre fun σ fr h => h.2
  · next hs =>
      split
      · next p hp =>
          refine (runs_pure p).pre ?_
          rintro σ fr ⟨rfl, h⟩
          obtain ⟨hty, hx⟩ := h.casts (not_not.1 hs) _ p hp
          exact ⟨hty, h.cons hx⟩
      · refine Runs.filed (fun _ _ => rfl) (hcast.pre fun σ fr h => h.2) ?_
        rintro p σ fr ⟨hty, h⟩
        refine ⟨hty, { h with casts := fun hb ty q hq => ?_ }⟩
        have hq : Function.update σ.ctxcastMap (.ptr t) (some p) ty = some q := hq
        rcases eq_or_ne ty (.ptr t) with rfl | hne
        · rw [Function.update_self] at hq
          cases hq
          exact ⟨hty, h.vals _ _ (List.mem_cons_self ..)⟩
        · exact h.casts hb ty q (by rwa [Function.update_of_ne hne] at hq)

theorem Sees.sub {ev : Value → Option RVal} (h : Sees L ev) (hL : L' ⊆ L) : Sees L' ev :=
  { h with vals := fun v x hv => h.vals v x (hL hv) }

theorem runs_getCtxTyGEP (gen : GenLLVM) {off : Value} {w i : ℕ} (t : Ty)
    (ho : ∀ ev, Sees L ev → off.Num ev w i) :
    Runs total ext (Stands ρ L M) (gen.getCtxTyGEP off t) (Got ρ L M (.ptr t)
      (.ctxPtr ((BitVec.ofNat w i).signExtend 64 * BitVec.ofNat 64 t.bytes))) R := by
  unfold GenLLVM.getCtxTyGEP
  refine (runs_getCtxPtr gen t).got fun p hp => ?_
  refine (runs_code_got (t := .ptr t) fun ev hev => ?_).post fun _ _ _ h => h.drop
  have hgep := computes_gep (ε := EmitError) (m := M) ⟨hp, hev.vals _ _ (List.mem_cons_self ..)⟩
    (ho ev (hev.sub (List.subset_cons_self _ _)))
  rwa [zero_add] at hgep

theorem ctxOff_mod (off n : ℕ) :
    (BitVec.ofNat 32 (off / n % 2 ^ 32)).signExtend 64 * BitVec.ofNat 64 n = ctxOff off n := by
  have h : BitVec.ofNat 32 (off / n % 2 ^ 32) = BitVec.ofNat 32 (off / n) :=
    BitVec.eq_of_toNat_eq (by simp)
  rw [h, ctxOff]

theorem runs_getCtxByteGEP (gen : GenLLVM) (off : ℕ) (t : Ty) :
    Runs total ext (Stands ρ L M) (gen.getCtxByteGEP off t)
      (Got ρ L M (.ptr t) (.ctxPtr (ctxOff off t.bytes))) R := by
  have hgep : Runs total ext (Stands ρ L M)
      (gen.getCtxTyGEP (constInt 32 (off / t.bytes)) t)
      (Got ρ L M (.ptr t) (.ctxPtr (ctxOff off t.bytes))) R := by
    rw [← ctxOff_mod]
    exact runs_getCtxTyGEP gen t fun ev hev => ⟨rfl, hev.consts (.int 32) _⟩
  unfold GenLLVM.getCtxByteGEP
  by_cases ht : t.bytes = 0
  · rw [if_pos ht]
    exact fun _ _ _ _ _ hm => by cases hm
  rw [if_neg ht]
  refine runs_get fun s => ?_
  split
  · next p hp =>
      split
      · next hs =>
          refine (runs_pure p).pre ?_
          rintro σ fr ⟨rfl, h⟩
          exact ⟨hs.2, h.cons (h.geps hs.1 _ _ p hp)⟩
      · exact hgep.pre fun σ fr h => h.2
  · refine Runs.filed (fun _ _ => rfl) (hgep.pre fun σ fr h => h.2) ?_
    rintro p σ fr ⟨hty, h⟩
    refine ⟨hty, { h with geps := fun hb off' n q hq => ?_ }⟩
    have hq : Function.update σ.gepbyteMap (off, t.bytes) (some p) (off', n) = some q := hq
    rcases eq_or_ne (off', n) (off, t.bytes) with he | hne
    · rw [he, Function.update_self] at hq
      cases hq
      cases he
      exact h.vals _ _ (List.mem_cons_self ..)
    · exact h.geps hb off' n q (by rwa [Function.update_of_ne hne] at hq)

theorem llvmTy_of_some {ty : IRType} (h : vexTy2LLVM ty = some t) : llvmTy ty = pure t := by
  unfold llvmTy
  rw [h]

/-- A load through a pointer just computed. -/
theorem Got.load {m : EmitM Value} [Builds m] {p : RVal} {P : Assertion} {al : ℕ}
    (h : Runs total ext P m (Got ρ L M (.ptr t) p) R) (hx : M.load p t.bytes = some x) :
    Runs total ext P (do let p ← m; code (create (.load p al))) (Got ρ L M t (.bits x)) R :=
  h.got fun _ hq => (runs_code_got fun _ hev =>
    computes_load ⟨hq, hev.vals _ _ (List.mem_cons_self ..)⟩ hx).post fun _ _ _ h => h.drop

theorem runs_readCtx (gen : GenLLVM) (off : ℕ) {ty : IRType} (hty : vexTy2LLVM ty = some t) :
    Runs total ext (Stands ρ L M) (gen.readCtx off ty)
      (Got ρ L M t (.bits (readBytes M.ctx (ctxOff off t.bytes) t.bytes))) R := by
  unfold GenLLVM.readCtx
  rw [llvmTy_of_some hty, pure_bind]
  exact Got.load (runs_getCtxByteGEP gen off t) rfl

/-- A store of a known value to a known pointer. -/
theorem passes_storeInst {p : Value} {q r : RVal} {M' : Machine} {al : ℕ}
    (hp : ∀ ev, Sees L ev → ev p = some q) (hd : ∀ ev, Sees L ev → ev d = some r)
    (hM : M.store q d.ty.bytes r = some M') :
    Passes ext (Stands ρ L M) (code (create (.store d p al))) (q.AlignedTo al)
      (fun _ => Stands ρ L M') := by
  have hptr : ∀ σ fr, Stands ρ L M σ fr → fr.eval p = some q := fun σ fr h =>
    (Frame.has_of_known fun ev hev => hp ev (h.sees hev)).2
  have hexec : ∀ σ fr, Stands ρ L M σ fr →
      (Inst.store d p al).exec ext fr = some (.bits 0, M') := by
    intro σ fr h
    have hr := Frame.has_of_known fun ev hev => hd ev (h.sees hev)
    simp [Inst.exec, hptr σ fr h, hr.2, h.mach, hM]
  refine passes_inst (by simp [Inst.simplify?, Inst.sameTypeCast?, Inst.constFold?, Inst.eval])
    (fun σ fr h => ?_) (fun σ fr h => by rw [hexec σ fr h]; rfl) ?_
  · simp [Inst.Misaligned, hptr σ fr h]
  · intro σ σ' fr fr' v x hl hk h hx hv hty
    rw [hexec σ fr h] at hx
    cases hx
    exact h.moved hl hk

theorem runs_storeInst {p : Value} {q r : RVal} {M' : Machine} {al : ℕ}
    (hp : ∀ ev, Sees L ev → ev p = some q) (hd : ∀ ev, Sees L ev → ev d = some r)
    (hM : M.store q d.ty.bytes r = some M') :
    Runs total ext (Stands ρ L M) (code (create (.store d p al))) (fun _ => Stands ρ L M') R :=
  (passes_storeInst hp hd hM).runs

theorem runs_writeCtx (gen : GenLLVM) (off : ℕ) (hv : (v, .bits x) ∈ L) :
    Runs total ext (Stands ρ L M) (gen.writeCtx off v)
      (fun _ => Stands ρ L (M.setCtx (ctxOff off v.ty.bytes) v.ty.bytes x)) R := by
  unfold GenLLVM.writeCtx
  refine (runs_getCtxByteGEP gen off v.ty).got fun p _ => ?_
  refine (runs_storeInst (fun _ hev => hev.vals _ _ (List.mem_cons_self ..))
    (fun _ hev => hev.vals _ _ (List.mem_cons_of_mem _ hv)) rfl).bind fun _ => ?_
  exact (runs_pure ()).pre fun σ fr h => h.drop

/-- The element an indexed access goes to: the index and the bias wrap around at
`2 ^ 32`, and then at the number of elements. -/
def ctxElem (bias : ℤ) (len x : ℕ) : ℕ := (BitVec.ofNat 32 x + BitVec.ofInt 32 bias).toNat % len

def ctxElemOff (off n : ℕ) (bias : ℤ) (len x : ℕ) : BitVec 64 :=
  (BitVec.ofNat 32 (ctxElem bias len x + off / n)).signExtend 64 * BitVec.ofNat 64 n

/-- An element below `2 ^ 31` is where it is counted to be. -/
theorem elemAddr_eq {k n : ℕ} (hk : k < 2 ^ 31) :
    (BitVec.ofNat 32 k).signExtend 64 * BitVec.ofNat 64 n = BitVec.ofNat 64 (k * n) := by
  have hmsb : (BitVec.ofNat 32 k).msb = false := by
    rw [BitVec.msb_eq_false_iff_two_mul_lt, BitVec.toNat_ofNat]
    omega
  rw [BitVec.signExtend_eq_setWidth_of_msb_false hmsb, BitVec.ofNat_mul]
  congr 1
  refine BitVec.eq_of_toNat_eq ?_
  rw [BitVec.toNat_setWidth, BitVec.toNat_ofNat, BitVec.toNat_ofNat]
  omega

theorem urem_eval {len : ℕ} (hlen : 0 < len) (hlen' : len < 2 ^ 32) (x : ℕ) :
    BinOp.urem.eval 32 x (len % 2 ^ 32) = some ((BitVec.ofNat 32 x).toNat % len) := by
  have hne : BitVec.ofNat 32 len ≠ 0 := by
    intro h
    have := congrArg BitVec.toNat h
    rw [BitVec.toNat_ofNat, Nat.mod_eq_of_lt hlen'] at this
    exact Nat.ne_of_gt hlen this
  rw [Nat.mod_eq_of_lt hlen', BinOp.eval, if_neg hne, BitVec.toNat_umod, BitVec.toNat_ofNat len,
    Nat.mod_eq_of_lt hlen']

theorem eval_ctxElem (bias : ℤ) {len : ℕ} (hlen : 0 < len) (hlen' : len < 2 ^ 32) (x : ℕ) :
    BinOp.urem.eval 32 (BitVec.ofNat 32 x + BitVec.ofInt 32 bias).toNat (len % 2 ^ 32) =
      some (ctxElem bias len x) := by
  rw [urem_eval hlen hlen', ctxElem, BitVec.ofNat_toNat, BitVec.setWidth_eq]

theorem runs_getCtxElem (gen : GenLLVM) {off len : ℕ} (bias : ℤ) {ix : Value} (ht : t.bytes ≠ 0)
    (hoff : off % t.bytes = 0) (hlen : 0 < len) (hlen' : len < 2 ^ 32) (hty : ix.ty = .int 32)
    (hix : (ix, .bits x) ∈ L) :
    Runs total ext (Stands ρ L M) (gen.getCtxElem off bias len ix t) (Got ρ L M (.ptr t)
      (.ctxPtr (ctxElemOff off t.bytes bias len x))) R := by
  unfold GenLLVM.getCtxElem
  rw [if_neg (not_or.2 ⟨ht, not_not.2 hoff⟩)]
  refine Runs.got (t := .int 32)
    (r := .bits (BitVec.ofNat 32 (ctxElem bias len x + off / t.bytes)).toNat)
    (runs_code_got fun ev hev => ?_) fun o ho => ?_
  · have hadd : BinOp.add.eval 32 x ((BitVec.ofInt 32 bias).toNat % 2 ^ 32) =
        some (BitVec.ofNat 32 x + BitVec.ofInt 32 bias).toNat := by
      simp [BinOp.eval]
    have hsum : BinOp.add.eval 32 (ctxElem bias len x) (off / t.bytes % 2 ^ 32) =
        some (BitVec.ofNat 32 (ctxElem bias len x + off / t.bytes)).toNat := by
      simp [BinOp.eval]
    refine (computes_cast_self .bitcast (hev.num hty hix)).then fun i hi => ?_
    refine (computes_bin hi ⟨rfl, hev.consts _ _⟩ hadd).then fun s hs => ?_
    refine (computes_bin hs ⟨rfl, hev.consts _ _⟩ (eval_ctxElem bias hlen hlen' x)).then
      fun e he => ?_
    exact computes_bin he ⟨rfl, hev.consts _ _⟩ hsum
  · refine ((runs_getCtxTyGEP gen t fun ev hev =>
      hev.num ho (List.mem_cons_self ..)).post fun _ _ _ h => ?_)
    rw [BitVec.ofNat_toNat, BitVec.setWidth_eq] at h
    exact h.drop

theorem runs_readCtxI (gen : GenLLVM) {off len : ℕ} (bias : ℤ) {ix : Value} (ht : t.bytes ≠ 0)
    (hoff : off % t.bytes = 0) (hlen : 0 < len) (hlen' : len < 2 ^ 32) (hty : ix.ty = .int 32)
    (hix : (ix, .bits x) ∈ L) :
    Runs total ext (Stands ρ L M) (gen.readCtxI off bias len ix t) (Got ρ L M t
      (.bits (readBytes M.ctx (ctxElemOff off t.bytes bias len x) t.bytes))) R := by
  unfold GenLLVM.readCtxI
  exact Got.load (runs_getCtxElem gen bias ht hoff hlen hlen' hty hix) rfl

theorem runs_writeCtxI (gen : GenLLVM) {off len : ℕ} (bias : ℤ) {ix : Value}
    (ht : v.ty.bytes ≠ 0) (hoff : off % v.ty.bytes = 0) (hlen : 0 < len) (hlen' : len < 2 ^ 32)
    (hty : ix.ty = .int 32) (hix : (ix, .bits x) ∈ L) (hv : (v, .bits y) ∈ L) :
    Runs total ext (Stands ρ L M) (gen.writeCtxI off bias len ix v)
      (fun _ => Stands ρ L (M.setCtx (ctxElemOff off v.ty.bytes bias len x) v.ty.bytes y)) R := by
  unfold GenLLVM.writeCtxI
  refine (runs_getCtxElem gen bias ht hoff hlen hlen' hty hix).got fun p _ => ?_
  refine (runs_storeInst (fun _ hev => hev.vals _ _ (List.mem_cons_self ..))
    (fun _ hev => hev.vals _ _ (List.mem_cons_of_mem _ hv)) rfl).bind fun _ => ?_
  exact (runs_pure ()).pre fun σ fr h => h.drop

/-! ## Guest memory -/

theorem computes_hostAddr {ev : Value → Option RVal} (ha : a.Num ev gen.addrBits x) :
    (gen.hostAddr a).Computes ev M (Value.Num ev 64 x) := by
  unfold GenLLVM.hostAddr
  unfold GenLLVM.addrBits at ha
  split
  · exact computes_zext ha 64
  · next h =>
      rw [if_neg h] at ha
      exact ha

/-- The number that the pointer to a host address is. -/
theorem computes_hostPtr (gen : GenLLVM) (x : ℕ) :
    ∃ z, BitVec.ofNat 64 z = gen.hostAt x ∧ ∀ (ev : Value → Option RVal) (a : Value) (t : Ty),
      Consts ev → a.Num ev 64 x →
        (gen.hostPtr a t).Computes ev M (Value.Holds ev (.ptr t) (.bits z)) := by
  unfold GenLLVM.hostPtr GenLLVM.hostAt
  cases gen.relocates with
  | true =>
      refine ⟨(BitVec.ofNat 64 x + gen.base).toNat,
        by rw [BitVec.ofNat_toNat, BitVec.setWidth_eq, if_pos rfl], fun ev a t hev ha => ?_⟩
      have hadd : BinOp.add.eval 64 x (gen.base.toNat % 2 ^ 64) =
          some (BitVec.ofNat 64 x + gen.base).toNat := by
        simp [BinOp.eval]
      exact (computes_bin ha ⟨rfl, hev _ _⟩ hadd).then fun s hs => computes_intToPtr hs t
  | false => exact ⟨x, (add_zero _).symm, fun ev a t _ ha => computes_intToPtr ha t⟩

theorem hostAt_mod (x : ℕ) : gen.hostAt (BitVec.ofNat 64 x).toNat = gen.hostAt x := by
  unfold GenLLVM.hostAt
  rw [BitVec.ofNat_toNat, BitVec.setWidth_eq]

/-- What a constant address is replaced by. -/
theorem fakeRead_spec {ev : Value → Option RVal} {w : ℕ} {u : BitVec 64} (hev : Consts ev)
    (ha : a.Num ev w x) (h : gen.fakeRead a = some u) (hc : gen.Copies M.mem) :
    u.toNat = readBytes M.mem (gen.hostAt x) 8 := by
  unfold GenLLVM.fakeRead at h
  split at h
  · next k =>
      have hk := ha.eq
      rw [hev] at hk
      cases hk
      split at h
      · next hf =>
          rw [Bool.and_eq_true] at hf
          rw [← hostAt_mod]
          exact hc hf.1 _ u h
      · cases h
  · cases h

theorem plain_hostAddr (gen : GenLLVM) (a : Value) : (gen.hostAddr a).Plain := by
  unfold GenLLVM.hostAddr
  split
  · exact plain_createCast _ _ _
  · trivial

theorem plain_hostPtr (gen : GenLLVM) (a : Value) (t : Ty) : (gen.hostPtr a t).Plain := by
  unfold GenLLVM.hostPtr
  split
  · exact (plain_createBin _ _ _).bind fun _ => plain_createCast _ _ _
  · exact plain_createCast _ _ _

/-- Whether a read is faked is known of the guest address. -/
theorem fakeRead_hostAddr {b : Value} {σ' : GenState} (hty : a.ty = .int gen.addrBits)
    (h : code (gen.hostAddr a) σ = .ok (b, σ')) : gen.fakeRead b = gen.fakeRead a := by
  unfold GenLLVM.hostAddr at h
  unfold GenLLVM.addrBits at hty
  split at h
  · next h32 =>
      rw [if_pos h32] at hty
      have hb : b = (σ.toBuilder.create (.cast .zext a (.int 64))).1 := by
        cases h
        rfl
      rw [hb, Builder.create]
      cases a with
      | const t n =>
          cases hty
          rfl
      | undef t =>
          cases hty
          rfl
      | inst id t =>
          cases hty
          rfl
      | arg i t =>
          cases hty
          rfl
  · cases h
    rfl

/-- What a load hands back: what the host copy of the system page has at the address,
or what memory holds. -/
def GenLLVM.loaded (gen : GenLLVM) (mem : BitVec 64 → LLVM.Byte) (a : Value) (x : ℕ) (t : Ty) : Ty × ℕ :=
  match gen.fakeRead a with
  | some u => (.int t.bits, u.toNat % 2 ^ t.bits)
  | none => (t, readBytes mem (gen.hostAt x) t.bytes)

/-- Code with a store after a value is computed. -/
theorem passes_code_then {p : Prop} {c : OpCode} {f : Value → Code EmitError β} {P : β → Assertion}
    (hc : c.Plain) (h : ∀ ev, Sees L ev → c.Computes ev M (Value.Holds ev t r))
    (hf : ∀ v, v.ty = t → Passes ext (Stands ρ ((v, r) :: L) M) (code (f v)) p P) :
    Passes ext (Stands ρ L M) (code (c >>= f)) p P := by
  rw [code_bind]
  exact ((passes_code_got hc h).bind fun v => passes_of_and (hf v)).congr (iff_of_eq (true_and p))

/-- A load at a known pointer. -/
theorem passes_loadInst {p : Value} {q : RVal} {al : ℕ}
    (hp : ∀ ev, Sees L ev → p.Holds ev (.ptr t) q) (hx : M.load q t.bytes = some x) :
    Passes ext (Stands ρ L M) (code (create (.load p al))) (q.AlignedTo al)
      (Got ρ L M t (.bits x)) := by
  have hknown : ∀ σ fr, Stands ρ L M σ fr → p.ty = .ptr t ∧ fr.eval p = some q := fun σ fr h =>
    ⟨(hp _ (h.sees (.known fr _))).ty, (Frame.has_of_known fun ev hev => (hp ev (h.sees hev)).eq).2⟩
  have hexec : ∀ σ fr, Stands ρ L M σ fr →
      (Inst.load p al).ty = t ∧ (Inst.load p al).exec ext fr = some (.bits x, M) := by
    intro σ fr h
    obtain ⟨hty, hq⟩ := hknown σ fr h
    have ht : (Inst.load p al).ty = t := by rw [Inst.ty, hty]
    exact ⟨ht, by simp [Inst.exec, ht, hq, h.mach, hx]⟩
  refine passes_inst (by simp [Inst.simplify?, Inst.sameTypeCast?, Inst.constFold?, Inst.eval])
    (fun σ fr h => ?_) (fun σ fr h => by rw [(hexec σ fr h).2]; rfl) ?_
  · simp [Inst.Misaligned, (hknown σ fr h).2]
  · intro σ σ' fr fr' v y hl hk h hx hv hty
    obtain ⟨ht, he⟩ := hexec σ fr h
    rw [he] at hx
    cases hx
    exact ⟨hty.trans ht, (h.moved hl hk).cons hv⟩

/-- A load from guest memory. -/
theorem passes_load (hty : a.ty = .int gen.addrBits) (ha : (a, .bits x) ∈ L) (t : Ty) :
    Passes ext (Stands ρ L M) (gen.load a t) (gen.fakeRead a = none → 8 ∣ (gen.hostAt x).toNat)
      (Got ρ L M (gen.loaded M.mem a x t).1 (.bits (gen.loaded M.mem a x t).2)) := by
  have hgot : Passes ext (Stands ρ L M) (code (gen.hostAddr a)) True
    (Got ρ L M (.int 64) (.bits x)) :=
    passes_code_got (plain_hostAddr gen a) fun ev hev => computes_hostAddr (hev.num hty ha)
  have haddr := hgot.result fun σ b σ' hb => fakeRead_hostAddr hty hb
  unfold GenLLVM.load GenLLVM.loaded
  rw [code_bind]
  refine (haddr.bind fun b => passes_of_and fun hb => passes_of_and fun hbty => ?_).congr
    (iff_of_eq (true_and _))
  rw [hb]
  cases gen.fakeRead a with
  | some u =>
      dsimp only
      split
      · refine Passes.congr ?_ (iff_of_true trivial fun h => by cases h)
        refine (passes_code_got (c := pure (constInt t.bits u.toNat)) trivial fun ev hev =>
          ⟨rfl, hev.consts _ _⟩).post fun v σ fr h => ?_
        exact Got.drop h
      · exact fun σ v σ' G fr hm => by cases hm
  | none =>
      dsimp only
      obtain ⟨z, hz, hptr⟩ := computes_hostPtr (M := M) gen x
      have hx : M.load (.bits z) t.bytes = some (readBytes M.mem (gen.hostAt x) t.bytes) := by
        rw [Machine.load, hz]
      have hload : ∀ p, p.ty = .ptr t → Passes ext
          (Stands ρ ((p, .bits z) :: (b, .bits x) :: L) M) (code (create (.load p 8)))
          (8 ∣ (gen.hostAt x).toNat)
          (Got ρ L M t (.bits (readBytes M.mem (gen.hostAt x) t.bytes))) := fun p hp => by
        refine ((passes_loadInst (fun ev hev => ⟨hp, hev.vals _ _ (List.mem_cons_self ..)⟩) hx).post
          fun _ _ _ h => h.drop.drop).congr ?_
        rw [RVal.AlignedTo, hz]
        simp
      exact (passes_code_then (plain_hostPtr gen b t) (fun ev hev => hptr ev b t hev.consts
        ⟨hbty, hev.vals _ _ (List.mem_cons_self ..)⟩) hload).congr (imp_iff_right rfl).symm

theorem runs_load {k w : ℕ} (hw : w = 8 * k) (_ : 0 < k) (hk : k ≤ 8)
    (hty : a.ty = .int gen.addrBits) (ha : (a, .bits x) ∈ L) (hc : gen.Copies M.mem) :
    Runs total ext (Stands ρ L M) (gen.load a (.int w))
      (Got ρ L M (.int w) (.bits (readBytes M.mem (gen.hostAt x) k))) R := by
  subst hw
  have hbytes : (Ty.int (8 * k)).bytes = k := by simp [Ty.bytes]
  refine (passes_load hty ha _).runs.post fun v σ fr h => ?_
  unfold GenLLVM.loaded at h
  cases hf : gen.fakeRead a with
  | none =>
      rw [hf] at h
      rwa [hbytes] at h
  | some u =>
      rw [hf] at h
      have ha : a.Num fr.eval gen.addrBits x := ⟨hty, (h.2.vals a _ (List.mem_cons_of_mem _ ha)).2⟩
      have hu := fakeRead_spec (fun _ _ => rfl) ha hf hc
      dsimp only at h
      rwa [Ty.bits_int, hu, readBytes_mod _ _ hk] at h

theorem passes_code_store {p : Value} {q r : RVal} {M' : Machine} {al : ℕ}
    (hp : ∀ ev, Sees L ev → ev p = some q) (hd : ∀ ev, Sees L ev → ev d = some r)
    (hM : M.store q d.ty.bytes r = some M') :
    Passes ext (Stands ρ L M) (code (do let _ ← create (.store d p al))) (q.AlignedTo al)
      (fun _ => Stands ρ L M') := by
  rw [code_bind]
  exact ((passes_storeInst hp hd hM).bind fun _ =>
    passes_pure (Q := fun _ => Stands ρ L M') ()).congr
    (iff_of_eq (and_true _))

theorem passes_hostStore (hty : a.ty = .int gen.addrBits) (ha : (a, .bits x) ∈ L)
    (hd : (d, .bits y) ∈ L) :
    Passes ext (Stands ρ L M)
      (code do
        let addrV ← gen.hostAddr a
        let p ← gen.hostPtr addrV d.ty
        let _ ← create (.store d p 8)) (8 ∣ (gen.hostAt x).toNat)
      (fun _ => Stands ρ L { M with mem := writeBytes M.mem (gen.hostAt x) d.ty.bytes y }) := by
  obtain ⟨z, hz, hptr⟩ := computes_hostPtr (M := M) gen x
  refine passes_code_then (plain_hostAddr gen a) (fun ev hev => computes_hostAddr (hev.num hty ha))
    fun b hb => ?_
  refine passes_code_then (plain_hostPtr gen b d.ty) (fun ev hev => hptr ev b d.ty hev.consts
    (hev.num hb (List.mem_cons_self ..))) fun p _ => ?_
  refine ((passes_code_store (fun _ hev => hev.vals _ _ (List.mem_cons_self ..))
    (fun _ hev => hev.vals _ _ (List.mem_cons_of_mem _ (List.mem_cons_of_mem _ hd))) ?_).post
    fun _ _ _ h => h.drop.drop).congr ?_
  · rw [Machine.store, hz]
  · rw [RVal.AlignedTo, hz]
    simp

theorem passes_recordStore (hty : a.ty = .int gen.addrBits) (ha : (a, .bits x) ∈ L)
    (hd : (d, .bits y) ∈ L) :
    Passes ext (Stands ρ L M) (code (GenLLVM.recordStore GenLLVM.curMemoryLog a d)) True
      (fun _ => Stands ρ L { M with log := [x, d.ty.bytes % 2 ^ 64, y] }) := by
  unfold GenLLVM.recordStore
  refine passes_code_then (plain_createCast _ _ _)
    (fun ev hev => computes_intToPtr (hev.num hty ha) (.int 8)) fun p hp => ?_
  refine passes_code_then (r := .agg [x, 0, 0]) (plain_create fun _ => id) (fun ev hev =>
    computes_insertValue ⟨rfl, hev.undef _⟩ (hev.vals _ _ (List.mem_cons_self ..)) 0)
      fun e₁ h₁ => ?_
  refine passes_code_then (r := .agg [x, d.ty.bytes % 2 ^ 64, 0]) (plain_create fun _ => id)
    (fun ev hev => computes_insertValue ⟨h₁, hev.vals _ _ (List.mem_cons_self ..)⟩
      (hev.consts _ _) 1)
    fun e₂ h₂ => ?_
  have hd : (d, RVal.bits y) ∈ (e₂, .agg [x, d.ty.bytes % 2 ^ 64, 0]) :: (e₁, .agg [x, 0, 0]) ::
      (p, .bits x) :: L := by simp [hd]
  refine passes_code_then (plain_createCast _ _ _)
    (fun ev hev => computes_bitCast ⟨rfl, hev.vals _ _ hd⟩ _) fun d₁ hd₁ => ?_
  refine passes_code_then (plain_createCast _ _ _)
    (fun ev hev => computes_zext (hev.num hd₁ (List.mem_cons_self ..)) 128) fun d₂ hd₂ => ?_
  have he : (e₂, RVal.agg [x, d.ty.bytes % 2 ^ 64, 0]) ∈ (d₂, .bits y) :: (d₁, .bits y) ::
      (e₂, .agg [x, d.ty.bytes % 2 ^ 64, 0]) :: (e₁, .agg [x, 0, 0]) :: (p, .bits x) :: L := by simp
  refine passes_code_then (plain_createCast _ _ _) (fun ev hev => computes_bitCast
    ⟨hd₂, hev.vals _ _ (List.mem_cons_self ..)⟩ _) fun d₃ _ => ?_
  refine passes_code_then (r := .agg [x, d.ty.bytes % 2 ^ 64, y]) (plain_create fun _ => id)
    (fun ev hev => computes_insertValue ⟨h₂, hev.vals _ _ (List.mem_cons_of_mem _ he)⟩
      (hev.vals _ _ (List.mem_cons_self ..)) 2) fun e₃ _ => ?_
  exact (passes_code_store (fun _ hev => hev.log _) (fun _ hev => hev.vals _ _
    (List.mem_cons_self ..)) rfl).post fun _ _ _ h => h.sub fun q hq => by simp [hq]

theorem runs_recordStore (hty : a.ty = .int gen.addrBits) (ha : (a, .bits x) ∈ L)
    (hd : (d, .bits y) ∈ L) :
    Runs total ext (Stands ρ L M) (code (GenLLVM.recordStore GenLLVM.curMemoryLog a d))
      (fun _ => Stands ρ L { M with log := [x, d.ty.bytes % 2 ^ 64, y] }) R :=
  (passes_recordStore hty ha hd).runs

/-- A store to guest memory. -/
theorem passes_store (hty : a.ty = .int gen.addrBits) (ha : (a, .bits x) ∈ L)
    (hd : (d, .bits y) ∈ L) :
    Passes ext (Stands ρ L M) (gen.store a d) (8 ∣ (gen.hostAt x).toNat)
      (fun _ => Stands ρ L (gen.storeTo M x d.ty.bytes y)) := by
  unfold GenLLVM.store GenLLVM.storeTo
  cases gen.logLastStore with
  | true =>
      exact ((passes_recordStore hty ha hd).bind fun _ => passes_hostStore hty ha hd).congr
        (iff_of_eq (true_and _))
  | false => exact passes_hostStore hty ha hd

theorem runs_store (hty : a.ty = .int gen.addrBits) (ha : (a, .bits x) ∈ L)
    (hd : (d, .bits y) ∈ L) :
    Runs total ext (Stands ρ L M) (gen.store a d)
      (fun _ => Stands ρ L (gen.storeTo M x d.ty.bytes y)) R :=
  (passes_store hty ha hd).runs

/-! ## Temporaries and blocks -/

/-- A temporary is set to a known value. -/
theorem runs_setRegValue_stands (tmp : IRTemp) (hty : v.ty = t) (hv : (v, .bits x) ∈ L) :
    Runs total ext (Stands ρ L M) (setRegValue tmp v)
      (fun _ => Stands (Function.update ρ tmp (some (t, x))) L M) R := by
  refine runs_setRegValue tmp v (kept_stands ρ L M) fun σ fr hset h => ?_
  refine { h with tmps := fun tmp' ty y hy => ?_ }
  by_cases he : tmp' = tmp
  · subst he
    rw [Function.update_self] at hy
    cases hy
    exact ⟨v, hset, hty, h.vals _ _ hv⟩
  · rw [Function.update_of_ne he] at hy
    exact h.tmps tmp' ty y hy

/-- A block entered where a known condition is not zero. -/
theorem runs_ifThen_stands {α : Type} {cond : EmitM Value} {body : EmitM α} [Builds cond]
    [Builds body] {Q₀ : Assertion} {c : ℕ} (hQ : Lasting Q₀)
    (hc : Runs total ext (Stands ρ L M) cond (Got ρ L M t (.bits c)) R)
    (h0 : c = 0 → ∀ σ fr, Stands ρ L M σ fr → Q₀ σ fr)
    (hb : c ≠ 0 → Runs total ext (Stands ρ L M) body (fun _ => Q₀) R) :
    Runs total ext (Stands ρ L M) (ifThen cond body) (fun _ => Q₀) R := by
  by_cases hc0 : c = 0
  · have hnone : Runs total ext (fun _ _ => False) body (fun _ => Q₀) R :=
      fun _ _ _ _ _ _ _ _ _ _ h => h.elim
    exact runs_ifThen (kept_stands ρ L M).opens (lasting_const False).opens hQ hc
      (fun _ v σ fr h => ⟨c, h.eval⟩) (fun v σ fr n h hn hne => hne ((h.bits_eq hn).symm.trans hc0))
      (fun v σ fr h _ => h0 hc0 σ fr h.2.drop) hnone
  · exact runs_ifThen (kept_stands ρ L M).opens (kept_stands ρ L M).opens hQ hc
      (fun _ v σ fr h => ⟨c, h.eval⟩) (fun v σ fr _ h _ _ => h.2.drop)
      (fun v σ fr h hn => absurd (h.bits_eq hn) hc0) (hb hc0)

/-- Two alternative blocks that a known condition chooses from. -/
theorem runs_branches {b : Bool} {cond first second : EmitM Value} [Builds cond] [Builds first]
    [Builds second] {Q₁ Q₂ : Value → Assertion} {φ₁ φ₂ : Value → Prop} {c : ℕ}
    (hQ₁ : ∀ v, Lasting (Q₁ v)) (hQ₂ : ∀ v, Lasting (Q₂ v))
    (hc : Runs total ext (Stands ρ L M) cond (Got ρ L M t (.bits c)) R)
    (h₁ : Runs total ext (Stands ρ L M) first Q₁ R) (h₂ : Runs total ext (Stands ρ L M) second Q₂ R)
    (hφ₁ : Hands (Stands ρ L M) first φ₁) (hφ₂ : Hands (Stands ρ L M) second φ₂) :
    Runs total ext (Stands ρ L M) (ifThenElse b cond first second) (fun r σ fr =>
      (φ₁ r.1.1 ∧ φ₂ r.2.1 ∧ r.1.2 ≠ r.2.2) ∧
        ((fr.prev = r.1.2 ∧ (c = 0 ↔ b = true) ∧ Q₁ r.1.1 σ fr) ∨
          fr.prev = r.2.2 ∧ (c = 0 ↔ b = false) ∧ Q₂ r.2.1 σ fr)) R := by
  have hs := kept_stands ρ L M
  have hand : ∀ {p : Prop} {m : EmitM Value} {Q : Value → Assertion},
      Runs total ext (Stands ρ L M) m Q R → Runs total ext (fun σ fr => p ∧ Stands ρ L M σ fr) m
        (fun v σ fr => p ∧ Q v σ fr) R := fun h => runs_of_and fun hp =>
          h.post fun _ _ _ hq => ⟨hp, hq⟩
  have hfirst : Runs total ext
      (if b then fun σ fr => c = 0 ∧ Stands ρ L M σ fr else fun σ fr =>
        c ≠ 0 ∧ Stands ρ L M σ fr) first
      (fun v σ fr => (c = 0 ↔ b = true) ∧ Q₁ v σ fr) R := by
    cases b
    · exact (hand h₁).post fun _ _ _ h => ⟨iff_of_false h.1 Bool.false_ne_true, h.2⟩
    · exact (hand h₁).post fun _ _ _ h => ⟨iff_of_true h.1 rfl, h.2⟩
  have hsecond : Runs total ext
      (if b then fun σ fr => c ≠ 0 ∧ Stands ρ L M σ fr else fun σ fr =>
        c = 0 ∧ Stands ρ L M σ fr) second
      (fun v σ fr => (c = 0 ↔ b = false) ∧ Q₂ v σ fr) R := by
    cases b
    · exact (hand h₂).post fun _ _ _ h => ⟨iff_of_true h.1 rfl, h.2⟩
    · exact (hand h₂).post fun _ _ _ h => ⟨iff_of_false h.1 Bool.noConfusion, h.2⟩
  exact runs_ifThenElse hs ((lasting_const _).and hs) ((lasting_const _).and hs) hs
    (fun v => (lasting_const _).and (hQ₁ v)) (fun v => (lasting_const _).and (hQ₂ v)) hc
    (fun _ v σ fr h => ⟨c, h.eval⟩) (fun v σ fr n h hn hne => ⟨h.bits_eq hn ▸ hne, h.2.drop⟩)
    (fun v σ fr h hn => ⟨h.bits_eq hn, h.2.drop⟩) (fun v σ fr h => h.2.drop) hfirst hsecond hφ₁ hφ₂

/-- A phi, after the block it has a value for. -/
theorem runs_phi {inc : List (Value × ℕ)} :
    Runs total ext (fun σ fr => ((inc.find? fun p => p.2 == fr.prev).bind fun p => fr.eval p.1) =
      some r ∧
      Stands ρ L M σ fr) (code (create (.phi t inc))) (Got ρ L M t r) R := by
  refine runs_inst (by simp [Inst.simplify?, Inst.sameTypeCast?, Inst.constFold?, Inst.eval])
    (fun _ σ fr h => by simp [Inst.exec, h.1]) fun σ σ' fr fr' v y hl hk h hx hv hty => ?_
  rw [Inst.exec, h.1] at hx
  obtain ⟨rfl, hm⟩ := Prod.mk.inj (Option.some.inj hx)
  exact ⟨hty, (kept_stands ρ L M σ σ' fr fr' hl hk hm.symm h.2).cons hv⟩

/-! ## Operands -/

/-- An expression that only hands back a value, whatever the machine is. -/
def Operand (gen : GenLLVM) (ρ : IRTemp → Option (Ty × ℕ)) (e : VexExpr) (t : Ty) (r : RVal) : Prop :=
  ∀ (total : Bool) (ext : Extern) (L : List (Value × RVal)) (M : Machine) (R : Frame → RVal → Prop),
    Runs total ext (Stands ρ L M) (e.emit gen) (Got ρ L M t r) R

theorem operand_rdTmp (gen : GenLLVM) {tmp : IRTemp} (h : ρ tmp = some (t, x)) :
    Operand gen ρ (.rdTmp tmp) t (.bits x) := by
  intro total ext L M R
  unfold VexExpr.emit
  refine runs_getRegValue tmp (fun σ fr v hv hs => ?_) fun v =>
    (lasting_const (v.ty = t)).and (kept_stands ρ ((v, .bits x) :: L) M)
  obtain ⟨w, hw, hty, hx⟩ := hs.tmps tmp t x h
  rw [hv] at hw
  cases hw
  exact ⟨hty, hs.cons hx⟩

def intConst? : IRConst → Option (ℕ × ℕ)
  | .U1 b => some (1, b.toNat)
  | .U8 v => some (8, v.toNat)
  | .U16 v => some (16, v.toNat)
  | .U32 v => some (32, v.toNat)
  | .U64 v => some (64, v.toNat)
  | _ => none

theorem emitConst_of_int {con : IRConst} {w : ℕ} (h : intConst? con = some (w, x)) :
    x < 2 ^ w ∧ VexExpr.emitConst con = pure (constInt w x) := by
  cases con with
  | U1 b =>
      cases h
      exact ⟨b.toNat_lt, rfl⟩
  | U8 v | U16 v | U32 v | U64 v =>
      cases h
      exact ⟨v.isLt, rfl⟩
  | _ => cases h

theorem operand_const (gen : GenLLVM) (ρ : IRTemp → Option (Ty × ℕ)) {con : IRConst} {w : ℕ}
    (h : intConst? con = some (w, x)) : Operand gen ρ (.const con) (.int w) (.bits x) := by
  intro total ext L M R
  obtain ⟨hlt, he⟩ := emitConst_of_int h
  unfold VexExpr.emit
  rw [he]
  exact runs_code_got fun ev hev => num_constInt hev.consts hlt

theorem operand_gsptr (gen : GenLLVM) (ρ : IRTemp → Option (Ty × ℕ)) :
    Operand gen ρ .gsptr (.ptr gen.guestCtxTy) (.ctxPtr 0) := by
  intro total ext L M R
  unfold VexExpr.emit
  refine (runs_pure gen.curGuestCtx).pre fun σ fr h => ⟨rfl, h.cons ⟨trivial, rfl⟩⟩

end VexLLVM
