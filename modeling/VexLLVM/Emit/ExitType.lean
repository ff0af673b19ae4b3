import VexLLVM.Emit.Access
import VexLLVM.Emit.OpQuiet
import VexLLVM.Emit.SBDraft

/-!
# The exit type

The byte behind the guest state that a superblock leaves its exit type in. Emitted
code writes it where it leaves, and nowhere else as long as its writes to the
context stay below it and its addresses are numbers.
-/

namespace VexLLVM

open LLVM LLVM.Code Vex StateExcept

namespace GenLLVM

variable (gen : GenLLVM)

/-- `getExitType`, as a byte. -/
def exitByte (m : Machine) : LLVM.Byte := m.ctx (BitVec.ofNat 64 gen.exitTypeOffset)

def Spares (ext : Extern) : Prop :=
  ∀ f xs m r m', ext f xs m = some (r, m') → gen.exitByte m' = gen.exitByte m

end GenLLVM

/-- The exit type is `b`, and cached pointers point where they are filed. -/
def Marked (gen : GenLLVM) (b : LLVM.Byte) : Assertion := fun σ fr =>
  gen.exitByte fr.m = b ∧ Stands (fun _ => none) [] fr.m σ fr

section Marked

variable {ext : Extern} {total : Bool} {R : Frame → RVal → Prop} {ρ : IRTemp → Option (Ty × ℕ)}
  {L : List (Value × RVal)} {M : Machine} {σ σ' : GenState} {fr fr' : Frame} {gen : GenLLVM}
  {b : LLVM.Byte} {v a d p : Value} {t : Ty} {α β : Type}

theorem Stands.marked (h : Stands ρ L M σ fr) (hb : gen.exitByte M = b) : Marked gen b σ fr :=
  ⟨h.mach ▸ hb, rfl, fun _ _ hv => (by cases hv), fun _ _ _ ht => (by cases ht), h.casts, h.geps⟩

theorem lasting_marked (gen : GenLLVM) (b : LLVM.Byte) : Lasting (Marked gen b) := by
  rintro σ σ' fr fr' hl hk hm ⟨hb, h⟩
  exact (kept_stands _ _ fr.m σ σ' fr fr' hl hk hm h).marked hb

theorem Marked.moved (h : Marked gen b σ fr) (hl : Later σ σ') (hk : fr.Keeps fr' σ.nextId)
    (hb : gen.exitByte fr'.m = gen.exitByte fr.m) : Marked gen b σ' fr' :=
  (h.2.moved hl hk).marked (hb.trans h.1)

theorem runs_marked {m : EmitM α} {Q : α → Assertion} (h : ∀ M, gen.exitByte M = b →
      Runs total ext (Stands (fun _ => none) [] M) m Q R) :
    Runs total ext (Marked gen b) m Q R :=
  fun σ a σ' G fr hm hok hG hl hat hp => h fr.m hp.1 σ a σ' G fr hm hok hG hl hat hp.2

/-! ## Code that stores nothing -/

theorem exec_machine {i : Inst} (hi : i.isStore = false) {x : RVal} {m : Machine}
    (h : i.exec ext fr = some (x, m)) :
    m = fr.m ∨ ∃ f sig args xs, i = .call f sig args ∧ ext f xs fr.m = some (x, m) := by
  cases i with
  | store v p al => cases hi
  | call f sig args =>
      obtain ⟨xs, -, hx⟩ := Option.bind_eq_some_iff.1 h
      exact .inr ⟨f, sig, args, xs, rfl, hx⟩
  | load p al =>
      obtain ⟨q, -, hx⟩ := Option.bind_eq_some_iff.1 h
      obtain ⟨y, -, hy⟩ := Option.map_eq_some_iff.1 hx
      cases hy
      exact .inl rfl
  | phi t inc =>
      obtain ⟨y, -, hy⟩ := Option.map_eq_some_iff.1 h
      cases hy
      exact .inl rfl
  | fence =>
      cases h
      exact .inl rfl
  | _ =>
      obtain ⟨y, -, hy⟩ := Option.map_eq_some_iff.1 h
      cases hy
      exact .inl rfl

/-- One call of the builder. What is known of an instruction that is not folded is
left to `hq`. -/
theorem runs_create {i : Inst} {P : Assertion} {Q : Value → Assertion}
    (hs : ∀ v, i.simplify? = some v → ∀ σ fr, P σ fr → Q v σ fr)
    (hq : ∀ σ σ' fr fr' v x, Later σ σ' → fr.Keeps fr' σ.nextId → P σ fr →
      i.exec ext fr = some (x, fr'.m) → fr'.Has σ'.nextId v x → v.ty = i.ty → Q v σ' fr') :
    Runs false ext P (code (create i)) Q R := by
  cases hi : i.simplify? with
  | none => exact runs_inst hi (fun h => by cases h) hq
  | some v =>
      intro σ w σ' G fr hm hok _ _ hat hp
      have hm : (Except.ok ((σ.toBuilder.create i).1, { σ with toBuilder := (σ.toBuilder.create i).2 }) :
          Except EmitError _) = .ok (w, σ') := hm
      rw [Builder.create_of_some hi] at hm
      cases hm
      exact .inl ⟨fr, .refl, hat, .refl _ _, hs v hi σ fr hp⟩

theorem runs_create_quiet (hext : gen.Spares ext) {i : Inst} (hi : i.isStore = false) :
    Runs false ext (Marked gen b) (code (create i)) (fun _ => Marked gen b) R := by
  refine runs_create (fun _ _ _ _ h => h) fun σ σ' fr fr' v x hl hk h hx _ _ => h.moved hl hk ?_
  rcases exec_machine hi hx with hm | ⟨f, sig, args, xs, -, hm⟩
  · rw [hm]
  · exact hext f xs fr.m x fr'.m hm

theorem runs_code_noStore (hext : gen.Spares ext) {c : Code EmitError α} (hc : c.NoStore) :
    Runs false ext (Marked gen b) (code c) (fun _ => Marked gen b) R := by
  induction c with
  | ret a => exact runs_pure (Q := fun _ => Marked gen b) a
  | ins i k ih =>
      have hbind : code (ins i k) = code (create i) >>= fun v => code (k v) :=
        code_bind (create i) k
      rw [hbind]
      exact (runs_create_quiet hext hc.1).bind fun v => ih v (hc.2 v)
  | fail e => exact fun _ _ _ _ _ hm => by cases hm

theorem runs_quiet (hext : gen.Spares ext) (c : Code EmitError α) [h : Quiet c] :
    Runs false ext (Marked gen b) (code c) (fun _ => Marked gen b) R :=
  runs_code_noStore hext h.noStore

/-! ## Reading -/

theorem Got.marked {r : RVal} (h : Got ρ L M t r v σ fr) (hb : gen.exitByte M = b) :
    Marked gen b σ fr :=
  h.2.marked hb

theorem runs_llvmTy_bind {P : Assertion} {Q : α → Assertion} {ty : IRType} {f : Ty → EmitM α}
    (h : ∀ t, vexTy2LLVM ty = some t → Runs total ext P (f t) Q R) :
    Runs total ext P (llvmTy ty >>= f) Q R := by
  cases ht : vexTy2LLVM ty with
  | none =>
      have he : llvmTy ty = throw .nullType := by
        unfold llvmTy
        rw [ht]
      rw [he]
      exact fun _ _ _ _ _ hm => by cases hm
  | some t =>
      rw [llvmTy_of_some ht, pure_bind]
      exact h t ht

theorem runs_getCtxTyGEP_marked (hext : gen.Spares ext) (off : Value) (t : Ty) :
    Runs false ext (Marked gen b) (gen.getCtxTyGEP off t) (fun _ => Marked gen b) R := by
  unfold GenLLVM.getCtxTyGEP
  exact (runs_marked fun M hM => (runs_getCtxPtr gen t).post fun _ _ _ h => h.marked hM).bind
    fun p => runs_quiet hext _

theorem runs_readCtx_marked (hext : gen.Spares ext) (off : ℕ) (ty : IRType) :
    Runs false ext (Marked gen b) (gen.readCtx off ty) (fun _ => Marked gen b) R := by
  unfold GenLLVM.readCtx
  refine runs_llvmTy_bind fun t _ => ?_
  exact (runs_marked fun M hM => (runs_getCtxByteGEP gen off t).post
    fun _ _ _ h => h.marked hM).bind
    fun p => runs_quiet hext _

theorem runs_getCtxElem_marked (hext : gen.Spares ext) (off : ℕ) (bias : ℤ) (len : ℕ) (ix : Value)
    (t : Ty) :
    Runs false ext (Marked gen b) (gen.getCtxElem off bias len ix t) (fun _ => Marked gen b) R := by
  unfold GenLLVM.getCtxElem
  split
  · exact fun _ _ _ _ _ hm => by cases hm
  · exact (runs_quiet hext _).bind fun o => runs_getCtxTyGEP_marked hext o t

instance quiet_hostAddr (a : Value) : Quiet (gen.hostAddr a) := by
  unfold GenLLVM.hostAddr
  infer_instance

instance quiet_hostPtr (a : Value) (t : Ty) : Quiet (gen.hostPtr a t) := by
  unfold GenLLVM.hostPtr
  infer_instance

theorem runs_load_marked (hext : gen.Spares ext) (a : Value) (t : Ty) :
    Runs false ext (Marked gen b) (gen.load a t) (fun _ => Marked gen b) R := by
  unfold GenLLVM.load
  refine @runs_quiet _ _ _ _ _ hext _ (@quiet_bind _ _ _ _ _ inferInstance fun a => ?_)
  split <;> infer_instance

instance quiet_emitConst (con : IRConst) : Quiet (VexExpr.emitConst con) := by
  cases con <;> unfold VexExpr.emitConst <;> infer_instance

instance quiet_flattenType (v : Value) : Quiet (VexExpr.flattenType v) := by
  unfold VexExpr.flattenType
  split <;> infer_instance

instance quiet_muxCond (c : Value) : Quiet (VexExpr.muxCond c) := by
  unfold VexExpr.muxCond
  infer_instance

theorem runs_emitAll {P : Assertion} {ms : List (EmitM α)} (hb : ∀ m ∈ ms, Builds m)
    (h : ∀ m ∈ ms, Runs total ext P m (fun _ => P) R) :
    Runs total ext P (emitAll ms) (fun _ => P) R := by
  induction ms with
  | nil => exact runs_pure (Q := fun _ => P) []
  | cons m ms ih =>
      have hm : Builds m := hb m List.mem_cons_self
      have hms := fun m' hm' => hb m' (List.mem_cons_of_mem m hm')
      have hall : Builds (emitAll ms) := builds_emitAll hms
      refine (h m List.mem_cons_self).bind fun a => ?_
      refine (ih hms fun m' hm' => h m' (List.mem_cons_of_mem m hm')).bind fun as => ?_
      exact runs_pure (Q := fun _ => P) (a :: as)

/-- Evaluating an expression leaves the exit type alone. -/
theorem runs_expr_marked (hext : gen.Spares ext) (e : VexExpr) :
    Runs false ext (Marked gen b) (e.emit gen) (fun _ => Marked gen b) R := by
  have hargs : ∀ {n : ℕ} {args : Fin n → VexExpr},
      (∀ i, Runs false ext (Marked gen b) ((args i).emit gen) (fun _ => Marked gen b) R) →
        Runs false ext (Marked gen b) (emitAll (List.ofFn fun i => (args i).emit gen))
          (fun _ => Marked gen b) R := fun {n args} ih =>
    runs_emitAll (fun m hm => by
      obtain ⟨i, rfl⟩ := List.mem_ofFn.1 hm
      infer_instance) fun m hm => by
      obtain ⟨i, rfl⟩ := List.mem_ofFn.1 hm
      exact ih i
  have hball : ∀ {n : ℕ} {args : Fin n → VexExpr},
    Builds (emitAll (List.ofFn fun i => (args i).emit gen)) :=
    builds_emitAll fun m hm => by
      obtain ⟨i, rfl⟩ := List.mem_ofFn.1 hm
      infer_instance
  induction e with
  | null => exact runs_throw _
  | stub n args ih => exact runs_throw _
  | abort e => exact runs_throw _
  | get offset ty => exact runs_readCtx_marked hext offset ty
  | getI base len elemType ix bias ih =>
      unfold VexExpr.emit
      refine ih.bind fun i => runs_llvmTy_bind fun t _ => ?_
      unfold GenLLVM.readCtxI
      exact (runs_getCtxElem_marked hext base bias len i t).bind fun p => runs_quiet hext _
  | rdTmp tmp =>
      exact runs_getRegValue tmp (fun _ _ _ _ h => h) fun _ => lasting_marked gen b
  | nary op args ih =>
      unfold VexExpr.emit
      have := @hball _ args
      exact (hargs ih).bind fun vs => runs_quiet hext _
  | load ty addr ih =>
      unfold VexExpr.emit
      refine ih.bind fun a => ?_
      unfold GenLLVM.loadVex
      exact runs_llvmTy_bind fun t _ => runs_load_marked hext a t
  | const con => exact runs_quiet hext _
  | ccall f sig n args ih =>
      unfold VexExpr.emit
      have := @hball _ args
      exact (hargs ih).bind fun vs => runs_quiet hext _
  | gsptr => exact runs_pure (Q := fun _ => Marked gen b) gen.curGuestCtx
  | mux0X cond expr0 exprX ihc ih0 ihX =>
      have hm := lasting_marked gen b
      have hflat : ∀ e : VexExpr, Runs false ext (Marked gen b) (e.emit gen)
        (fun _ => Marked gen b) R →
          Runs false ext (Marked gen b) (do let v ← e.emit gen; code (VexExpr.flattenType v))
            (fun _ => Marked gen b) R := fun e he => he.bind fun v => runs_quiet hext _
      unfold VexExpr.emit
      refine (runs_ifThenElse (b := true) hm hm hm hm (fun _ => hm) (fun _ => hm)
        (ihc.bind fun c => runs_quiet hext _) (fun h => by cases h) (fun _ _ _ _ h _ _ => h)
        (fun _ _ _ h _ => h) (fun _ _ _ h => h) (hflat exprX ihX) (hflat expr0 ih0)
        (hands_true _ _) (hands_true _ _)).bind fun r => ?_
      exact (runs_quiet hext _).pre fun σ fr h => h.2.elim And.right And.right

/-! ## Writing below the exit type -/

theorem exitByte_setCtx (hoff : gen.exitTypeOffset < 2 ^ 31) {k n : ℕ}
    (hle : k * n + n ≤ gen.exitTypeOffset) (y : ℕ) :
    gen.exitByte (M.setCtx ((BitVec.ofNat 32 k).signExtend 64 * BitVec.ofNat 64 n) n y) =
      gen.exitByte M := by
  refine writeBytes_of_le ?_
  rcases Nat.eq_zero_or_pos n with rfl | hn
  · exact Nat.zero_le _
  · have hk : k < 2 ^ 31 := by
      have := Nat.le_mul_of_pos_right k hn
      omega
    rw [elemAddr_eq hk, BitVec.toNat_sub, BitVec.toNat_ofNat, BitVec.toNat_ofNat]
    omega

/-- A store through a pointer to some place in the context. -/
theorem runs_ctxStore {o : BitVec 64} {al : ℕ} (hp : (p, .ctxPtr o) ∈ L)
    (hfar : ∀ y, gen.exitByte (M.setCtx o d.ty.bytes y) = gen.exitByte M)
    (hb : gen.exitByte M = b) :
    Runs false ext (Stands ρ L M) (code (create (.store d p al))) (fun _ => Marked gen b) R := by
  refine runs_create (fun v hs => ?_) fun σ σ' fr fr' v x hl hk h hx _ _ => ?_
  · simp [Inst.simplify?, Inst.sameTypeCast?, Inst.constFold?, Inst.eval] at hs
  · rw [Inst.exec, (h.vals _ _ hp).2, Option.bind_some] at hx
    obtain ⟨y, hy, hx⟩ := Option.bind_eq_some_iff.1 hx
    obtain ⟨m, hm, hx⟩ := Option.map_eq_some_iff.1 hx
    obtain ⟨-, rfl⟩ := Prod.mk.inj hx
    refine (h.moved hl hk).marked ?_
    cases y with
    | bits y =>
        rw [← Option.some.inj hm, h.mach]
        exact (hfar y).trans hb
    | _ => cases hm

theorem runs_throw' {P : Assertion} {Q : α → Assertion} (e : EmitError) (f : β → EmitM α) :
    Runs total ext P ((throw e : EmitM β) >>= f) Q R := fun _ _ _ _ _ hm => by cases hm

theorem runs_writeCtx_marked (hoff : gen.exitTypeOffset < 2 ^ 31) {off : ℕ}
    (hle : off + v.ty.bytes ≤ gen.exitTypeOffset) :
    Runs false ext (Marked gen b) (gen.writeCtx off v) (fun _ => Marked gen b) R := by
  unfold GenLLVM.writeCtx
  refine runs_marked fun M hM => (runs_getCtxByteGEP gen off v.ty).got fun p _ => ?_
  refine (runs_ctxStore (List.mem_cons_self ..) (exitByte_setCtx hoff ?_) hM).bind fun _ =>
    runs_done
  have := Nat.div_mul_le_self off v.ty.bytes
  omega

/-- An instruction that is no store and no call. -/
theorem runs_create_stands {i : Inst} (hi : i.isStore = false)
    (hc : ∀ f sig args, i ≠ .call f sig args) :
    Runs false ext (Stands ρ L M) (code (create i))
      (fun v σ fr => v.ty = i.ty ∧ Stands ρ L M σ fr) R := by
  refine runs_create (fun v hs σ fr h => ⟨(Inst.simplify?_spec hs).2.1, h⟩)
    fun σ σ' fr fr' v x hl hk h hx _ hty => ⟨hty, ?_⟩
  rcases exec_machine hi hx with hm | ⟨f, sig, args, xs, he, -⟩
  · exact kept_stands ρ L M σ σ' fr fr' hl hk hm h
  · exact absurd he (hc f sig args)

theorem eval_urem {ev : Value → Option RVal} (hty : a.ty = .int 32) {len : ℕ} (hlen : 0 < len)
    (hlen' : len < 2 ^ 32) (hev : ev (constInt 32 len) = some (.bits (len % 2 ^ 32))) :
    (Inst.bin .urem a (constInt 32 len)).eval ev =
      (ev a).bind fun r => r.bits?.map fun x => .bits ((BitVec.ofNat 32 x).toNat % len) := by
  cases hx : ev a with
  | none => simp [Inst.eval, hx]
  | some r =>
      cases r with
      | bits x =>
          rw [Option.bind_some, Inst.eval, hx, hev]
          dsimp only
          rw [hty, Inst.evalBin, urem_eval hlen hlen', RVal.bits?]
          rfl
      | _ => simp [Inst.eval, hx, RVal.bits?]

/-- The remainder by the number of elements, of whatever there is. -/
theorem runs_urem_lt (hty : a.ty = .int 32) {len : ℕ} (hlen : 0 < len) (hlen' : len < 2 ^ 32) :
    Runs false ext (Stands ρ L M) (code (createBin .urem a (constInt 32 len)))
      (fun v σ fr => v.ty = .int 32 ∧ ∃ j < len, Stands ρ ((v, .bits j) :: L) M σ fr) R := by
  have hlt : ∀ {ev : Value → Option RVal} {x : RVal},
      ev (constInt 32 len) = some (.bits (len % 2 ^ 32)) →
        (Inst.bin .urem a (constInt 32 len)).eval ev = some x → ∃ j < len, x = .bits j := by
    intro ev x hev hx
    rw [eval_urem hty hlen hlen' hev] at hx
    obtain ⟨r, -, hx⟩ := Option.bind_eq_some_iff.1 hx
    obtain ⟨y, -, rfl⟩ := Option.map_eq_some_iff.1 hx
    exact ⟨_, Nat.mod_lt _ hlen, rfl⟩
  refine runs_create (fun v hs σ fr h => ?_) fun σ σ' fr fr' v x hl hk h hx hv ht => ?_
  · have hs : (Inst.bin .urem a (constInt 32 len)).constFold? = some v := hs
    obtain ⟨-, -, n, hn, rfl⟩ := Inst.constFold?_eq_some hs
    obtain ⟨j, hj, hx⟩ := hlt rfl hn
    cases hx
    exact ⟨hty, n, hj, h.cons (.of_isConst rfl rfl)⟩
  · obtain ⟨y, hy, he⟩ := Option.map_eq_some_iff.1 hx
    obtain ⟨rfl, hm⟩ := Prod.mk.inj he
    have hs := kept_stands ρ L M σ σ' fr fr' hl hk hm.symm h
    cases hev : (Inst.bin .urem a (constInt 32 len)).eval fr.eval with
    | some z =>
        rw [hev, Option.some_or] at hy
        cases hy
        obtain ⟨j, hj, rfl⟩ := hlt rfl hev
        exact ⟨ht.trans hty, j, hj, hs.cons hv⟩
    | none =>
        -- the host is not asked where there is a number to divide
        rw [hev, Option.none_or] at hy
        rw [eval_urem hty hlen hlen' rfl] at hev
        obtain ⟨q, hq, hy⟩ := Option.bind_eq_some_iff.1 hy
        cases hq
        obtain ⟨xs, hxs, -⟩ := Option.bind_eq_some_iff.1 hy
        rw [List.mapM_cons] at hxs
        obtain ⟨x, hx, -⟩ := Option.bind_eq_some_iff.1 hxs
        obtain ⟨r, hr, hx⟩ := Option.bind_eq_some_iff.1 hx
        rw [hr, Option.bind_some, hx] at hev
        cases hev

/-- The element of an indexed access is one of those there are. -/
theorem runs_getCtxElem_lt {off len : ℕ} (bias : ℤ) (ix : Value) (hlen : 0 < len)
    (hle : off + len * t.bytes < 2 ^ 31) :
    Runs false ext (Stands ρ L M) (gen.getCtxElem off bias len ix t) (fun q σ fr =>
      ∃ j < len, Stands ρ ((q, .ctxPtr ((BitVec.ofNat 32 (j + off / t.bytes)).signExtend 64 *
        BitVec.ofNat 64 t.bytes)) :: L) M σ fr) R := by
  unfold GenLLVM.getCtxElem
  split
  · exact runs_throw' _ _
  · next ht =>
      rw [not_or] at ht
      have hpos : 0 < t.bytes := Nat.pos_of_ne_zero ht.1
      have hlen' : len < 2 ^ 31 := by
        have := Nat.le_mul_of_pos_right len hpos
        omega
      have hcode : Runs false ext (Stands ρ L M) (code (do
          let ix ← createBitCast ix (.int 32)
          let offset ← createBin .add ix (constInt 32 (BitVec.ofInt 32 bias).toNat)
          let offset ← createBin .urem offset (constInt 32 len)
          createBin .add offset (constInt 32 (off / t.bytes)))) (fun o σ fr => ∃ j < len,
            o.ty = .int 32 ∧ Stands ρ ((o, .bits (j + off / t.bytes)) :: L) M σ fr) R := by
        rw [code_bind]
        refine (runs_create_stands rfl fun _ _ _ h => by cases h).bind fun i =>
          runs_of_and fun hi => ?_
        rw [code_bind]
        refine (runs_create_stands rfl fun _ _ _ h => by cases h).bind fun s =>
          runs_of_and fun hs => ?_
        rw [code_bind]
        refine (runs_urem_lt (hs.trans hi) hlen (by omega)).bind fun e => runs_of_and fun he => ?_
        refine runs_exists fun j => runs_of_and fun hj => ?_
        have hlt : j + off / t.bytes < 2 ^ 32 := by
          have := Nat.div_le_self off t.bytes
          omega
        have hadd : BinOp.add.eval 32 j (off / t.bytes % 2 ^ 32) = some (j + off / t.bytes) := by
          rw [← Nat.mod_eq_of_lt hlt]
          simp [BinOp.eval]
        refine (runs_code_got fun ev hev => computes_bin (hev.num he (List.mem_cons_self ..))
          ⟨rfl, hev.consts _ _⟩ hadd).post fun o σ fr h => ?_
        exact ⟨j, hj, h.1, h.drop.2⟩
      refine hcode.bind fun o => runs_exists fun j => runs_of_and fun hj => runs_of_and fun ho => ?_
      refine (runs_getCtxTyGEP gen t fun ev hev => hev.num ho (List.mem_cons_self ..)).post
        fun q σ fr h => ?_
      exact ⟨j, hj, h.drop.2⟩

theorem runs_writeCtxI_marked (hoff : gen.exitTypeOffset < 2 ^ 31) {off len : ℕ} (bias : ℤ)
    (ix : Value) (hlen : 0 < len) (hle : off + len * v.ty.bytes ≤ gen.exitTypeOffset) :
    Runs false ext (Marked gen b) (gen.writeCtxI off bias len ix v) (fun _ => Marked gen b) R := by
  unfold GenLLVM.writeCtxI
  refine runs_marked fun M hM => (runs_getCtxElem_lt bias ix hlen (by omega)).bind fun p => ?_
  refine runs_exists fun j => runs_of_and fun hj => ?_
  refine (runs_ctxStore (List.mem_cons_self ..) (exitByte_setCtx hoff ?_) hM).bind fun _ =>
    runs_done
  calc (j + off / v.ty.bytes) * v.ty.bytes + v.ty.bytes
      = (j + 1) * v.ty.bytes + off / v.ty.bytes * v.ty.bytes := by ring
    _ ≤ len * v.ty.bytes + off :=
        Nat.add_le_add (Nat.mul_le_mul_right _ hj) (Nat.div_mul_le_self _ _)
    _ ≤ gen.exitTypeOffset := by omega

/-! ## Guest memory -/

theorem runs_create_typed {i : Inst} {P : Assertion} {Q : Value → Assertion}
    (h : Runs total ext P (code (create i)) Q R) :
    Runs total ext P (code (create i)) (fun v σ fr => v.ty = i.ty ∧ Q v σ fr) R := by
  intro σ v σ' G fr hm hok hG hl hat hp
  have hty : v.ty = i.ty := by
    have hm : (Except.ok ((σ.toBuilder.create i).1, { σ with toBuilder := (σ.toBuilder.create i).2 }) :
        Except EmitError _) = .ok (v, σ') := hm
    cases hm
    exact Builder.create_ty _ i
  refine (h σ v σ' G fr hm hok hG hl hat hp).imp_left ?_
  rintro ⟨fr', hr, hat', hk, hq⟩
  exact ⟨fr', hr, hat', hk, hty, hq⟩

def OffCtx (p : Value) (fr : Frame) : Prop := ∀ o, fr.eval p ≠ some (.ctxPtr o)

/-- A number as a pointer. -/
theorem runs_intToPtr_marked {w : ℕ} (ha : a.ty = .int w) (t : Ty) :
    Runs false ext (Marked gen b) (code (createCast .inttoptr a (.ptr t)))
      (fun p σ fr => OffCtx p fr ∧ Marked gen b σ fr) R := by
  have hne : (Inst.cast .inttoptr a (.ptr t)).sameTypeCast? = none := by
    simp [Inst.sameTypeCast?, ha]
  refine runs_create (fun v hs σ fr h => ⟨?_, h⟩) fun σ σ' fr fr' v x hl hk h hx hv _ => ?_
  · rw [Inst.simplify?, hne] at hs
    obtain ⟨-, -, n, -, rfl⟩ := Inst.constFold?_eq_some hs
    exact fun o ho => by cases ho
  · obtain ⟨y, hy, he⟩ := Option.map_eq_some_iff.1 hx
    obtain ⟨rfl, hm⟩ := Prod.mk.inj he
    refine ⟨fun o ho => ?_, h.moved hl hk (by rw [← hm])⟩
    cases hv.2.symm.trans ho
    rcases Option.or_eq_some_iff.1 hy with hy | ⟨-, hy⟩
    · obtain ⟨r, -, hr⟩ := Option.bind_eq_some_iff.1 hy
      cases r <;> cases hr
    · cases hy

theorem runs_hostPtr_marked (hext : gen.Spares ext) {w : ℕ} (ha : a.ty = .int w) (t : Ty) :
    Runs false ext (Marked gen b) (code (gen.hostPtr a t))
      (fun p σ fr => OffCtx p fr ∧ Marked gen b σ fr) R := by
  unfold GenLLVM.hostPtr
  split
  · rw [code_bind]
    refine (runs_create_typed (runs_create_quiet hext rfl)).bind fun s => runs_of_and fun hs => ?_
    exact runs_intToPtr_marked (hs.trans ha) t
  · exact runs_intToPtr_marked ha t

/-- A store that does not go to the context. -/
theorem runs_store_offCtx {al : ℕ} :
    Runs false ext (fun σ fr => OffCtx p fr ∧ Marked gen b σ fr) (code (create (.store d p al)))
      (fun _ => Marked gen b) R := by
  refine runs_create (fun v hs => ?_) fun σ σ' fr fr' v x hl hk h hx _ _ => ?_
  · simp [Inst.simplify?, Inst.sameTypeCast?, Inst.constFold?, Inst.eval] at hs
  · obtain ⟨q, hq, hx⟩ := Option.bind_eq_some_iff.1 hx
    obtain ⟨y, hy, hx⟩ := Option.bind_eq_some_iff.1 hx
    obtain ⟨m, hm, hx⟩ := Option.map_eq_some_iff.1 hx
    refine h.2.moved hl hk ?_
    rw [← (Prod.mk.inj hx).2]
    cases q with
    | ctxPtr o => exact absurd hq (h.1 o)
    | agg l => cases hm
    | bits n | logPtr =>
        cases y <;> cases hm
        rfl

theorem runs_recordStore_marked (hext : gen.Spares ext) (a d : Value) :
    Runs false ext (Marked gen b) (code (GenLLVM.recordStore GenLLVM.curMemoryLog a d))
      (fun _ => Marked gen b) R := by
  unfold GenLLVM.recordStore
  dsimp only
  iterate 6
    rw [code_bind]
    refine (runs_quiet hext _).bind fun _ => ?_
  rw [code_bind]
  refine (runs_quiet hext _).bind fun e => ?_
  rw [code_bind]
  refine Runs.bind (runs_store_offCtx.pre fun σ fr h => ⟨fun o ho => ?_, h⟩) fun _ => runs_done
  cases ho

/-- A store to guest memory, at an address that is a number. -/
theorem runs_store_marked (hext : gen.Spares ext) {w : ℕ} (ha : a.ty = .int w) (d : Value) :
    Runs false ext (Marked gen b) (gen.store a d) (fun _ => Marked gen b) R := by
  have hhost : Runs false ext (Marked gen b) (code (do
      let addrV ← gen.hostAddr a
      let p ← gen.hostPtr addrV d.ty
      let _ ← create (.store d p 8))) (fun _ => Marked gen b) R := by
    have hptr : ∀ {a : Value} {w : ℕ}, a.ty = .int w → Runs false ext (Marked gen b) (code (do
        let p ← gen.hostPtr a d.ty
        let _ ← create (.store d p 8))) (fun _ => Marked gen b) R := fun ha => by
      rw [code_bind]
      refine (runs_hostPtr_marked hext ha d.ty).bind fun p => ?_
      rw [code_bind]
      exact runs_store_offCtx.bind fun _ => runs_done
    unfold GenLLVM.hostAddr
    split
    · rw [code_bind]
      exact (runs_create_typed (runs_create_quiet hext rfl)).bind fun z => runs_of_and hptr
    · exact hptr ha
  unfold GenLLVM.store
  split
  · exact (runs_recordStore_marked hext a d).bind fun _ => hhost
  · exact hhost

/-! ## Setting the exit type -/

theorem exitByte_set (hoff : gen.exitTypeOffset < 2 ^ 31) (y : ℕ) :
    gen.exitByte (M.setCtx (ctxOff gen.exitTypeOffset 1) 1 y) = BitVec.ofNat 8 y := by
  have haddr : ctxOff gen.exitTypeOffset 1 = BitVec.ofNat 64 gen.exitTypeOffset := by
    rw [ctxOff, Nat.div_one, elemAddr_eq hoff, Nat.mul_one]
  rw [haddr, GenLLVM.exitByte, Machine.setCtx]
  simp [writeBytes]

theorem runs_setExitType (c : ℕ) :
    Runs total ext (Stands ρ L M) (gen.setExitType c)
      (fun _ => Stands ρ L (M.setCtx (ctxOff gen.exitTypeOffset 1) 1 (c % 2 ^ 8))) R := by
  unfold GenLLVM.setExitType
  have hbytes : (constInt 8 c).ty.bytes = 1 := by simp [Ty.bytes]
  have hwrite : Runs total ext (Stands ρ ((constInt 8 c, .bits (c % 2 ^ 8)) :: L) M)
      (gen.writeCtx gen.exitTypeOffset (constInt 8 c)) (fun _ => Stands ρ
        ((constInt 8 c, .bits (c % 2 ^ 8)) :: L) (M.setCtx (ctxOff gen.exitTypeOffset
          (constInt 8 c).ty.bytes) (constInt 8 c).ty.bytes (c % 2 ^ 8))) R :=
    runs_writeCtx gen gen.exitTypeOffset (List.mem_cons_self ..)
  rw [hbytes] at hwrite
  exact (hwrite.pre fun σ fr h => h.cons (.of_isConst rfl rfl)).post fun _ σ fr h => h.drop

theorem runs_setExitType_marked (hoff : gen.exitTypeOffset < 2 ^ 31) (c : ℕ) :
    Runs total ext (Marked gen b) (gen.setExitType c) (fun _ => Marked gen (BitVec.ofNat 8 c)) R :=
  runs_marked fun M _ => (runs_setExitType c).post fun _ σ fr h =>
    h.marked ((exitByte_set hoff _).trans (BitVec.eq_of_toNat_eq (by simp)))

end Marked

end VexLLVM
