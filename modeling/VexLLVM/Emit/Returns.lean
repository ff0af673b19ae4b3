import VexLLVM.Emit.Exits
import VexLLVM.Emit.Flow
import VexLLVM.Emit.Acceptance

/-!
# What a function returns

The function of a superblock is declared to return 64 bits. It has a return for each
of its exits: a side exit returns its destination as a constant of 64 bits, and the
jump at the end returns what the next expression came out as.
-/

namespace VexLLVM

open LLVM LLVM.Code Vex StateExcept VexStmt

def Returns (F : Func) (k : ℕ) (v : Value) : Prop := (F.blocks k).term = some (.ret v)

theorem returns_terminate {b : Builder} {t : Term} {k : ℕ} {v : Value}
    (h : Returns (b.terminate t).func k v) :
    k = b.insertBlock ∧ t = .ret v ∨ Returns b.func k v := by
  change ((b.terminate t).block k).term = _ at h
  rw [Builder.terminate_block] at h
  split at h
  · next hk => exact .inl ⟨hk, Option.some.inj h⟩
  · exact .inr h

theorem returns_createBlock {b : Builder} {k : ℕ} {v : Value}
    (h : Returns b.createBlock.2.func k v) :
    Returns b.func k v := by
  change (b.createBlock.2.block k).term = _ at h
  rw [Builder.createBlock_block] at h
  split at h
  · cases h
  · exact h

/-! ## Code without a return -/

class Stays {α : Type} (m : EmitM α) : Prop where
  returns : ∀ {σ σ' : GenState} {a : α}, m σ = .ok (a, σ') → ∀ k v, Returns σ'.func k v →
    Returns σ.func k v

section Stays

variable {α β : Type} {m m' : EmitM α} {f : α → EmitM β}

theorem stays_of_func (h : ∀ {σ σ' : GenState} {a : α}, m σ = .ok (a, σ') → σ'.func = σ.func) :
    Stays m :=
  ⟨fun hm _ _ hr => by rwa [h hm] at hr⟩

instance stays_pure (a : α) : Stays (pure a) := stays_of_func fun h => by cases h; rfl

instance stays_throw (e : EmitError) : Stays (throw e : EmitM α) := ⟨fun h => by cases h⟩

instance stays_bind [Stays m] [∀ a, Stays (f a)] : Stays (m >>= f) where
  returns h k v hr := by
    obtain ⟨a, σ₁, h₁, h₂⟩ := bind_eq_ok h
    exact Stays.returns h₁ k v (Stays.returns h₂ k v hr)

instance stays_ite {c : Prop} [Decidable c] [Stays m] [Stays m'] : Stays (if c then m else m') := by
  split <;> infer_instance

instance stays_get : Stays (get : EmitM GenState) := stays_of_func fun h => by cases h; rfl

theorem stays_modify {g : GenState → GenState} (hg : ∀ σ, (g σ).func = σ.func) :
    Stays (modify g : EmitM PUnit) :=
  stays_of_func fun {σ _ _} h => by cases h; exact hg σ

instance stays_code (c : Code EmitError α) : Stays (code c) where
  returns {σ σ' a} h k v hr := by
    obtain ⟨b, hrun, rfl⟩ := code_eq_ok h
    exact (run_term hrun k).symm.trans hr

instance stays_getInsertBlock : Stays getInsertBlock := stays_of_func fun h => by cases h; rfl

instance stays_llvmTy (t : IRType) : Stays (llvmTy t) := by
  unfold llvmTy
  split <;> infer_instance

instance stays_getRegValue (t : IRTemp) : Stays (getRegValue t) := stays_of_func fun {σ _ _} h => by
  unfold getRegValue at h
  cases hv : σ.values t <;> rw [hv] at h <;> cases h
  rfl

instance stays_setRegValue (t : IRTemp) (v : Value) : Stays (setRegValue t v) :=
  stays_of_func fun {σ _ _} h => by
    unfold setRegValue at h
    cases hv : σ.values t <;> rw [hv] at h <;> cases h
    rfl

instance stays_createBlock : Stays createBlock where
  returns h _ _ hr := by
    cases h
    exact returns_createBlock hr

instance stays_br (t n : ℕ) : Stays (endBlock (.br t) n) where
  returns h _ _ hr := by
    cases h
    exact (returns_terminate hr).resolve_left fun hk => by cases hk.2

instance stays_condBr (c : Value) (t f n : ℕ) : Stays (endBlock (.condBr c t f) n) where
  returns h _ _ hr := by
    cases h
    exact (returns_terminate hr).resolve_left fun hk => by cases hk.2

theorem stays_emitAll {ms : List (EmitM α)} (h : ∀ m ∈ ms, Stays m) : Stays (emitAll ms) := by
  induction ms with
  | nil => exact stays_pure []
  | cons m ms ih =>
      have := h m List.mem_cons_self
      have := ih fun m' hm' => h m' (List.mem_cons_of_mem m hm')
      unfold emitAll
      infer_instance

instance stays_ifThen {cond : EmitM Value} [Stays cond] [Stays m] : Stays (ifThen cond m) := by
  unfold ifThen
  infer_instance

instance stays_ifThenElse (b : Bool) {cond first second : EmitM Value} [Stays cond] [Stays first]
    [Stays second] : Stays (ifThenElse b cond first second) := by
  unfold ifThenElse
  infer_instance

variable (gen : GenLLVM) (types : List IRType)

instance stays_getCtxPtr (t : Ty) : Stays (gen.getCtxPtr t) := by
  unfold GenLLVM.getCtxPtr
  refine @stays_bind _ _ _ _ stays_get fun σ => @stays_ite _ _ _ _ _ (stays_code _) ?_
  split
  · exact stays_pure _
  · have := fun p => stays_modify (g := fun σ : GenState =>
      { σ with ctxcastMap := Function.update σ.ctxcastMap t (some p) }) fun _ => rfl
    infer_instance

instance stays_getCtxByteGEP (off : ℕ) (t : Ty) : Stays (gen.getCtxByteGEP off t) := by
  have hgep : ∀ v : Value, Stays (gen.getCtxTyGEP v t) := fun v => by
    unfold GenLLVM.getCtxTyGEP
    infer_instance
  unfold GenLLVM.getCtxByteGEP
  refine @stays_ite _ _ _ _ _ (stays_throw _) (@stays_bind _ _ _ _ stays_get fun σ => ?_)
  split
  · infer_instance
  · have := fun p => stays_modify (g := fun σ : GenState =>
      { σ with gepbyteMap := Function.update σ.gepbyteMap (off, t.bytes) (some p) }) fun _ => rfl
    infer_instance

instance stays_readCtx (off : ℕ) (ty : IRType) : Stays (gen.readCtx off ty) := by
  unfold GenLLVM.readCtx
  infer_instance

instance stays_writeCtx (off : ℕ) (v : Value) : Stays (gen.writeCtx off v) := by
  unfold GenLLVM.writeCtx
  infer_instance

instance stays_setExitType (n : ℕ) : Stays (gen.setExitType n) := by
  unfold GenLLVM.setExitType
  infer_instance

instance stays_getCtxElem (off : ℕ) (bias : ℤ) (len : ℕ) (ix : Value) (t : Ty) :
    Stays (gen.getCtxElem off bias len ix t) := by
  unfold GenLLVM.getCtxElem GenLLVM.getCtxTyGEP
  infer_instance

instance stays_readCtxI (off : ℕ) (bias : ℤ) (len : ℕ) (ix : Value) (t : Ty) :
    Stays (gen.readCtxI off bias len ix t) := by
  unfold GenLLVM.readCtxI
  infer_instance

instance stays_writeCtxI (off : ℕ) (bias : ℤ) (len : ℕ) (ix v : Value) :
    Stays (gen.writeCtxI off bias len ix v) := by
  unfold GenLLVM.writeCtxI
  infer_instance

instance stays_store (a d : Value) : Stays (gen.store a d) := by
  unfold GenLLVM.store
  infer_instance

instance stays_load (a : Value) (t : Ty) : Stays (gen.load a t) := by
  unfold GenLLVM.load
  infer_instance

instance stays_loadVex (a : Value) (ty : IRType) : Stays (gen.loadVex a ty) := by
  unfold GenLLVM.loadVex
  infer_instance

instance stays_expr (e : VexExpr) : Stays (e.emit gen) := by
  induction e with
  | nary op args ih =>
      unfold VexExpr.emit
      have : Stays (emitAll (List.ofFn fun i => (args i).emit gen)) := stays_emitAll fun m hm => by
        obtain ⟨i, rfl⟩ := List.mem_ofFn.1 hm
        exact ih i
      infer_instance
  | ccall f sig n args ih =>
      unfold VexExpr.emit
      have : Stays (emitAll (List.ofFn fun i => (args i).emit gen)) := stays_emitAll fun m hm => by
        obtain ⟨i, rfl⟩ := List.mem_ofFn.1 hm
        exact ih i
      infer_instance
  | _ =>
      unfold VexExpr.emit
      infer_instance

instance stays_regType (t : IRTemp) : Stays (regType types t) := by
  unfold regType
  infer_instance

instance stays_emitLLSC (result : IRTemp) (addr : VexExpr) (data : Option VexExpr) :
    Stays (emitLLSC gen types result addr data) := by
  cases data <;> unfold emitLLSC <;> infer_instance

instance stays_emitCASHi (a : Value) (t : Ty) (eh : VexExpr) : Stays (emitCASHi gen a t eh) := by
  unfold emitCASHi
  infer_instance

instance stays_emitCASSwap (oldHi : Option IRTemp) (oldLo : IRTemp) (new : VexExpr) (a e l : Value)
    (hi : Option (Value × Value × Value)) : Stays (emitCASSwap gen oldHi oldLo new a e l hi) := by
  cases hi <;> cases oldHi <;> unfold emitCASSwap <;> infer_instance

instance stays_emitCAS (oldHi : Option IRTemp) (oldLo : IRTemp) (addr : VexExpr)
    (expectedHi : Option VexExpr) (expected new : VexExpr) :
    Stays (emitCAS gen oldHi oldLo addr expectedHi expected new) := by
  cases expectedHi with
  | none =>
      rw [emitCAS_none]
      infer_instance
  | some eh =>
      rw [emitCAS_some]
      infer_instance

instance stays_emitDirtyCall (f : String) (sig : FnTy) (tmp : Option IRTemp) (args : List VexExpr) :
    Stays (emitDirtyCall gen types f sig tmp args) := by
  unfold emitDirtyCall
  have : Stays (emitAll (args.map fun e => e.emit gen)) := stays_emitAll fun m hm => by
    obtain ⟨e, -, rfl⟩ := List.mem_map.1 hm
    exact stays_expr gen e
  refine @stays_bind _ _ _ _ this fun vs => ?_
  cases tmp <;> split <;> infer_instance

instance stays_emitDirty (f : String) (sig : FnTy) (guard : VexExpr) (tmp : Option IRTemp)
    (args : List VexExpr) : Stays (emitDirty gen types f sig guard tmp args) := by
  unfold emitDirty
  infer_instance

instance stays_emitLoadG (cvt : IRLoadGOp) (dst : IRTemp) (addr alt guard : VexExpr) :
    Stays (emitLoadG gen cvt dst addr alt guard) := by
  unfold emitLoadG
  split <;> infer_instance

/-- No statement but an exit returns. -/
theorem stays_stmt {s : VexStmt} (hs : ∀ guard jk t dst, s ≠ .exit guard jk t dst) :
    Stays (s.emit gen types) := by
  cases s with
  | exit guard jk t dst => exact absurd rfl (hs guard jk t dst)
  | _ =>
      unfold VexStmt.emit
      infer_instance

end Stays

/-! ## The returns of a superblock -/

section SideExits

variable {gen : GenLLVM} {types : List IRType} {σ σ' : GenState}

def SideReturn (xs : List SBExit) (k : ℕ) (v : Value) : Prop :=
  ∃ x ∈ xs, x.blk = k ∧ ∃ dst, x.dst = some dst ∧ v = constInt 64 dst.toNat

theorem stmt_returns {stmt : VexStmt} (h : stmt.emit gen types σ = .ok ((), σ')) {k : ℕ} {v : Value}
    (hr : Returns σ'.func k v) : Returns σ.func k v ∨ SideReturn (stmt.exits σ) k v := by
  by_cases hs : ∃ guard jk t dst, stmt = .exit guard jk t dst
  · obtain ⟨guard, jk, t, dst, rfl⟩ := hs
    obtain ⟨c, σ₁, σ₂, hc, hb, rfl⟩ := emitExit_eq_ok h
    rcases returns_terminate hr with ⟨rfl, ht⟩ | hr
    · cases ht
      have hblk : σ₂.insertBlock = σ.func.nblocks := Straight.insertBlock hb
      exact .inr ⟨_, List.mem_singleton_self _, hblk.symm, dst, rfl, rfl⟩
    · have hr := Stays.returns hb k v hr
      have hr := (returns_terminate hr).resolve_left fun hk => by cases hk.2
      have hr := Stays.returns hc k v hr
      exact .inl (returns_createBlock (returns_createBlock hr))
  · have := stays_stmt gen types fun guard jk t dst he => hs ⟨guard, jk, t, dst, he⟩
    exact .inl (Stays.returns h k v hr)

theorem stmts_returns {ss : List VexStmt} (h : VexSB.emitStmts gen types ss σ = .ok ((), σ'))
    {k : ℕ} {v : Value} (hr : Returns σ'.func k v) :
    Returns σ.func k v ∨ SideReturn (VexSB.sideExits gen types ss σ) k v := by
  induction ss generalizing σ with
  | nil =>
      cases h
      exact .inl hr
  | cons stmt ss ih =>
      obtain ⟨_, σ₁, h₁, h₂⟩ := bind_eq_ok h
      have heq : VexSB.sideExits gen types (stmt :: ss) σ =
          stmt.exits σ ++ VexSB.sideExits gen types ss σ₁ := by
        rw [VexSB.sideExits, h₁]
      rw [heq]
      rcases ih h₂ with hr | ⟨x, hx, hr⟩
      · rcases stmt_returns h₁ hr with hr | ⟨x, hx, hr⟩
        · exact .inl hr
        · exact .inr ⟨x, List.mem_append_left _ hx, hr⟩
      · exact .inr ⟨x, List.mem_append_right _ hx, hr⟩

end SideExits

section Returns

variable {gen : GenLLVM} {sb : VexSB} {F : Func}

def VexSB.NextValue (gen : GenLLVM) (sb : VexSB) (w : Value) : Prop :=
  ∃ σ σ', emitStmts gen sb.types sb.stmts GenLLVM.beginBB = .ok ((), σ) ∧
    sb.jumpExpr.emit gen σ = .ok (w, σ')

/-- The number is the address the guest goes on at where it leaves by the exit: the
destination of a side exit, after a `sysenter` the end of the block and the backjump
of the trampoline, as wide as the addresses of the guest are, and at the end of another
block what the next expression comes to. -/
def VexSB.NextAt (gen : GenLLVM) (sb : VexSB) (x : SBExit) (fr : Frame) (n : ℕ) : Prop :=
  match x.dst with
  | some dst => n = dst.toNat
  | none =>
      if sb.jumpKind = .Sys_sysenter then
        ∃ a, endAddr? sb.stmts = some a ∧
          n = (a + if gen.linuxSysenter then 9 else 0).toNat % 2 ^ (if gen.is32Bit then 32 else 64)
      else ∃ w, sb.NextValue gen w ∧ fr.eval w = some (.bits n)

/-- Each return is of 64 bits, and of the next address for the exit it belongs to. -/
structure ReturnsNext (gen : GenLLVM) (sb : VexSB) (F : Func) : Prop where
  ty : ∀ k v, Returns F k v → v.ty = .int 64
  next : ∀ k v, Returns F k v → ∃ x, sb.exitAt gen k = some x ∧
    ∀ fr n, sb.NextAt gen x fr n ↔ fr.eval v = some (.bits n)

/-- The returns of the function: those of the side exits, and the one at the end. -/
theorem returns_cases (he : sb.emit gen = .ok F) :
    ∃ w k', sb.NextValue gen w ∧ Returns F k' w ∧ ∀ k v, Returns F k v →
      ∃ x, sb.exitAt gen k = some x ∧
        ((x.dst = none ∧ v = w) ∨ ∃ dst, x.dst = some dst ∧ v = constInt 64 dst.toNat) := by
  unfold VexSB.emit at he
  cases hm : sb.emitM gen GenLLVM.beginBB with
  | error e =>
      rw [hm] at he
      cases he
  | ok r =>
      rw [hm] at he
      cases he
      obtain ⟨F, σ⟩ := r
      obtain ⟨σ₁, w, σ₂, t, h₁, h₂, -, h₃, rfl⟩ := VexSB.emitM_eq_ok hm
      have hexits : sb.exits gen = VexSB.sideExits gen sb.types sb.stmts GenLLVM.beginBB ++
          [⟨σ.insertBlock, sb.jumpKind, none⟩] := by
        rw [VexSB.exits, hm]
      have hat : ∀ x ∈ sb.exits gen, sb.exitAt gen x.blk = some x := fun x hx =>
        find?_of_nodup (exits_nodup hm) hx
      have : Stays (VexSB.markJump gen t) := by
        cases t <;> rw [VexSB.markJump] <;> infer_instance
      refine ⟨w, σ.insertBlock, ⟨σ₁, σ₂, h₁, h₂⟩, ?_, fun k v hr => ?_⟩
      · change ((σ.toBuilder.terminate (.ret w)).block σ.insertBlock).term = _
        rw [Builder.terminate_block, if_pos rfl]
      · rcases returns_terminate hr with ⟨rfl, hv⟩ | hr
        · cases hv
          refine ⟨_, hat ⟨σ.insertBlock, sb.jumpKind, none⟩ ?_, .inl ⟨rfl, rfl⟩⟩
          rw [hexits]
          exact List.mem_append_right _ (List.mem_singleton_self _)
        · have hr := Stays.returns h₂ k v (Stays.returns h₃ k v hr)
          rcases stmts_returns h₁ hr with hr | ⟨x, hx, rfl, hd⟩
          · cases hr
          · refine ⟨x, hat x ?_, .inr hd⟩
            rw [hexits]
            exact List.mem_append_left _ hx

theorem nextValue_unique {w w' : Value} (h : sb.NextValue gen w) (h' : sb.NextValue gen w') :
    w = w' := by
  obtain ⟨σ, σ₁, hs, he⟩ := h
  obtain ⟨σ', σ₁', hs', he'⟩ := h'
  rw [hs] at hs'
  cases hs'
  rw [he] at he'
  cases he'
  rfl

def VexSB.nextTy (gen : GenLLVM) (sb : VexSB) : Ty :=
  sb.jumpExpr.llvmTy gen (after gen sb.types noValues sb.stmts)

theorem nextValue_ty {w : Value} (h : sb.NextValue gen w) : w.ty = sb.nextTy gen := by
  obtain ⟨σ, σ', hs, he⟩ := h
  have hspec := VexSB.emitStmts_spec hs
  have hexpr := @VexExpr.emission_expr gen (VexSB.after gen sb.types VexSB.noValues sb.stmts) false
    sb.jumpExpr σ hspec.ok hspec.table σ rfl
  exact VexExpr.ty_of_draft (hexpr.1 w σ' he).2.1

/-- But after a `sysenter`, what is returned is the next address. -/
theorem returns_next (he : sb.emit gen = .ok F) (hj : sb.jumpKind ≠ .Sys_sysenter) (k : ℕ)
    (v : Value) (hr : Returns F k v) :
    ∃ x, sb.exitAt gen k = some x ∧ ∀ fr n, sb.NextAt gen x fr n ↔ fr.eval v = some (.bits n) := by
  obtain ⟨w, -, hw, -, hall⟩ := returns_cases he
  obtain ⟨x, hx, ⟨hd, rfl⟩ | ⟨dst, hd, rfl⟩⟩ := hall k v hr
  · refine ⟨x, hx, fun fr n => ?_⟩
    rw [VexSB.NextAt, hd]
    dsimp only
    rw [if_neg hj]
    constructor
    · rintro ⟨w, hw', hv⟩
      rwa [nextValue_unique hw hw']
    · exact fun hv => ⟨v, hw, hv⟩
  · refine ⟨x, hx, fun fr n => ?_⟩
    rw [VexSB.NextAt, hd, Frame.eval_constInt, Nat.mod_eq_of_lt dst.isLt]
    simp [eq_comm]

/-- The returns are of 64 bits exactly if the next expression is. -/
theorem returns_ty_iff (he : sb.emit gen = .ok F) :
    (∀ k v, Returns F k v → v.ty = .int 64) ↔ sb.nextTy gen = .int 64 := by
  obtain ⟨w, k', hw, hk', hall⟩ := returns_cases he
  rw [← nextValue_ty hw]
  refine ⟨fun h => h k' w hk', fun h k v hr => ?_⟩
  obtain ⟨x, -, ⟨-, rfl⟩ | ⟨dst, -, rfl⟩⟩ := hall k v hr
  · exact h
  · rfl

/-- The target of a `sysenter` is a constant of 32 bits. -/
theorem nextTy_sysenter {a : BitVec 64} {irsb : IRSB}
    (he : (VexSB.ofIRSB gen a irsb).emit gen = .ok F)
    (hj : irsb.jumpkind = .Sys_sysenter) : (VexSB.ofIRSB gen a irsb).nextTy gen = .int 32 := by
  obtain ⟨w, -, ⟨σ, σ', -, hw⟩, -⟩ := returns_cases he
  rw [VexSB.nextTy]
  rw [VexSB.ofIRSB, hj, VexSB.loadJump] at hw ⊢
  split
  · next h0 =>
      rw [h0] at hw
      cases hw
  · rfl

/-- At the end of other blocks the jump goes to the next expression. -/
theorem jumpExpr_of_ne {a : BitVec 64} {irsb : IRSB}
    (he : (VexSB.ofIRSB gen a irsb).emit gen = .ok F) (hj : irsb.jumpkind ≠ .Sys_sysenter) :
    (VexSB.ofIRSB gen a irsb).jumpExpr = VexExpr.create gen irsb.next := by
  have hk : (VexSB.jumpExit irsb.jumpkind).isSome = true := by
    have hf := (VexSB.emit_ok_iff gen _).1 ⟨F, he⟩
    simp only [VexSB.fails, Bool.or_eq_false_iff] at hf
    cases h : VexSB.jumpExit irsb.jumpkind with
    | none =>
        rw [VexSB.ofIRSB, h] at hf
        cases hf.2.2
    | some t => rfl
  change VexSB.loadJump gen _ irsb.jumpkind _ = _
  unfold VexSB.loadJump
  split
  · next h => exact absurd h hj
  · rw [if_pos hk]

/-- What the translator accepts has a function that returns the next address in 64
bits exactly if it does not end with a `sysenter`, and its next expression comes out
as 64 bits. -/
theorem returnsNext_iff {a : BitVec 64} {irsb : IRSB} (hx : VexXlate.xlate gen a irsb = .ok (some sb))
    (he : sb.emit gen = .ok F) :
    ReturnsNext gen sb F ↔ irsb.jumpkind ≠ .Sys_sysenter ∧
      (VexExpr.create gen irsb.next).llvmTy gen
        (VexSB.after gen irsb.types VexSB.noValues (irsb.stmts.map (VexStmt.create gen))) = .int 64 := by
  cases VexXlate.xlate_eq_some hx
  have htys := returns_ty_iff he
  by_cases hj : irsb.jumpkind = .Sys_sysenter
  · refine iff_of_false (fun h => ?_) fun h => h.1 hj
    have hty := htys.1 h.ty
    rw [nextTy_sysenter he hj] at hty
    cases hty
  · have hnext : (VexSB.ofIRSB gen a irsb).jumpExpr = VexExpr.create gen irsb.next :=
      jumpExpr_of_ne he hj
    rw [VexSB.nextTy, hnext] at htys
    exact ⟨fun h => ⟨hj, htys.1 h.ty⟩, fun h => ⟨htys.2 h.2, returns_next he hj⟩⟩

def exitBlock (dst next : IRConst) : IRSB :=
  ⟨[], [.IMark 0x1000 2,
    .Exit (.Nary .Binop (.iop .CmpEQ8) ![.Get 24 .I8, .Const (.U8 0)]) dst .Boring], .Const next, .Boring⟩

theorem returnsNext_exitBlock :
    ∃ sb F, VexXlate.xlate plainGen 0x1000 (exitBlock (.U64 0x2000) (.U64 0x1002)) = .ok (some sb) ∧
      sb.emit plainGen = .ok F ∧ ReturnsNext plainGen sb F := by
  have hx : VexXlate.xlate plainGen 0x1000 (exitBlock (.U64 0x2000) (.U64 0x1002)) = .ok (some _) := rfl
  obtain ⟨F, he⟩ := (VexSB.emit_ok_iff plainGen
    (.ofIRSB plainGen 0x1000 (exitBlock (.U64 0x2000) (.U64 0x1002)))).2 (by decide +kernel)
  exact ⟨_, F, hx, he, (returnsNext_iff hx he).2 ⟨by decide, by decide +kernel⟩⟩

def plainGen32 : GenLLVM := { plainGen with is32Bit := true }

/-- In a block of a 32-bit guest the return at the end is of 32 bits. -/
theorem not_returnsNext_exitBlock :
    ∃ sb F, VexXlate.xlate plainGen32 0x1000 (exitBlock (.U32 0x2000) (.U32 0x1002)) = .ok (some sb) ∧
      sb.emit plainGen32 = .ok F ∧ ¬ ReturnsNext plainGen32 sb F := by
  obtain ⟨F, he⟩ := (VexSB.emit_ok_iff plainGen32
    (.ofIRSB plainGen32 0x1000 (exitBlock (.U32 0x2000) (.U32 0x1002)))).2 (by decide +kernel)
  exact ⟨_, F, rfl, he, fun h => absurd ((returns_ty_iff he).1 h.ty) (by decide +kernel)⟩

end Returns

end VexLLVM
