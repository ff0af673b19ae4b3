import VexLLVM.Emit.Emission
import VexLLVM.Emit.VexExpr

/-!
# The types of emitted expressions

For every expression, from what is recorded for the temporaries: a draft of the
value it is emitted as (the value itself where it is a constant, else a value of
its type), whether its emission fails, and whether the instructions it emits are
well formed. `emission_expr` says that the emission does what the draft says.
-/

namespace VexLLVM

open LLVM LLVM.Code Vex

/-- The draft of an operation's value: a constant where it folds to one, and else
a value of the type in the table. -/
def OpEmit.draft (helpers : Helpers) (e : OpEmit) (vs : List Value) : Value :=
  ((e.build helpers vs).draft.toOption.filter Value.isConst).getD
    (.inst 0 (e.resTy helpers (vs.map Value.ty)))

namespace VexExpr

variable (gen : GenLLVM) (ρ : IRTemp → Option Value)

def flatTy : Ty → Ty
  | .vec n s => if 64 < n * s.bits then .vec n s else .int (n * s.bits)
  | t => t

def constDraft (con : IRConst) : Value := (emitConst con).draft.toOption.getD (.undef .void)

def draft : VexExpr → Value
  | get _ ty => .inst 0 ((vexTy2LLVM ty).getD .void)
  | getI _ _ elemType _ _ => .inst 0 ((vexTy2LLVM elemType).getD .void)
  | rdTmp tmp => (ρ tmp).getD (.undef .void)
  | nary op args => (opEmit gen.fp op).draft gen.helpers (List.ofFn fun i => draft (args i))
  | load ty addr => gen.loadDraft (draft addr) ((vexTy2LLVM ty).getD .void)
  | const con => constDraft con
  | ccall _ sig _ _ => .inst 0 sig.ret
  | gsptr => gen.curGuestCtx.blur
  | mux0X _ expr0 _ => .inst 0 (flatTy (draft expr0).ty)
  | null | stub _ _ | abort _ => .undef .void

def llvmTy (e : VexExpr) : Ty := (e.draft gen ρ).ty

def llvmTys {n : ℕ} (args : Fin n → VexExpr) : List Ty := List.ofFn fun i => (args i).llvmTy gen ρ

def fails : VexExpr → Bool
  | null | stub _ _ | abort _ => true
  | get _ ty => (vexTy2LLVM ty).all fun t => t.bytes == 0
  | getI base _ elemType ix _ =>
      fails ix || (vexTy2LLVM elemType).all fun t => t.bytes == 0 || base % t.bytes != 0
  | rdTmp tmp => (ρ tmp).isNone
  | nary op args =>
      ((List.finRange op.tagop).any fun i => fails (args i)) ||
        (opEmit gen.fp op).fails gen.helpers (llvmTys gen ρ args)
  | load ty addr =>
      fails addr || (vexTy2LLVM ty).all fun t => gen.loadFails (addr.draft gen ρ) t
  | const con => (emitConst con).draft.toOption.isNone
  | ccall _ _ n args => (List.finRange n).any fun i => fails (args i)
  | gsptr => false
  | mux0X cond expr0 exprX => fails cond || fails exprX || fails expr0

/-- The phis of the expression are well formed, and for `all` its other
instructions too. -/
def legal (all : Bool) : VexExpr → Bool
  | getI _ _ _ ix _ =>
      legal all ix && (!all || castOk .bitcast (ix.llvmTy gen ρ) (.int 32))
  | nary op args =>
      ((List.finRange op.tagop).all fun i => legal all (args i)) &&
        (!all || (opEmit gen.fp op).accepts gen.helpers (llvmTys gen ρ args))
  | load ty addr =>
      legal all addr &&
        (!all || (vexTy2LLVM ty).all fun t => gen.loadFits (addr.draft gen ρ) t)
  | ccall _ sig n args =>
      ((List.finRange n).all fun i => legal all (args i)) &&
        (!all || sig.params == llvmTys gen ρ args)
  | mux0X cond expr0 exprX =>
      (legal all cond && (!all || cond.llvmTy gen ρ == .int (cond.llvmTy gen ρ).bits)) &&
        (legal all exprX && legal all expr0 &&
          flatTy (exprX.llvmTy gen ρ) == flatTy (expr0.llvmTy gen ρ))
  | _ => true

/-! ## The emission follows the draft -/

variable {gen ρ} {all : Bool}

theorem draft_eq {helpers : Helpers} {e : OpEmit} {vs : List Value} {v : Value} {t : Ty}
    (h : (e.build helpers vs).draft = .ok v.blur) (ht : v.ty = t)
    (hr : e.resTy helpers (vs.map Value.ty) = t) : v.blur = e.draft helpers vs := by
  unfold OpEmit.draft
  rw [h, hr, ← ht]
  cases hc : v.isConst with
  | true => simp [Except.toOption, Option.filter, hc]
  | false => simp [Except.toOption, Option.filter, Value.blur_of_not_isConst hc, Value.isConst]

theorem forall₂_map_blur (vs : List Value) : List.Forall₂ SameBlur vs (vs.map Value.blur) := by
  induction vs with
  | nil => exact .nil
  | cons v vs ih => exact .cons (Value.blur_blur v).symm ih

theorem map_ty_of_blur {vs ws : List Value} (h : vs.map Value.blur = ws) :
    ws.map Value.ty = vs.map Value.ty := by
  subst h
  simp [Function.comp_def]

theorem all_imp_iff {b : Bool} : (all = true → b = true) ↔ (!all || b) = true := by
  cases all <;> simp

/-- The operands of a node, in order. -/
theorem emission_args {n : ℕ} {args : Fin n → VexExpr}
    (h : ∀ i, Emission all ρ ((args i).emit gen) ((args i).fails gen ρ = true)
      (fun v => v.blur = (args i).draft gen ρ) ρ ((args i).legal gen ρ all = true)) :
    Emission all ρ (emitAll (List.ofFn fun i => (args i).emit gen))
      (((List.finRange n).any fun i => (args i).fails gen ρ) = true)
      (fun vs => vs.map Value.blur = List.ofFn fun i => (args i).draft gen ρ) ρ
      (((List.finRange n).all fun i => (args i).legal gen ρ all) = true) := by
  rw [List.ofFn_eq_map]
  refine (emission_emitAll (List.finRange n) fun i _ => h i).conseq ?_ (fun vs hvs => ?_) ?_
  · simp
  · rw [List.ofFn_eq_map]
    generalize List.finRange n = l at hvs ⊢
    induction hvs with
    | nil => rfl
    | cons hv _ ih => simp [hv, ih]
  · simp

theorem emission_nary (op : Iop) {args : Fin op.tagop → VexExpr} {vs : List Value}
    (hvs : vs.map Value.blur = List.ofFn fun i => (args i).draft gen ρ) :
    Emission all ρ (code ((opEmit gen.fp op).build gen.helpers vs))
      ((opEmit gen.fp op).fails gen.helpers (llvmTys gen ρ args) = true)
      (fun v => v.blur = (nary op args).draft gen ρ) ρ
      ((!all || (opEmit gen.fp op).accepts gen.helpers (llvmTys gen ρ args)) = true) := by
  have htys : llvmTys gen ρ args = vs.map Value.ty := by
    rw [← map_ty_of_blur hvs, List.map_ofFn]
    rfl
  have hlen : vs.length = op.tagop := by simpa using congrArg List.length hvs
  rw [draft, htys, ← hvs]
  rcases opEmit_arity gen.fp op with hu | ha
  · rw [hu]
    exact Emission.congr (emission_code_fail .unimpl) (iff_of_true trivial rfl) Iff.rfl
  · have hlen := hlen.trans ha.symm
    refine (emission_code (OpEmit.build_gives (fun _ _ => trivial) _ (opEmit_good gen.fp op) hlen
      (fun _ _ => trivial) id) (OpEmit.build_quits _ hlen)).conseq Iff.rfl (fun v hv => ?_)
        all_imp_iff
    exact draft_eq (hv.2 _ (OpEmit.build_alike _ _ hlen (forall₂_map_blur vs)))
      hv.1 (by rw [map_ty_of_blur rfl])

theorem emission_const (con : IRConst) :
    Emission all ρ (code (emitConst con)) ((emitConst con).draft.toOption.isNone = true)
      (fun v => v.blur = constDraft con) ρ True := by
  have hcast : ∀ (v : Value) (t : Ty), castOk .bitcast v.ty t = true → ∀ c : OpCode,
      c = createBitCast v t → Emission all ρ (code c) (c.draft.toOption.isNone = true)
        (fun w => w.blur = c.draft.toOption.getD (.undef .void)) ρ True := by
    rintro v t hok _ rfl
    have hd : (createBitCast v t : OpCode).draft = .ok (Inst.cast .bitcast v t).result :=
      congrArg Except.ok (Builder.empty.create_blur _)
    refine (emission_create (.cast .bitcast v t)).conseq ?_ (fun w hw => ?_) ?_
    · simp [hd, Except.toOption]
    · simp [hd, Except.toOption, hw.1]
    · exact iff_true_intro ((createLegal_iff rfl).2 fun _ => by rw [Inst.createOk_cast, hok])
  cases con with
  | V128 mask => exact hcast _ _ rfl _ rfl
  | V256 mask => exact hcast _ _ rfl _ rfl
  | F32 v => exact Emission.congr (emission_code_fail _) (iff_of_true trivial rfl) Iff.rfl
  | F32i v => exact Emission.congr (emission_code_fail _) (iff_of_true trivial rfl) Iff.rfl
  | _ => exact Emission.congr (emission_code_ret rfl) (iff_of_false id Bool.false_ne_true) Iff.rfl

theorem emission_flattenType {v : Value} {t : Ty} (hv : v.ty = t) :
    Emission all ρ (code (flattenType v)) False (fun w => w.ty = flatTy t) ρ True := by
  unfold flattenType
  rw [hv]
  cases t with
  | vec n s =>
      dsimp only [flatTy]
      split
      · exact emission_code_ret hv
      · exact emission_code_legal (gives_bitCast _ trivial hv) (castOk_bitcast_int n _ s rfl)
  | _ => exact emission_code_ret hv

theorem phi_createLegal (t : Ty) (inc : List (Value × ℕ)) :
    (Inst.phi t inc).createLegal all = inc.all fun p => p.1.ty == t := by
  cases all <;> rfl

theorem ty_of_draft {e : VexExpr} {v : Value} (h : v.blur = e.draft gen ρ) :
    v.ty = e.llvmTy gen ρ := by
  rw [llvmTy, ← h, Value.ty_blur]

/-- What the emission of an expression does. -/
theorem emission_expr (e : VexExpr) :
    Emission all ρ (e.emit gen) (e.fails gen ρ = true) (fun v => v.blur = e.draft gen ρ) ρ
      (e.legal gen ρ all = true) := by
  induction e with
  | null => exact (emission_throw _).congr (iff_of_true trivial rfl) Iff.rfl
  | stub n args ih => exact (emission_throw _).congr (iff_of_true trivial rfl) Iff.rfl
  | abort e => exact (emission_throw _).congr (iff_of_true trivial rfl) Iff.rfl
  | get offset ty =>
      refine (gen.emission_readCtx offset ty).congr ?_ (iff_of_true trivial rfl)
      simp [fails, Option.all_eq_true]
  | getI base len elemType ix bias ih =>
      have hread : ∀ i : Value, i.blur = ix.draft gen ρ → Emission all ρ
          (do let t ← VexLLVM.llvmTy elemType; gen.readCtxI base bias len i t)
          (∀ t, vexTy2LLVM elemType = some t → t.bytes = 0 ∨ base % t.bytes ≠ 0)
          (fun v => v.blur = (getI base len elemType ix bias).draft gen ρ) ρ
          ((!all || castOk .bitcast (ix.llvmTy gen ρ) (.int 32)) = true) := fun i hi => by
        refine (emission_llvmTy_bind (F := fun t => t.bytes = 0 ∨ base % t.bytes ≠ 0)
          (p := fun _ => all = true → castOk .bitcast i.ty (.int 32) = true) fun t ht =>
            (gen.emission_readCtxI base bias len i t).post fun v hv => ?_).congr_of_ok fun hF => ?_
        · rw [hv, draft, ht]
          rfl
        · cases ht : vexTy2LLVM elemType with
          | none => exact absurd (fun t h => by simp [ht] at h) hF
          | some t =>
              rw [← all_imp_iff, llvmTy, ← hi, Value.ty_blur]
              simp
      refine (ih.bind hread).congr ?_ ?_
      · simp [fails, Option.all_eq_true]
      · simp [legal]
  | rdTmp tmp =>
      refine (emission_getRegValue tmp).conseq ?_ (fun v hv => ?_) (iff_of_true trivial rfl)
      · simp [fails]
      · simp [draft, hv]
  | nary op args ih =>
      refine ((emission_args ih).bind fun vs hvs => emission_nary op hvs).congr ?_ ?_
      · simp [fails]
      · simp [legal]
  | load ty addr ih =>
      refine (ih.bind_to (∀ t, vexTy2LLVM ty = some t → gen.loadFails (addr.draft gen ρ) t = true)
        _ (∀ t, vexTy2LLVM ty = some t → all = true → gen.loadFits (addr.draft gen ρ) t = true)
          fun a ha => ?_).congr ?_ ?_
      · rw [← ha]
        refine (gen.emission_loadVex a ty).post fun v hv => ?_
        rw [hv, draft, ha]
      · simp [fails, Option.all_eq_true]
      · cases all <;> simp [legal, Option.all_eq_true]
  | const con => exact (emission_const con).congr Iff.rfl (iff_of_true trivial rfl)
  | ccall f sig n args ih =>
      refine ((emission_args ih).bind_to False
        (fun v : Value => v.blur = (ccall f sig n args).draft gen ρ)
        ((!all || sig.params == llvmTys gen ρ args) = true) fun vs hvs => ?_).congr
          (by simp [fails]) (by simp [legal])
      refine (emission_create (.call f sig vs)).conseq Iff.rfl (fun v hv => ?_) ?_
      · rw [hv.1, draft]
        exact Inst.result_of_not_simplify (by
          simp [Inst.simplify?, Inst.sameTypeCast?, Inst.constFold?, Inst.eval])
      · have htys : llvmTys gen ρ args = vs.map Value.ty := by
          rw [← map_ty_of_blur hvs, List.map_ofFn]
          rfl
        rw [createLegal_iff rfl, htys, ← all_imp_iff]
        simp [Inst.createOk, Inst.sameTypeCast?, Inst.WF]
  | gsptr =>
      refine Emission.congr (emission_pure ?_) (iff_of_false id Bool.false_ne_true)
        (iff_of_true trivial rfl)
      rfl
  | mux0X cond expr0 exprX ihc ih0 ihX =>
      have harm : ∀ e : VexExpr, Emission all ρ (e.emit gen) (e.fails gen ρ = true)
          (fun v => v.blur = e.draft gen ρ) ρ (e.legal gen ρ all = true) →
          Emission all ρ (do let v ← e.emit gen; code (flattenType v)) (e.fails gen ρ = true)
            (fun v => v.ty = flatTy (e.llvmTy gen ρ)) ρ (e.legal gen ρ all = true) :=
        fun e he => (he.bind fun v hv => emission_flattenType (ty_of_draft hv)).congr (by simp)
          (by simp)
      have hcond : Emission all ρ (do let cmp ← cond.emit gen; code (muxCond cmp))
          (cond.fails gen ρ = true) (fun _ => True) ρ
          ((cond.legal gen ρ all &&
            (!all || cond.llvmTy gen ρ == .int (cond.llvmTy gen ρ).bits)) = true) := by
        refine (ihc.bind_to False (fun _ : Value => True)
          ((!all || cond.llvmTy gen ρ == .int (cond.llvmTy gen ρ).bits) = true)
            fun cmp hcmp => ?_).congr (by simp) (by simp)
        refine (emission_code_ty (gives_icmp .eq trivial trivial (ty_of_draft hcmp)
          (ty_constInt _ _))).conseq Iff.rfl (fun _ _ => trivial) ?_
        rw [← all_imp_iff, ty_of_draft hcmp, beq_iff_eq]
        refine imp_congr_right fun _ => and_iff_left_of_imp fun h => ?_
        rw [h]
        rfl
      refine ((emission_ifThenElse hcond (harm exprX ihX) (harm expr0 ih0)).bind_to False
        (fun v : Value => v.blur = (mux0X cond expr0 exprX).draft gen ρ)
        (flatTy (exprX.llvmTy gen ρ) = flatTy (expr0.llvmTy gen ρ)) fun r hr => ?_).congr ?_ ?_
      · obtain ⟨⟨nonzero, bbNz⟩, ⟨zero, bbZ⟩⟩ := r
        dsimp only at hr ⊢
        refine (emission_create _).conseq Iff.rfl (fun v hv => ?_) ?_
        · rw [hv.1, draft, Inst.result_of_not_simplify (by
            simp [Inst.simplify?, Inst.sameTypeCast?, Inst.constFold?, Inst.eval])]
          exact congrArg (Value.inst 0) hr.2
        · rw [phi_createLegal]
          simp [hr.1, hr.2]
      · simp [fails, or_assoc]
      · simp [legal, and_assoc]

end VexExpr

end VexLLVM
