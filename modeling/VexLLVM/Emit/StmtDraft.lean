import VexLLVM.Emit.Draft
import VexLLVM.Emit.VexSB

/-!
# The types of emitted statements

What a statement records for the temporaries, whether its emission fails, and
whether the phis it emits are well formed, from what is recorded before it.
-/

namespace VexLLVM

open LLVM LLVM.Code Vex StateExcept

namespace VexStmt

variable (gen : GenLLVM) (types : List IRType) (ρ : IRTemp → Option Value)

def tmpTy (t : IRTemp) : Option Ty := vexTy2LLVM (types.getD t .I1)

def addrHi (a : Value) (t : Ty) : Value :=
  (Inst.bin .add a (constInt a.ty.bits (t.bits / 8))).result

def loadGResTy (cvt : IRLoadGOp) : Ty :=
  ((loadGTy cvt).map fun p => p.2.elim p.1 fun _ => .int 32).getD .void

/-- The draft of a dirty call's result, cast to the width of its temporary. -/
def callDraft (ret tmp : Ty) : Value := .inst 0 (if ret.bits = tmp.bits then ret else tmp)

def after : VexStmt → IRTemp → Option Value
  | wrTmp tmp data => Function.update ρ tmp (some (data.draft gen ρ))
  | llsc result addr none =>
      Function.update ρ result
        (some (gen.loadDraft (addr.draft gen ρ) ((tmpTy types result).getD .void)))
  | llsc result _ (some _) => Function.update ρ result (some getLinked)
  | cas _ oldLo addr none expected _ _ =>
      Function.update ρ oldLo (some (gen.loadDraft (addr.draft gen ρ) (expected.llvmTy gen ρ)))
  | cas oldHi oldLo addr (some _) expected _ _ =>
      oldHi.elim ρ fun t => Function.update
        (Function.update ρ oldLo
          (some (gen.loadDraft (addr.draft gen ρ) (expected.llvmTy gen ρ)))) t
        (some (gen.loadDraft (addrHi (addr.draft gen ρ) (expected.llvmTy gen ρ))
          (expected.llvmTy gen ρ)))
  | dirty _ sig _ tmp _ =>
      tmp.elim ρ fun t => Function.update ρ t
        (some (callDraft sig.ret ((tmpTy types t).getD .void)))
  | loadG cvt dst _ _ _ => Function.update ρ dst (some (.inst 0 (loadGResTy cvt)))
  | _ => ρ

def fails : VexStmt → Bool
  | abort _ => true
  | noOp | imark _ _ | abiHint | mbe => false
  | put _ data => data.fails gen ρ || (data.llvmTy gen ρ).bytes == 0
  | putI base _ ix _ data =>
      data.fails gen ρ || ix.fails gen ρ ||
        ((data.llvmTy gen ρ).bytes == 0 || base % (data.llvmTy gen ρ).bytes != 0)
  | wrTmp tmp data => data.fails gen ρ || (ρ tmp).isSome
  | store addr data => addr.fails gen ρ || data.fails gen ρ
  | llsc result addr none =>
      addr.fails gen ρ || ((tmpTy types result).all fun t => gen.loadFails (addr.draft gen ρ) t) ||
        (ρ result).isSome
  | llsc result addr (some data) => addr.fails gen ρ || data.fails gen ρ || (ρ result).isSome
  | cas _ oldLo addr none expected new _ =>
      addr.fails gen ρ || expected.fails gen ρ ||
        gen.loadFails (addr.draft gen ρ) (expected.llvmTy gen ρ) || new.fails gen ρ ||
          (ρ oldLo).isSome
  | cas oldHi oldLo addr (some eh) expected new _ =>
      addr.fails gen ρ || expected.fails gen ρ ||
        gen.loadFails (addr.draft gen ρ) (expected.llvmTy gen ρ) || eh.fails gen ρ ||
          gen.loadFails (addrHi (addr.draft gen ρ) (expected.llvmTy gen ρ))
            (expected.llvmTy gen ρ) || new.fails gen ρ || (ρ oldLo).isSome ||
              oldHi.all fun t => t == oldLo || (ρ t).isSome
  | dirty _ sig guard tmp args =>
      guard.fails gen ρ || (args.any fun e => e.fails gen ρ) || args.isEmpty ||
        sig.params.isEmpty || tmp.any fun t => (tmpTy types t).isNone || (ρ t).isSome
  | exit guard _ _ _ => guard.fails gen ρ
  | storeG addr data guard => addr.fails gen ρ || data.fails gen ρ || guard.fails gen ρ
  | loadG cvt dst addr alt guard =>
      guard.fails gen ρ || addr.fails gen ρ || alt.fails gen ρ ||
        ((loadGTy cvt).all fun p => gen.loadFails (addr.draft gen ρ) p.1) || (ρ dst).isSome

/-- The phis of the statement, those of its expressions and the one of a guarded
load, are well formed. -/
def phisAgree : VexStmt → Bool
  | abort _ | noOp | imark _ _ | abiHint | mbe => true
  | put _ data => data.legal gen ρ false
  | putI _ _ ix _ data => data.legal gen ρ false && ix.legal gen ρ false
  | wrTmp _ data => data.legal gen ρ false
  | store addr data => data.legal gen ρ false && addr.legal gen ρ false
  | llsc _ addr data => addr.legal gen ρ false && data.all fun d => d.legal gen ρ false
  | cas _ _ addr expectedHi expected new _ =>
      addr.legal gen ρ false && expected.legal gen ρ false &&
        (expectedHi.all fun e => e.legal gen ρ false) && new.legal gen ρ false
  | dirty _ _ guard _ args =>
      guard.legal gen ρ false && args.all fun e => e.legal gen ρ false
  | exit guard _ _ _ => guard.legal gen ρ false
  | storeG addr data guard =>
      guard.legal gen ρ false && addr.legal gen ρ false && data.legal gen ρ false
  | loadG cvt _ addr alt guard =>
      guard.legal gen ρ false && addr.legal gen ρ false && alt.legal gen ρ false &&
        alt.llvmTy gen ρ == loadGResTy cvt

end VexStmt

/-! ## Stores -/

section Stores

variable {ρ : IRTemp → Option Value} {gen : GenLLVM}

/-- Straight-line code that does not give up adds no phis. -/
theorem emission_plain {α : Type} {c : Code EmitError α}
    (h : c.Ensures (fun _ => True) False (fun _ _ => True) True) :
    Emission false ρ (code c) False (fun _ => True) ρ True := by
  rintro σ hσ rfl s rfl
  unfold code
  cases hrun : c.run s.toBuilder with
  | error e => exact (h.run_error hrun).elim
  | ok r =>
      refine ⟨fun a s' hs => ⟨id, trivial, ?_⟩, fun e he => by cases he⟩
      cases hs
      have he := run_emits hrun hσ.builder
      refine ⟨⟨he.ok, hσ.casts⟩, he, rfl, iff_true_intro fun k i hi => ?_⟩
      exact Inst.phiOK_of_incoming (h.run_incoming hrun hσ.builder (fun _ => trivial) hi)

theorem ensures_ins {α : Type} {i : Inst} {k : Value → Code EmitError α} {ok : Prop}
    (hi : i.incoming = [])
    (hk : ∀ v ok, (k v).Ensures (fun _ => True) False (fun _ _ => True) ok) :
    (ins i k).Ensures (fun _ => True) False (fun _ _ => True) ok :=
  ⟨⟨fun _ _ => trivial, hi⟩, fun v _ _ => hk v _⟩

/-- One instruction that is no phi. -/
theorem emission_inst {i : Inst} (hi : i.incoming = []) :
    Emission false ρ (code (create i)) False (fun v => v.blur = i.result) ρ True :=
  (emission_create i).conseq Iff.rfl (fun _ hv => hv.1)
    (iff_true_intro (Inst.phiOK_of_incoming hi))

theorem emission_writeCtx (off : ℕ) (v : Value) :
    Emission false ρ (gen.writeCtx off v) (v.ty.bytes = 0) (fun _ => True) ρ True :=
  ((gen.emission_getCtxByteGEP off v.ty).bind fun p _ => (emission_inst rfl).bind
    fun _ _ => emission_pure trivial).congr (by simp) (by simp)

theorem emission_writeCtxI (off : ℕ) (bias : ℤ) (len : ℕ) (ix v : Value) :
    Emission false ρ (gen.writeCtxI off bias len ix v)
      (v.ty.bytes = 0 ∨ off % v.ty.bytes ≠ 0) (fun _ => True) ρ True :=
  ((gen.emission_getCtxElem off bias len ix v.ty).bind fun p _ =>
    (emission_inst rfl).bind fun _ _ => emission_pure trivial).congr (by simp) (by simp)

theorem ensures_bind {α β : Type} {c : Code EmitError α} {f : α → Code EmitError β} {ok : Prop}
    (h : ∀ ok, c.Ensures (fun _ => True) False (fun _ _ => True) ok)
    (hf : ∀ a ok, (f a).Ensures (fun _ => True) False (fun _ _ => True) ok) :
    (c >>= f).Ensures (fun _ => True) False (fun _ _ => True) ok :=
  .bind ((h ok).mono fun a ok' _ => hf a ok')

theorem ensures_recordStore (l a d : Value) (ok : Prop) :
    (GenLLVM.recordStore l a d).Ensures (fun _ => True) False (fun _ _ => True) ok :=
  ensures_ins rfl fun _ _ => ensures_ins rfl fun _ _ => ensures_ins rfl fun _ _ =>
    ensures_ins rfl fun _ _ => ensures_ins rfl fun _ _ => ensures_ins rfl fun _ _ =>
      ensures_ins rfl fun _ _ => ensures_ins rfl fun _ _ => trivial

theorem ensures_hostAddr (a : Value) (ok : Prop) :
    (gen.hostAddr a).Ensures (fun _ => True) False (fun _ _ => True) ok := by
  unfold GenLLVM.hostAddr
  cases gen.is32Bit with
  | true => exact ensures_ins rfl fun _ _ => trivial
  | false => exact trivial

theorem ensures_hostPtr (a : Value) (t : Ty) (ok : Prop) :
    (gen.hostPtr a t).Ensures (fun _ => True) False (fun _ _ => True) ok := by
  unfold GenLLVM.hostPtr
  cases gen.relocates with
  | true => exact ensures_ins rfl fun _ _ => ensures_ins rfl fun _ _ => trivial
  | false => exact ensures_ins rfl fun _ _ => trivial

theorem emission_store (a d : Value) :
    Emission false ρ (gen.store a d) False (fun _ => True) ρ True := by
  have hacc : Emission false ρ (code do
      let a ← gen.hostAddr a
      let p ← gen.hostPtr a d.ty
      let _ ← create (.store d p 8)) False (fun _ => True) ρ True :=
    emission_plain (ensures_bind (ensures_hostAddr a) fun _ _ =>
      ensures_bind (ensures_hostPtr _ _) fun _ _ => ensures_ins rfl fun _ _ => trivial)
  unfold GenLLVM.store
  cases gen.logLastStore with
  | true => exact (emission_plain (ensures_recordStore _ a d True)).bind_safe fun _ _ => hacc
  | false => exact hacc

end Stores

namespace VexStmt

variable {gen : GenLLVM} {types : List IRType} {ρ : IRTemp → Option Value}

theorem emission_regType {α : Type} {all : Bool} (t : IRTemp) {f : Ty → EmitM α} {F p : Ty → Prop}
    {out : α → Prop} {ρ' : IRTemp → Option Value}
    (h : ∀ t', tmpTy types t = some t' → Emission all ρ (f t') (F t') out ρ' (p t')) :
    Emission all ρ (regType types t >>= f) (∀ t', tmpTy types t = some t' → F t') out ρ'
      (∀ t', tmpTy types t = some t' → p t') :=
  emission_llvmTy_bind h

theorem emission_setExitType (n : ℕ) :
    Emission false ρ (gen.setExitType n) False (fun _ => True) ρ True :=
  (emission_writeCtx _ _).congr (iff_of_false (by simp [Ty.bytes]) id) Iff.rfl

theorem emission_emitExit (guard : VexExpr) (jk : IRJumpKind) (exitType : GuestExitType)
    (dst : BitVec 64) :
    Emission false ρ (emitExit gen guard jk exitType dst) (guard.fails gen ρ = true)
      (fun _ => True) ρ (guard.legal gen ρ false = true) := by
  intro σ hσ hρ
  have hend : ∀ (p : Prop) (W : ℕ → Prop) (e : ℕ), W e → Exact (Opened false σ ρ p W)
      (endBlock (.ret (constInt 64 dst.toNat)) e) False fun _ s => True ∧ Lays false σ s ρ p :=
    fun p W e he => (endBlock_exact he fun k hk => by cases hk).post fun _ s hs => ⟨trivial, hs.1⟩
  have hjump : ∀ (p : Prop) (W : ℕ → Prop) (e : ℕ), W e → Exact (Opened false σ ρ p W)
      (do
        if jk ≠ .Boring then gen.setExitType exitType.code
        endBlock (.ret (constInt 64 dst.toNat)) e) False
      fun _ s => True ∧ Lays false σ s ρ p := fun p W e he => by
    split
    · refine (((emission_setExitType _).opened σ).bind fun _ => ?_).conseq (fun _ => id)
        (or_self_iff) fun _ _ => id
      refine (hend p W e he).pre fun s hs => hs.2.mono (fun _ => id) (by simp)
    · exact hend p W e he
  refine Exact.conseq (.bind createBlock_exact fun t => exact_of_and' fun ht =>
    .bind createBlock_exact fun e => exact_of_and' fun he =>
      ((VexExpr.emission_expr guard).opened σ).bind fun c => exact_of_and fun _ =>
        (endBlock_exact (n := t) (.inl (.inr rfl)) ?_).bind fun _ => hjump _ _ e ?_)
    (opened_self hσ hρ) ?_ fun a s h => ⟨h.1, h.2.congr (by simp)⟩
  · rintro k hk
    simp only [Term.succs, List.mem_cons, List.not_mem_nil, or_false] at hk
    exact hk.elim (fun hk => .inl (.inr hk)) .inr
  · exact ⟨.inr rfl, fun h => he (.inr h)⟩
  · simp

theorem loadDraft_ty {a : Value} {t : Ty} (h : gen.loadFails a t = false)
    (ht : t = .int t.bits ∨ 64 < t.bits) : (gen.loadDraft a t).ty = t := by
  unfold GenLLVM.loadFails at h
  unfold GenLLVM.loadDraft
  cases hf : gen.fakeRead (gen.hostAddrDraft a) with
  | none => rfl
  | some x =>
      rcases ht with ht | ht
      · exact ht.symm
      · simp [hf] at h
        omega

theorem loadGTy_shape {cvt : IRLoadGOp} {q : Ty × Option CastOp} (h : loadGTy cvt = some q) :
    q.1 = .int q.1.bits ∨ 64 < q.1.bits := by
  cases cvt <;> cases h <;> first | exact .inl rfl | exact .inr (by decide)

/-- A guarded load, for any code of its first alternative that gives the loaded
value. -/
theorem emission_loadG_of (cvt : IRLoadGOp) (dst : IRTemp) (addr alt guard : VexExpr)
    {first : Value → EmitM Value} (hfirst : ∀ a : Value, a.blur = addr.draft gen ρ →
      Emission false ρ (first a)
        (((loadGTy cvt).all fun q => gen.loadFails (addr.draft gen ρ) q.1) = true)
        (fun c => c.ty = loadGResTy cvt) ρ True) :
    Emission false ρ (do
        let g ← guard.emit gen
        let a ← addr.emit gen
        let altV ← alt.emit gen
        let ((c, bbThen), (_, bbAlt)) ← ifThenElse false (pure g) (first a) (pure altV)
        let pn ← code (LLVM.Code.create (.phi c.ty [(c, bbThen), (altV, bbAlt)]))
        setRegValue dst pn)
      ((loadG cvt dst addr alt guard).fails gen types ρ = true) (fun _ => True)
      ((loadG cvt dst addr alt guard).after gen types ρ)
      ((loadG cvt dst addr alt guard).phisAgree gen ρ = true) := by
  refine ((VexExpr.emission_expr guard).bind fun g _ => (VexExpr.emission_expr addr).bind
    fun a ha => (VexExpr.emission_expr alt).bind_to
      (((loadGTy cvt).all fun q => gen.loadFails (addr.draft gen ρ) q.1) = true ∨ ρ dst ≠ none)
        (fun _ : Unit => True) (alt.llvmTy gen ρ = loadGResTy cvt) fun v hv => ?_).congr ?_ ?_
  · refine ((emission_ifThenElse (emission_pure trivial) (hfirst a ha)
      (emission_pure trivial : Emission false ρ (pure v) _ (fun _ => True) ρ _)).bind_to
        (ρ dst ≠ none) (fun _ : Unit => True) (alt.llvmTy gen ρ = loadGResTy cvt)
          fun r hr => ?_).congr (by simp) (by simp)
    obtain ⟨⟨c, bbThen⟩, ⟨w, bbAlt⟩⟩ := r
    have hc : c.ty = loadGResTy cvt := hr.1
    dsimp only
    refine ((emission_create (.phi c.ty [(c, bbThen), (v, bbAlt)])).bind_to (ρ dst ≠ none)
      (fun _ : Unit => True) True fun pn hpn => ?_).congr (by simp) ?_
    · have hb : pn.blur = .inst 0 (loadGResTy cvt) := by
        rw [hpn.1, Inst.result_of_not_simplify (by
          simp [Inst.simplify?, Inst.sameTypeCast?, Inst.constFold?, Inst.eval])]
        exact congrArg (Value.inst 0) hc
      rw [after, ← hb]
      exact emission_setRegValue dst pn
    · rw [VexExpr.phi_createLegal, VexExpr.llvmTy, ← hv, Value.ty_blur]
      simp [hc]
  · simp [fails, or_assoc, ← Option.isSome_iff_ne_none]
  · simp [phisAgree, and_assoc]

theorem emission_emitLoadG (cvt : IRLoadGOp) (dst : IRTemp) (addr alt guard : VexExpr) :
    Emission false ρ (emitLoadG gen cvt dst addr alt guard)
      ((loadG cvt dst addr alt guard).fails gen types ρ = true) (fun _ => True)
      ((loadG cvt dst addr alt guard).after gen types ρ)
      ((loadG cvt dst addr alt guard).phisAgree gen ρ = true) := by
  have hload : ∀ (a : Value) (t : Ty), a.blur = addr.draft gen ρ → (t = .int t.bits ∨ 64 < t.bits) →
      Emission false ρ (gen.load a t) (gen.loadFails (addr.draft gen ρ) t = true)
        (fun v => v.ty = t) ρ True := fun a t ha ht => by
    rw [← ha]
    refine (gen.emission_load a t).and_ok.conseq Iff.rfl (fun v hv => ?_) (by simp)
    rw [← Value.ty_blur, hv.2, loadDraft_ty (by simpa using hv.1) ht]
  unfold emitLoadG
  refine emission_loadG_of cvt dst addr alt guard fun a ha => ?_
  unfold loadGResTy
  cases hl : loadGTy cvt with
  | none => exact (emission_throw _).congr (iff_of_true trivial rfl) Iff.rfl
  | some q =>
      obtain ⟨t, k⟩ := q
      have ht := loadGTy_shape hl
      cases k with
      | none => exact hload a t ha ht
      | some k =>
          exact ((hload a t ha ht).bind fun v _ => (emission_create (.cast k v (.int 32))).conseq
            Iff.rfl (fun w hw => hw.2) (iff_of_true rfl trivial)).congr (by simp) (by simp)

/-- A load, with what it is drafted as. -/
theorem emission_load_at {a : Value} {w : Value} (t : Ty) (ha : a.blur = w) :
    Emission false ρ (gen.load a t) (gen.loadFails w t = true)
      (fun v => v.blur = gen.loadDraft w t) ρ True := by
  rw [← ha]
  exact (gen.emission_load a t).congr Iff.rfl (by simp)

theorem emission_emitLLSC (result : IRTemp) (addr : VexExpr) (data : Option VexExpr) :
    Emission false ρ (emitLLSC gen types result addr data)
      ((llsc result addr data).fails gen types ρ = true) (fun _ => True)
      ((llsc result addr data).after gen types ρ)
      ((llsc result addr data).phisAgree gen ρ = true) := by
  unfold emitLLSC
  cases data with
  | none =>
      refine ((VexExpr.emission_expr addr).bind fun a ha => emission_regType result fun t ht =>
        (emission_load_at t ha).bind_to (ρ result ≠ none) (fun _ : Unit => True) True
          fun v hv => ?_).congr ?_ ?_
      · rw [after, ht, Option.getD_some, ← hv]
        exact emission_setRegValue result v
      · cases ht : tmpTy types result <;> simp [fails, ht, or_assoc, ← Option.isSome_iff_ne_none]
      · simp [phisAgree]
  | some data =>
      refine ((emission_ifThen (emission_pure trivial)
        ((VexExpr.emission_expr addr).bind fun a _ => (VexExpr.emission_expr data).bind fun d _ =>
          emission_store a d)).bind fun _ _ => emission_setRegValue result getLinked).congr ?_ ?_
      · simp [fails, or_assoc, ← Option.isSome_iff_ne_none]
      · simp [phisAgree]

/-- A block entered on a comparison. -/
theorem emission_ifCode {c : OpCode} {body : EmitM Unit} {F p : Prop}
    (hc : c.Ensures (fun _ => True) False (fun _ _ => True) True)
    (hb : Emission false ρ body F (fun _ => True) ρ p) :
    Emission false ρ (ifThen (code c) body) F (fun _ => True) ρ p :=
  (emission_ifThen (emission_plain hc) hb).congr (by simp) (by simp)

theorem emission_emitCASHi {a : Value} {t : Ty} {wa : Value} (eh : VexExpr) (ha : a.blur = wa) :
    Emission false ρ (emitCASHi gen a t eh)
      (eh.fails gen ρ = true ∨ gen.loadFails (addrHi wa t) t = true)
      (fun r => r.2.2.blur = gen.loadDraft (addrHi wa t) t) ρ (eh.legal gen ρ false = true) := by
  refine ((VexExpr.emission_expr eh).bind fun e _ => (emission_create
    (.bin .add a (constInt a.ty.bits (t.bits / 8)))).bind_to (gen.loadFails (addrHi wa t) t = true)
      (fun r : Value × Value × Value => r.2.2.blur = gen.loadDraft (addrHi wa t) t) True
        fun ah hah => ?_).congr ?_ ?_
  · have hw : ah.blur = addrHi wa t := by
      rw [hah.1, addrHi, ← ha, Value.ty_blur]
      exact Inst.result_congr (by simp [Inst.blur, Inst.mapValues])
    exact ((emission_load_at t hw).bind fun l hl => emission_pure hl).congr (by simp) (by simp)
  · simp
  · simp [Inst.createLegal, Inst.phiOK, Inst.incoming]

theorem emission_emitCAS (oldHi : Option IRTemp) (oldLo : IRTemp) (addr : VexExpr)
    (expectedHi : Option VexExpr) (expected new : VexExpr) (newHi : Option VexExpr) :
    Emission false ρ (emitCAS gen oldHi oldLo addr expectedHi expected new)
      ((cas oldHi oldLo addr expectedHi expected new newHi).fails gen types ρ = true)
      (fun _ => True) ((cas oldHi oldLo addr expectedHi expected new newHi).after gen types ρ)
      ((cas oldHi oldLo addr expectedHi expected new newHi).phisAgree gen ρ = true) := by
  unfold emitCAS
  cases expectedHi with
  | none =>
      refine ((VexExpr.emission_expr addr).bind fun a ha => (VexExpr.emission_expr expected).bind_to
        (gen.loadFails (addr.draft gen ρ) (expected.llvmTy gen ρ) = true ∨
          new.fails gen ρ = true ∨ ρ oldLo ≠ none) (fun _ : Unit => True)
        (new.legal gen ρ false = true) fun e he => ?_).congr ?_ ?_
      · rw [VexExpr.ty_of_draft he]
        refine ((emission_load_at _ ha).bind_to (new.fails gen ρ = true ∨ ρ oldLo ≠ none)
          (fun _ : Unit => True) (new.legal gen ρ false = true) fun l hl => ?_).congr Iff.rfl ?_
        · simp only [pure_bind]
          refine ((emission_ifCode (p := new.legal gen ρ false)
            (F := new.fails gen ρ) ?_ ?_).bind_to
            (ρ oldLo ≠ none) (fun _ : Unit => True) True fun _ _ => ?_).congr Iff.rfl ?_
          · exact ensures_ins rfl fun _ _ => trivial
          · exact ((VexExpr.emission_expr new).bind fun n _ => (emission_store a n).bind fun _ _ =>
              emission_pure trivial).congr (by simp) (by simp)
          · rw [after, ← hl]
            exact ((emission_setRegValue oldLo l).bind fun _ _ => emission_pure trivial).congr
              (by simp) (by simp)
          · simp
        · simp
      · simp [fails, or_assoc, ← Option.isSome_iff_ne_none]
      · simp [phisAgree, and_assoc]
  | some eh =>
      refine ((VexExpr.emission_expr addr).bind fun a ha => (VexExpr.emission_expr expected).bind_to
        (gen.loadFails (addr.draft gen ρ) (expected.llvmTy gen ρ) = true ∨
          (eh.fails gen ρ = true ∨ gen.loadFails (addrHi (addr.draft gen ρ) (expected.llvmTy gen ρ))
            (expected.llvmTy gen ρ) = true) ∨ new.fails gen ρ = true ∨ ρ oldLo ≠ none ∨
              (oldHi.all fun t => t == oldLo || (ρ t).isSome) = true) (fun _ : Unit => True)
        (eh.legal gen ρ false = true ∧ new.legal gen ρ false = true) fun e he => ?_).congr ?_ ?_
      · rw [VexExpr.ty_of_draft he]
        refine ((emission_load_at _ ha).bind_to ((eh.fails gen ρ = true ∨
          gen.loadFails (addrHi (addr.draft gen ρ) (expected.llvmTy gen ρ))
            (expected.llvmTy gen ρ) = true) ∨ new.fails gen ρ = true ∨ ρ oldLo ≠ none ∨
              (oldHi.all fun t => t == oldLo || (ρ t).isSome) = true) (fun _ : Unit => True)
          (eh.legal gen ρ false = true ∧ new.legal gen ρ false = true) fun l hl => ?_).congr
            Iff.rfl (by simp)
        refine ((emission_emitCASHi eh ha).map some).bind_to
          (new.fails gen ρ = true ∨ ρ oldLo ≠ none ∨
            (oldHi.all fun t => t == oldLo || (ρ t).isSome) = true) (fun _ : Unit => True)
              (new.legal gen ρ false = true) fun hi hhi => ?_
        obtain ⟨⟨v, ah, lh⟩, hlh, rfl⟩ := hhi
        dsimp only
        refine ((emission_ifCode (p := new.legal gen ρ false) (F := new.fails gen ρ)
          ?_ ?_).bind_to (ρ oldLo ≠ none ∨ (oldHi.all fun t => t == oldLo || (ρ t).isSome) = true)
            (fun _ : Unit => True) True fun _ _ => ?_).congr Iff.rfl ?_
        · exact ensures_ins rfl fun _ _ => ensures_ins rfl fun _ _ => ensures_ins rfl fun _ _ =>
            trivial
        · exact ((VexExpr.emission_expr new).bind fun n _ => (emission_store a n).bind fun _ _ =>
            (VexExpr.emission_expr new).bind fun n _ => emission_store ah n).congr
              (by simp) (by simp)
        · rw [after, ← hl]
          cases oldHi with
          | none =>
              exact ((emission_setRegValue oldLo l).bind fun _ _ =>
                emission_throw (p := True) _).congr (by simp) (by simp)
          | some t =>
              rw [← hlh]
              refine ((emission_setRegValue oldLo l).bind fun _ _ =>
                (emission_setRegValue t lh).post fun _ _ => trivial).congr ?_ (by simp)
              simp only [Function.update_apply, Option.all_some, Bool.or_eq_true, beq_iff_eq]
              by_cases ht : t = oldLo
              · simp [ht]
              · simp [ht, Option.isSome_iff_ne_none]
        · simp
      · simp [fails, or_assoc, ← Option.isSome_iff_ne_none]
      · simp [phisAgree, and_assoc]

theorem result_cast {k : CastOp} {v : Value} {t : Ty} (hv : v.isConst = false) :
    (Inst.cast k v t).result = .inst 0 t := by
  by_cases h : v.ty = t
  · rw [Inst.result, Inst.simplify?_blur]
    simp [Inst.simplify?, Inst.sameTypeCast?, h, Value.blur_of_not_isConst hv]
  · exact Inst.result_of_not_isConst (by simp [Inst.sameTypeCast?, h])
      (by simp [Inst.operands]) hv

theorem result_call (f : String) (sig : FnTy) (vs : List Value) :
    (Inst.call f sig vs).result = .inst 0 sig.ret :=
  Inst.result_of_not_simplify (by
    simp [Inst.simplify?, Inst.sameTypeCast?, Inst.constFold?, Inst.eval])

theorem isConst_of_blur_inst {v : Value} {t : Ty} (h : v.blur = .inst 0 t) : v.isConst = false := by
  rw [← Value.isConst_blur, h]
  rfl

theorem emission_castResult {call : Value} {ret tmp : Ty} (hc : call.blur = .inst 0 ret) :
    Emission false ρ (code (castResult call ret tmp)) False
      (fun v => v.blur = callDraft ret tmp) ρ True := by
  have hcast : ∀ k : CastOp, ret.bits ≠ tmp.bits → Emission false ρ
      (code (do let r ← createBitCast call (.int ret.bits); createCast k r tmp)) False
      (fun v => v.blur = callDraft ret tmp) ρ True := fun k hne => by
    rw [code_bind, callDraft, if_neg hne]
    refine (emission_inst rfl).bind_safe fun r hr => (emission_inst rfl).post fun v hv => ?_
    rw [result_cast (isConst_of_blur_inst hc)] at hr
    rw [hv, result_cast (isConst_of_blur_inst hr)]
  unfold castResult
  by_cases hlt : ret.bits < tmp.bits
  · rw [if_pos hlt]
    exact hcast .zext (Nat.ne_of_lt hlt)
  · rw [if_neg hlt]
    by_cases hgt : tmp.bits < ret.bits
    · rw [if_pos hgt]
      exact hcast .trunc (Nat.ne_of_gt hgt)
    · rw [if_neg hgt, callDraft, if_pos (by omega)]
      exact emission_code_ret hc

theorem emission_emitDirtyCall (f : String) (sig : FnTy) (tmp : Option IRTemp)
    (args : List VexExpr) :
    Emission false ρ (emitDirtyCall gen types f sig tmp args)
      ((args.any fun e => e.fails gen ρ) = true ∨ args.isEmpty = true ∨ sig.params.isEmpty = true ∨
        (tmp.any fun t => (tmpTy types t).isNone || (ρ t).isSome) = true) (fun _ => True)
      (tmp.elim ρ fun t => Function.update ρ t
        (some (callDraft sig.ret ((tmpTy types t).getD .void))))
      ((args.all fun e => e.legal gen ρ false) = true) := by
  unfold emitDirtyCall
  refine ((emission_emitAll args fun e _ => VexExpr.emission_expr e).bind_to
    (args.isEmpty = true ∨ sig.params.isEmpty = true ∨
      (tmp.any fun t => (tmpTy types t).isNone || (ρ t).isSome) = true) (fun _ : Unit => True) True
        fun vs hvs => ?_).congr (by simp) (by simp)
  cases args with
  | nil =>
      cases hvs
      exact (emission_throw _).congr (by simp) Iff.rfl
  | cons e args =>
      cases hvs with
      | cons hv hvs =>
          cases sig.params with
          | nil => exact (emission_throw _).congr (by simp) Iff.rfl
          | cons p ps =>
              refine (emission_inst rfl).bind_safe fun v _ => (emission_inst rfl).bind_safe
                fun call hcall => ?_
              rw [result_call] at hcall
              cases tmp with
              | none => exact Emission.congr (emission_pure trivial) (by simp) Iff.rfl
              | some t =>
                  refine (emission_regType t (F := fun _ => ρ t ≠ none) (p := fun _ => True)
                    fun tmpType ht => ?_).congr ?_ (by simp)
                  · refine (emission_castResult hcall).bind_safe fun r hr => ?_
                    rw [Option.elim_some, ht, Option.getD_some, ← hr]
                    exact emission_setRegValue t r
                  · cases ht : tmpTy types t <;> simp [ht, Option.isSome_iff_ne_none]

theorem emission_emitDirty (f : String) (sig : FnTy) (guard : VexExpr) (tmp : Option IRTemp)
    (args : List VexExpr) :
    Emission false ρ (emitDirty gen types f sig guard tmp args)
      ((dirty f sig guard tmp args).fails gen types ρ = true) (fun _ => True)
      ((dirty f sig guard tmp args).after gen types ρ)
      ((dirty f sig guard tmp args).phisAgree gen ρ = true) := by
  have hcall := @emission_emitDirtyCall gen types ρ f sig tmp args
  refine ((VexExpr.emission_expr guard).bind_to
    ((args.any fun e => e.fails gen ρ) = true ∨ args.isEmpty = true ∨ sig.params.isEmpty = true ∨
      (tmp.any fun t => (tmpTy types t).isNone || (ρ t).isSome) = true) (fun _ : Unit => True)
    ((args.all fun e => e.legal gen ρ false) = true) fun c _ => ?_).congr ?_ ?_
  · split
    · exact hcall
    · exact (emission_ifThen (emission_pure trivial) hcall).congr (by simp) (by simp)
  · simp [fails, or_assoc]
  · simp [phisAgree]

/-- What the emission of a statement does. -/
theorem emission_stmt (s : VexStmt) :
    Emission false ρ (s.emit gen types) (s.fails gen types ρ = true) (fun _ => True)
      (s.after gen types ρ) (s.phisAgree gen ρ = true) := by
  have hskip : Emission false ρ (pure () : EmitM Unit) (false = true) (fun _ => True) ρ
      (true = true) :=
    Emission.congr (emission_pure trivial) (iff_of_false id Bool.false_ne_true)
      (iff_of_true trivial rfl)
  cases s with
  | abort e => exact (emission_throw _).congr (iff_of_true trivial rfl) Iff.rfl
  | noOp => exact hskip
  | imark a n => exact hskip
  | abiHint => exact hskip
  | put offset data =>
      refine ((VexExpr.emission_expr data).bind_to ((data.llvmTy gen ρ).bytes = 0)
        (fun _ : Unit => True) True fun v hv => ?_).congr ?_ ?_
      · rw [← VexExpr.ty_of_draft hv]
        exact emission_writeCtx offset v
      · simp [fails]
      · simp [phisAgree]
  | putI base len ix bias data =>
      refine ((VexExpr.emission_expr data).bind_to (ix.fails gen ρ = true ∨
        (data.llvmTy gen ρ).bytes = 0 ∨ base % (data.llvmTy gen ρ).bytes ≠ 0)
          (fun _ : Unit => True) (ix.legal gen ρ false = true) fun v hv => ?_).congr ?_ ?_
      · rw [← VexExpr.ty_of_draft hv]
        exact ((VexExpr.emission_expr ix).bind fun i _ =>
          emission_writeCtxI base bias len i v).congr Iff.rfl (by simp)
      · simp [fails, or_assoc]
      · simp [phisAgree]
  | wrTmp tmp data =>
      refine ((VexExpr.emission_expr data).bind_to (ρ tmp ≠ none)
        (fun _ : Unit => True) True fun v hv => ?_).congr ?_ ?_
      · rw [after, ← hv]
        exact emission_setRegValue tmp v
      · simp [fails, Option.isSome_iff_ne_none]
      · simp [phisAgree]
  | store addr data =>
      refine ((VexExpr.emission_expr data).bind fun d _ => (VexExpr.emission_expr addr).bind
        fun a _ => emission_store a d).congr ?_ ?_
      · simp [fails, or_comm]
      · simp [phisAgree]
  | llsc result addr data => exact emission_emitLLSC result addr data
  | cas oldHi oldLo addr expectedHi expected new newHi =>
      exact emission_emitCAS oldHi oldLo addr expectedHi expected new newHi
  | dirty f sig guard tmp args => exact emission_emitDirty f sig guard tmp args
  | mbe =>
      exact (emission_inst rfl).bind_safe fun _ _ => hskip
  | exit guard jk exitType dst => exact emission_emitExit guard jk exitType dst
  | storeG addr data guard =>
      refine ((VexExpr.emission_expr guard).bind fun g _ => (emission_ifThen
        (emission_pure trivial) ((VexExpr.emission_expr addr).bind fun a _ =>
          (VexExpr.emission_expr data).bind fun d _ => emission_store a d))).congr ?_ ?_
      · simp only [fails, Bool.or_eq_true]
        tauto
      · simp [phisAgree, and_assoc]
  | loadG cvt dst addr alt guard => exact emission_emitLoadG cvt dst addr alt guard

end VexStmt

end VexLLVM
