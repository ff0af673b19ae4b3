import VexLLVM.Emit.SBDraft

/-!
# Are the emitted instructions well formed?

The LLVM type of an emitted value depends on the operation that made it, and not
only on its VEX type. The phi of an `ITE` takes the two arms as they come out, but
for vectors of at most 64 bits, and the phi of a guarded load takes its
alternative as it comes out; operations take their operands so too. The
instructions are well formed exactly where these LLVM types fit.
-/

namespace VexLLVM

open LLVM LLVM.Code Vex StateExcept

/-- Each phi added from `σ` to `σ'` takes values of its own type only. -/
def PhisTyped (σ σ' : GenState) : Prop :=
  ∀ k i, Builder.Added σ.toBuilder σ'.toBuilder k i → i.phiOK = true

def WellFormed (σ σ' : GenState) : Prop :=
  ∀ k i, Builder.Added σ.toBuilder σ'.toBuilder k i → i.WF = true

variable {gen : GenLLVM} {types : List IRType} {ss : List VexStmt} {σ σ' : GenState}

theorem legal_iff_of_emit (all : Bool) {e : VexExpr} {v : Value}
    (h : VexSB.emitStmts gen types ss GenLLVM.beginBB = .ok ((), σ))
    (he : e.emit gen σ = .ok (v, σ')) :
    (∀ k i, Builder.Added σ.toBuilder σ'.toBuilder k i → i.legal all = true) ↔
      e.legal gen σ.table all = true :=
  ((VexExpr.emission_expr e σ (VexSB.emitStmts_spec h).ok rfl σ rfl).1 v σ' he).2.2.legal

theorem exists_emit (gen : GenLLVM) (e : VexExpr)
    (h : e.fails gen GenLLVM.beginBB.table = false) :
    ∃ v σ', e.emit gen GenLLVM.beginBB = .ok (v, σ') :=
  have hemit : Emission false _ (e.emit gen) _ _ _ _ := VexExpr.emission_expr e
  hemit.exists_ok VexSB.beginBB_OK rfl (by simp [h])

/-- The phis of an `ITE`, its own and those of its arms, are well formed exactly
if at each of them the two arms have the same LLVM type, vectors of at most 64
bits counting as integers; the phis of a guarded load exactly if its alternative
has the LLVM type of what is loaded. -/
theorem phisTyped_iff (h : VexSB.emitStmts gen types ss GenLLVM.beginBB = .ok ((), σ)) :
    (∀ cond expr0 exprX v σ', (VexExpr.mux0X cond expr0 exprX).emit gen σ = .ok (v, σ') →
      (PhisTyped σ σ' ↔ (VexExpr.mux0X cond expr0 exprX).legal gen σ.table false = true)) ∧
    ∀ cvt dst addr alt guard σ',
      (VexStmt.loadG cvt dst addr alt guard).emit gen types σ = .ok ((), σ') →
      (PhisTyped σ σ' ↔
        (VexStmt.loadG cvt dst addr alt guard).phisAgree gen σ.table = true) :=
  ⟨fun _ _ _ _ _ he => legal_iff_of_emit false h he, fun _ _ _ _ _ σ' he =>
    ((VexStmt.emission_stmt _ σ (VexSB.emitStmts_spec h).ok rfl σ rfl).1 () σ' he).2.2.legal⟩

def twoVectors : VexExpr := .mux0X (.get 0 .I8) (.get 224 .V128) (.const (.V128 0))

def loadByte : VexStmt := .loadG ._8Uto32 0 (.get 16 .I64) (.get 24 .I32) (.const (.U1 true))

theorem phisTyped_twoVectors :
    (∃ v σ', twoVectors.emit plainGen GenLLVM.beginBB = .ok (v, σ') ∧
        PhisTyped GenLLVM.beginBB σ') ∧
      ∃ σ', loadByte.emit plainGen [.I32] GenLLVM.beginBB = .ok ((), σ') ∧
        PhisTyped GenLLVM.beginBB σ' := by
  have h := @phisTyped_iff plainGen [.I32] [] GenLLVM.beginBB rfl
  constructor
  · obtain ⟨v, σ', he⟩ := exists_emit plainGen twoVectors (by decide +kernel)
    exact ⟨v, σ', he, (h.1 _ _ _ v σ' he).2 (by decide +kernel)⟩
  · have hemit := @VexStmt.emission_stmt plainGen [.I32] GenLLVM.beginBB.table loadByte
    obtain ⟨⟨⟩, σ', hs⟩ := hemit.exists_ok VexSB.beginBB_OK rfl (by decide +kernel)
    exact ⟨σ', hs, (h.2 _ _ _ _ _ σ' hs).2 (by decide +kernel)⟩

/-- The instructions of an expression are well formed exactly if each operation,
each address and each index takes the LLVM types its operands come out as, and
the arms of each `ITE` fit. -/
theorem wellFormed_iff (h : VexSB.emitStmts gen types ss GenLLVM.beginBB = .ok ((), σ)) :
    ∀ (e : VexExpr) v σ', e.emit gen σ = .ok (v, σ') →
      (WellFormed σ σ' ↔ e.legal gen σ.table true = true) :=
  fun _ _ _ he => legal_iff_of_emit true h he

def narrowSum : IRExpr :=
  .Nary .Binop (.iop .Add32) ![.Nary .Unop (.iop ._64to32) ![.Get 16 .I64], .Const (.U32 1)]

theorem wellFormed_narrowSum :
    ∃ v σ', (VexExpr.create plainGen narrowSum).emit plainGen GenLLVM.beginBB = .ok (v, σ') ∧
      WellFormed GenLLVM.beginBB σ' := by
  obtain ⟨v, σ', he⟩ := exists_emit plainGen (.create plainGen narrowSum) (by decide +kernel)
  exact ⟨v, σ', he, (@wellFormed_iff plainGen [] [] _ rfl _ v σ' he).2 (by decide +kernel)⟩

/-! ## Where they are not -/

def laysIllegal (all : Bool) (gen : GenLLVM) (e : VexExpr) : Bool :=
  match e.emit gen GenLLVM.beginBB with
  | .ok (_, σ) => (List.range σ.func.nblocks).any fun k =>
      (σ.func.blocks k).insts.any fun p => !p.2.legal all
  | .error _ => false

theorem exists_illegal (all : Bool) {e : VexExpr} (h : laysIllegal all gen e = true) :
    ∃ v σ', e.emit gen GenLLVM.beginBB = .ok (v, σ') ∧
      ¬ ∀ k i, Builder.Added GenLLVM.beginBB.toBuilder σ'.toBuilder k i → i.legal all = true := by
  unfold laysIllegal at h
  split at h
  · next v σ' he =>
      refine ⟨v, σ', he, fun hall => ?_⟩
      simp only [List.any_eq_true, Bool.not_eq_true'] at h
      obtain ⟨k, -, p, hp, hl⟩ := h
      rw [hall k p.2 ⟨p.1, Nat.zero_le _, hp⟩] at hl
      cases hl
  · cases h

/-- An `ITE` between a shifted vector, of two lanes, and the zero vector, of
sixteen. -/
def shiftOrZero : IRExpr :=
  .ITE (.Nary .Binop (.iop .CmpEQ8) ![.Get 0 .I8, .Const (.U8 0)])
    (.Nary .Binop (.iop .ShrN64x2) ![.Get 224 .V128, .Const (.U8 3)]) (.Const (.V128 0))

theorem shiftOrZero_not_phisTyped :
    ∃ v σ', (VexExpr.create plainGen shiftOrZero).emit plainGen GenLLVM.beginBB = .ok (v, σ') ∧
      ¬ PhisTyped GenLLVM.beginBB σ' :=
  exists_illegal false (by decide +kernel)

/-- The sum of a vector of bytes, which the vector addition leaves as such, and a
register. -/
def addToVector : IRExpr :=
  .Nary .Binop (.iop .Add64)
    ![.Nary .Binop (.iop .Add8x8) ![.Get 16 .I64, .Get 24 .I64], .Get 32 .I64]

theorem addToVector_not_wellFormed :
    ∃ v σ', (VexExpr.create plainGen addToVector).emit plainGen GenLLVM.beginBB = .ok (v, σ') ∧
      ¬ WellFormed GenLLVM.beginBB σ' :=
  exists_illegal true (by decide +kernel)

end VexLLVM
