import VexLLVM.Emit.StmtDraft

/-!
# Superblocks, statement by statement

What the statements of a superblock record, whether its emission fails, and the
states of the generator that emitting statements leads to.
-/

namespace VexLLVM

open LLVM LLVM.Code Vex StateExcept

namespace VexSB

variable (gen : GenLLVM) (types : List IRType)

def after : (IRTemp → Option Value) → List VexStmt → IRTemp → Option Value
  | ρ, [] => ρ
  | ρ, s :: ss => after (s.after gen types ρ) ss

def stmtsFail : (IRTemp → Option Value) → List VexStmt → Bool
  | _, [] => false
  | ρ, s :: ss => s.fails gen types ρ || stmtsFail (s.after gen types ρ) ss

def phisAgree : (IRTemp → Option Value) → List VexStmt → Bool
  | _, [] => true
  | ρ, s :: ss => s.phisAgree gen ρ && phisAgree (s.after gen types ρ) ss

def noValues : IRTemp → Option Value := fun _ => none

def fails (sb : VexSB) : Bool :=
  stmtsFail gen sb.types noValues sb.stmts ||
    (sb.jumpExpr.fails gen (after gen sb.types noValues sb.stmts) ||
      (jumpExit sb.jumpKind).isNone)

variable {gen types}

theorem emission_emitStmts (ss : List VexStmt) :
    ∀ ρ, Emission false ρ (emitStmts gen types ss) (stmtsFail gen types ρ ss = true)
      (fun _ => True) (after gen types ρ ss) (phisAgree gen types ρ ss = true) := by
  induction ss with
  | nil =>
      exact fun ρ => Emission.congr (emission_pure trivial) (iff_of_false id Bool.false_ne_true)
        (iff_of_true trivial rfl)
  | cons s ss ih =>
      exact fun ρ => ((VexStmt.emission_stmt s).bind fun _ _ => ih _).congr
        (by simp [stmtsFail]) (by simp [phisAgree])

theorem beginBB_OK : GenLLVM.beginBB.OK where
  builder := .empty
  casts _ _ h := by cases h

/-- What a statement is emitted from: the state some statements lead to. -/
theorem emitStmts_spec {ss : List VexStmt} {σ : GenState}
    (h : emitStmts gen types ss GenLLVM.beginBB = .ok ((), σ)) :
    Lays false GenLLVM.beginBB σ (after gen types noValues ss)
      (phisAgree gen types noValues ss = true) :=
  ((emission_emitStmts ss noValues _ beginBB_OK rfl _ rfl).1 () σ h).2.2

theorem emission_emitJump (sb : VexSB) (ρ : IRTemp → Option Value) :
    Emission false ρ (emitJump gen sb)
      ((sb.jumpExpr.fails gen ρ || (jumpExit sb.jumpKind).isNone) = true) (fun _ => True) ρ
      (sb.jumpExpr.legal gen ρ false = true) := by
  have hend : ∀ ret : Value, Emission false ρ (endBB ret) False (fun _ => True) ρ True := by
    rintro ret σ hσ rfl s rfl
    refine ⟨fun f s' h => ?_, fun e he => by cases he⟩
    cases h
    exact ⟨id, trivial, .refl hσ⟩
  refine ((VexExpr.emission_expr sb.jumpExpr).bind_to ((jumpExit sb.jumpKind).isNone = true)
    (fun _ : Func => True) True fun ret _ => ?_).congr (by simp) (by simp)
  cases jumpExit sb.jumpKind with
  | none => exact (emission_throw_bind _ _).congr (iff_of_true trivial rfl) Iff.rfl
  | some t =>
      cases t with
      | none => exact (hend ret).congr (iff_of_false id Bool.false_ne_true) Iff.rfl
      | some t =>
          exact ((VexStmt.emission_setExitType t.code).bind_safe fun _ _ => hend ret).congr
            (iff_of_false id Bool.false_ne_true) Iff.rfl

theorem emission_emitM (sb : VexSB) :
    Emission false noValues (sb.emitM gen) (sb.fails gen = true) (fun _ => True)
      (after gen sb.types noValues sb.stmts)
      (phisAgree gen sb.types noValues sb.stmts = true ∧
        sb.jumpExpr.legal gen (after gen sb.types noValues sb.stmts) false = true) :=
  ((emission_emitStmts sb.stmts noValues).bind fun _ _ => emission_emitJump sb _).congr
    (by simp [fails]) Iff.rfl

end VexSB

end VexLLVM
