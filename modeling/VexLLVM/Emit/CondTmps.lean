import VexLLVM.Emit.SSA
import VexLLVM.Emit.Exits

/-!
# Temporaries that are set under a guard

A dirty call under a guard sets its temporary inside the block that the guard
branches around. The emitted function is in SSA form just when no temporary set so
is read.
-/

namespace VexLLVM

open LLVM LLVM.Code Vex StateExcept

namespace VexStmt

/-- The temporaries the statement's emitted expressions read; the high data of a
compare-and-swap is not emitted. -/
def rdTmps : VexStmt → List IRTemp
  | put _ data | wrTmp _ data => data.rdTmps
  | putI _ _ ix _ data => data.rdTmps ++ ix.rdTmps
  | store addr data => data.rdTmps ++ addr.rdTmps
  | llsc _ addr data => addr.rdTmps ++ data.elim [] VexExpr.rdTmps
  | cas _ _ addr expectedHi expected new _ =>
      addr.rdTmps ++ expected.rdTmps ++ expectedHi.elim [] VexExpr.rdTmps ++ new.rdTmps
  | dirty _ _ guard _ args => guard.rdTmps ++ args.flatMap VexExpr.rdTmps
  | exit guard _ _ _ => guard.rdTmps
  | storeG addr data guard => guard.rdTmps ++ addr.rdTmps ++ data.rdTmps
  | loadG _ _ addr alt guard => guard.rdTmps ++ addr.rdTmps ++ alt.rdTmps
  | abort _ | noOp | imark _ _ | abiHint | mbe => []

variable {G : Func} {L : IRTemp → Prop} {vs : List Value} {σ σ₁ σ₂ σ' : GenState}
  {gen : GenLLVM} {types : List IRType} {ρ : IRTemp → Option Value}

end VexStmt

namespace VexSB

def rdTmps (sb : VexSB) : List IRTemp :=
  sb.stmts.flatMap VexStmt.rdTmps ++ sb.jumpExpr.rdTmps

variable {G : Func} {L : IRTemp → Prop} {vs : List Value} {σ σ₁ σ₂ σ' : GenState}
  {gen : GenLLVM} {types : List IRType} {ρ : IRTemp → Option Value}

instance flows_markJump (t : Option GuestExitType) : Flows L (markJump gen t) := by
  cases t <;> unfold markJump <;> infer_instance

end VexSB

end VexLLVM
