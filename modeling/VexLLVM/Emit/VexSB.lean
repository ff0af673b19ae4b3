import VexLLVM.Emit.VexStmt

/-!
# Superblocks

`VexSB`: the superblock object, built from the decoder's block, and the function
it is emitted as.
-/

namespace VexLLVM

open LLVM LLVM.Code Vex

structure VexSB where
  guestAddr : BitVec 64
  types : List IRType
  stmts : List VexStmt
  jumpKind : IRJumpKind
  jumpExpr : VexExpr

namespace VexSB

def lastImark : List VexStmt → Option (BitVec 64 × ℕ)
  | [] => none
  | .imark a n :: ss => (lastImark ss).or (some (a, n))
  | _ :: ss => lastImark ss

def endAddr? (stmts : List VexStmt) : Option (BitVec 64) :=
  (lastImark stmts).map fun p => p.1 + BitVec.ofNat 64 p.2

/-- What `emit` records for the jump of a block: nothing for the plain jumps,
`none` for a kind it does not know. -/
def jumpExit : IRJumpKind → Option (Option GuestExitType)
  | .Boring | .NoRedir | .ClientReq => some none
  | .Call => some (some .CALL)
  | .Ret => some (some .RETURN)
  | .Yield => some (some .YIELD)
  | .Sys_sysenter | .Sys_syscall => some (some .SYSCALL)
  | .Sys_int128 => some (some .INT)
  | .SigTRAP => some (some .SIGTRAP)
  | _ => none

/-- `loadJump`. The address after a `sysenter` is the end of the block, past the
backjump of the trampoline. -/
def loadJump (gen : GenLLVM) (stmts : List VexStmt) (jk : IRJumpKind) (next : VexExpr) : VexExpr :=
  match jk with
  | .Sys_sysenter =>
      match endAddr? stmts with
      | none => .abort (.assertion "last_imark != NULL")
      | some a => .const (.U32 ((a + if gen.linuxSysenter then 9 else 0).setWidth 32))
  | jk => if (jumpExit jk).isSome then next else .abort (.assertion "BAD JUMP")

/-- The constructor of `VexSB`. -/
def ofIRSB (gen : GenLLVM) (guestAddr : BitVec 64) (irsb : IRSB) : VexSB :=
  let stmts := irsb.stmts.map (VexStmt.create gen)
  ⟨guestAddr, irsb.types, stmts, irsb.jumpkind,
    loadJump gen stmts irsb.jumpkind (.create gen irsb.next)⟩

def create (gen : GenLLVM) (guestAddr : BitVec 64) (irsb : IRSB) : Option VexSB :=
  if irsb.jumpkind = .NoDecode then none else some (ofIRSB gen guestAddr irsb)

def emitStmts (gen : GenLLVM) (types : List IRType) : List VexStmt → EmitM Unit
  | [] => pure ()
  | s :: ss => do
      s.emit gen types
      emitStmts gen types ss

def endBB (ret : Value) : EmitM Func := fun σ =>
  .ok ((σ.toBuilder.terminate (.ret ret)).func, σ)

def emitJump (gen : GenLLVM) (sb : VexSB) : EmitM Func := do
  let ret ← sb.jumpExpr.emit gen
  match jumpExit sb.jumpKind with
  | none => throw (.assertion "BAD JUMP")
  | some none => pure ()
  | some (some t) => gen.setExitType t.code
  endBB ret

/-- `VexSB::emit`, with the state the generator is left in. -/
def emitM (gen : GenLLVM) (sb : VexSB) : EmitM Func := do
  emitStmts gen sb.types sb.stmts
  emitJump gen sb

def emit (gen : GenLLVM) (sb : VexSB) : Except EmitError Func :=
  (sb.emitM gen GenLLVM.beginBB).map Prod.fst

end VexSB

end VexLLVM
