import VexLLVM.Emit.VexExpr

/-!
# Statements

`VexStmt`: the statement objects and what they emit. Statements that open basic
blocks leave the insertion point in the block where the rest of the superblock
goes on.
-/

namespace VexLLVM

open LLVM LLVM.Code Vex

inductive GuestExitType where
  | IGNORE | SIGTRAP | SIGSEGV | SIGBUS | EMWARN | SYSCALL | CALL | RETURN | YIELD | INT
  deriving DecidableEq, Repr

def GuestExitType.code : GuestExitType → ℕ
  | IGNORE => 0
  | SIGTRAP => 1
  | SIGSEGV => 2
  | SIGBUS => 3
  | EMWARN => 4
  | SYSCALL => 5
  | CALL => 6
  | RETURN => 7
  | YIELD => 8
  | INT => 9

inductive VexStmt where
  | abort (e : EmitError)
  | noOp
  | imark (guestAddr : BitVec 64) (guestOpLen : ℕ)
  | abiHint
  | put (offset : ℕ) (data : VexExpr)
  | putI (base : ℕ) (len : ℕ) (ix : VexExpr) (bias : ℤ) (data : VexExpr)
  | wrTmp (tmp : IRTemp) (data : VexExpr)
  | store (addr data : VexExpr)
  | llsc (result : IRTemp) (addr : VexExpr) (data : Option VexExpr)
  | cas (oldHi : Option IRTemp) (oldLo : IRTemp) (addr : VexExpr)
      (expectedHi : Option VexExpr) (expected new : VexExpr) (newHi : Option VexExpr)
  | dirty (f : String) (sig : FnTy) (guard : VexExpr) (tmp : Option IRTemp)
      (args : List VexExpr)
  | mbe
  | exit (guard : VexExpr) (jk : IRJumpKind) (exitType : GuestExitType) (dst : BitVec 64)
  | storeG (addr data guard : VexExpr)
  | loadG (cvt : IRLoadGOp) (dst : IRTemp) (addr alt guard : VexExpr)

namespace VexStmt

/-- The exit type of a side exit, for the jump kinds it accepts. -/
def exitTypeOf : IRJumpKind → Option GuestExitType
  | .Boring => some .IGNORE
  | .Call => some .CALL
  | .Ret => some .RETURN
  | .Sys_int128 => some .INT
  | .Sys_syscall => some .SYSCALL
  | .Sys_sysenter => some .SYSCALL
  | .MapFail => some .SIGSEGV
  | .SigSEGV => some .SIGSEGV
  | .EmWarn => some .EMWARN
  | .NoDecode => some .EMWARN
  | _ => none

/-- The destination of a side exit. A constant of another type leaves it as it
is constructed. -/
def exitDst : IRConst → BitVec 64
  | .U1 b => BitVec.ofNat 64 b.toNat
  | .U8 v => v.setWidth 64
  | .U16 v => v.setWidth 64
  | .U32 v => v.setWidth 64
  | .U64 v => v
  | .F64i v => v
  | _ => 0

/-- `loadNextInstruction`: the constructors of the statement objects. -/
def create (gen : GenLLVM) : IRStmt → VexStmt
  | .NoOp => noOp
  | .IMark addr len => imark addr len
  | .AbiHint => abiHint
  | .Put offset data =>
      match VexExpr.create gen data with
      | .null => abort (.assertion "Bad data expr")
      | e => put offset e
  | .PutI descr ix bias data =>
      match VexExpr.create gen ix, VexExpr.create gen data with
      | .null, _ => abort (.assertion "Bad ix expr")
      | _, .null => abort (.assertion "Bad data expr")
      | i, d => putI descr.base descr.nElems i bias d
  | .WrTmp tmp data => wrTmp tmp (.create gen data)
  | .Store _ addr data => store (.create gen addr) (.create gen data)
  | .StoreG .LE addr data guard =>
      storeG (.create gen addr) (.create gen data) (.create gen guard)
  | .StoreG .BE _ _ _ => abort (.assertion "end == Iend_LE")
  | .LoadG .LE cvt dst addr alt guard =>
      loadG cvt dst (.create gen addr) (.create gen alt) (.create gen guard)
  | .LoadG .BE _ _ _ _ _ => abort (.assertion "end == Iend_LE")
  | .CAS oldHi oldLo addr none expdLo _ dataLo =>
      cas oldHi oldLo (.create gen addr) none (.create gen expdLo) (.create gen dataLo) none
  | .CAS oldHi oldLo addr (some expdHi) expdLo (some dataHi) dataLo =>
      cas oldHi oldLo (.create gen addr) (some (.create gen expdHi)) (.create gen expdLo)
        (.create gen dataLo) (some (.create gen dataHi))
  | .CAS _ _ _ (some _) _ none _ => abort .missingArg
  | .LLSC result addr storedata =>
      llsc result (.create gen addr) (storedata.map (VexExpr.create gen))
  | .Dirty cee guard tmp args =>
      match gen.helpers cee with
      | none => abort (.noHelper cee)
      | some sig => dirty cee sig (.create gen guard) tmp (args.map (VexExpr.create gen))
  | .MBE => mbe
  | .Exit guard dst jk =>
      match exitTypeOf jk with
      | none => abort (.assertion "Unexpected Boring JumpKind")
      | some t => exit (.create gen guard) jk t (exitDst dst)

def unhandled : IRStmt → ℕ
  | .NoOp | .IMark _ _ | .AbiHint | .MBE => 0
  | .Put _ data => VexExpr.unhandled data
  | .PutI _ ix _ data => VexExpr.unhandled ix + VexExpr.unhandled data
  | .WrTmp _ data => VexExpr.unhandled data
  | .Store _ addr data => VexExpr.unhandled addr + VexExpr.unhandled data
  | .StoreG _ addr data guard =>
      VexExpr.unhandled addr + VexExpr.unhandled data + VexExpr.unhandled guard
  | .LoadG _ _ _ addr alt guard =>
      VexExpr.unhandled addr + VexExpr.unhandled alt + VexExpr.unhandled guard
  | .CAS _ _ addr none expdLo _ dataLo =>
      VexExpr.unhandled addr + VexExpr.unhandled expdLo + VexExpr.unhandled dataLo
  | .CAS _ _ addr (some expdHi) expdLo dataHi dataLo =>
      VexExpr.unhandled addr + VexExpr.unhandled expdHi + VexExpr.unhandled expdLo +
        VexExpr.unhandled dataLo + (dataHi.map VexExpr.unhandled).getD 0
  | .LLSC _ addr storedata =>
      VexExpr.unhandled addr + (storedata.map VexExpr.unhandled).getD 0
  | .Dirty _ guard _ args => VexExpr.unhandled guard + (args.map VexExpr.unhandled).sum
  | .Exit guard _ _ => VexExpr.unhandled guard

def regType (types : List IRType) (tmp : IRTemp) : EmitM Ty := llvmTy (types.getD tmp .I1)

def getLinked : Value := constInt 1 1

def emitLLSC (gen : GenLLVM) (types : List IRType) (result : IRTemp) (addr : VexExpr) :
    Option VexExpr → EmitM Unit
  | none => do
      let a ← addr.emit gen
      let t ← regType types result
      let v ← gen.load a t
      setRegValue result v
  | some data => do
      ifThen (pure getLinked) do
        let a ← addr.emit gen
        let d ← data.emit gen
        gen.store a d
      setRegValue result getLinked

/-- The second half of a double compare-and-swap: the expected value, the
address and the value loaded. -/
def emitCASHi (gen : GenLLVM) (a : Value) (t : Ty) (expectedHi : VexExpr) :
    EmitM (Value × Value × Value) := do
  let e ← expectedHi.emit gen
  let a ← code (createBin .add a (constInt a.ty.bits (t.bits / 8)))
  let l ← gen.load a t
  pure (e, a, l)

/-- `VexStmtCAS::emit`. The high word is compared when there is one, and the
low data is stored into both words. -/
def emitCAS (gen : GenLLVM) (oldHi : Option IRTemp) (oldLo : IRTemp) (addr : VexExpr)
    (expectedHi : Option VexExpr) (expected new : VexExpr) : EmitM Unit := do
  let a ← addr.emit gen
  let e ← expected.emit gen
  let l ← gen.load a e.ty
  let hi ←
    match expectedHi with
    | none => pure none
    | some eh => some <$> emitCASHi gen a e.ty eh
  ifThen
    (code do
      let cmp ← createICmp .eq e l
      match hi with
      | none => pure cmp
      | some (eh, _, lh) => do
          let c ← createICmp .eq eh lh
          createICmp .eq cmp c)
    (do
      let n ← new.emit gen
      gen.store a n
      match hi with
      | none => pure ()
      | some (_, ah, _) => do
          let n ← new.emit gen
          gen.store ah n)
  setRegValue oldLo l
  match hi, oldHi with
  | some (_, _, lh), some t => setRegValue t lh
  | some _, none => throw (.assertion "values[IRTemp_INVALID]")
  | none, _ => pure ()

/-- The guard value for which no branch is emitted: `isOneValue`. -/
def isOneValue (v : Value) : Bool :=
  match v with
  | .const _ n => n == 1
  | _ => false

/-- The result of a dirty call, cast to the width of its temporary. -/
def castResult (call : Value) (ret tmp : Ty) : OpCode :=
  if ret.bits < tmp.bits then do
    let r ← createBitCast call (.int ret.bits)
    createZExt r tmp
  else if tmp.bits < ret.bits then do
    let r ← createBitCast call (.int ret.bits)
    createTrunc r tmp
  else pure call

/-- The call of a dirty helper, its first argument cast to the pointer type of
the first parameter, and its temporary set. -/
def emitDirtyCall (gen : GenLLVM) (types : List IRType) (f : String) (sig : FnTy)
    (tmp : Option IRTemp) (args : List VexExpr) : EmitM Unit := do
  let vs ← emitAll (args.map fun e => e.emit gen)
  match vs, sig.params with
  | v :: vs, p :: _ => do
      let v ← code (createBitCast v p)
      let call ← code (createCall f sig (v :: vs))
      match tmp with
      | none => pure ()
      | some t => do
          let tmpType ← regType types t
          let r ← code (castResult call sig.ret tmpType)
          setRegValue t r
  | _, _ => throw (.assertion "args_v[0]")

def emitDirty (gen : GenLLVM) (types : List IRType) (f : String) (sig : FnTy)
    (guard : VexExpr) (tmp : Option IRTemp) (args : List VexExpr) : EmitM Unit := do
  let c ← guard.emit gen
  if isOneValue c then emitDirtyCall gen types f sig tmp args
  else ifThen (pure c) (emitDirtyCall gen types f sig tmp args)

def emitExit (gen : GenLLVM) (guard : VexExpr) (jk : IRJumpKind) (exitType : GuestExitType)
    (dst : BitVec 64) : EmitM Unit := do
  let bbThen ← createBlock
  let bbElse ← createBlock
  let c ← guard.emit gen
  endBlock (.condBr c bbThen bbElse) bbThen
  if jk ≠ .Boring then gen.setExitType exitType.code
  endBlock (.ret (constInt 64 dst.toNat)) bbElse

def loadGTy : IRLoadGOp → Option (Ty × Option CastOp)
  | .Ident32 => some (.int 32, none)
  | .IdentV128 => some (.vec 16 (.int 8), none)
  | ._8Sto32 => some (.int 8, some .sext)
  | ._8Uto32 => some (.int 8, some .zext)
  | ._16Uto32 => some (.int 16, some .zext)
  | ._16Sto32 => some (.int 16, some .sext)
  | .invalid | .Ident64 => none

def emitLoadG (gen : GenLLVM) (cvt : IRLoadGOp) (dst : IRTemp) (addr alt guard : VexExpr) :
    EmitM Unit := do
  let g ← guard.emit gen
  let a ← addr.emit gen
  let altV ← alt.emit gen
  let ((c, bbThen), (_, bbAlt)) ←
    ifThenElse false (pure g)
      (match loadGTy cvt with
      | none => throw (.assertion "Unknown IRLoadGOp")
      | some (t, none) => gen.load a t
      | some (t, some k) => do
          let v ← gen.load a t
          code (createCast k v (.int 32)))
      (pure altV)
  let pn ← code (LLVM.Code.create (.phi c.ty [(c, bbThen), (altV, bbAlt)]))
  setRegValue dst pn

def emit (gen : GenLLVM) (types : List IRType) : VexStmt → EmitM Unit
  | abort e => throw e
  | noOp | imark _ _ | abiHint => pure ()
  | put offset data => do
      let v ← data.emit gen
      gen.writeCtx offset v
  | putI base len ix bias data => do
      let v ← data.emit gen
      let i ← ix.emit gen
      gen.writeCtxI base bias len i v
  | wrTmp tmp data => do
      let v ← data.emit gen
      setRegValue tmp v
  | store addr data => do
      let d ← data.emit gen
      let a ← addr.emit gen
      gen.store a d
  | llsc result addr data => emitLLSC gen types result addr data
  | cas oldHi oldLo addr expectedHi expected new _ =>
      emitCAS gen oldHi oldLo addr expectedHi expected new
  | dirty f sig guard tmp args => emitDirty gen types f sig guard tmp args
  | mbe => do
      let _ ← code (LLVM.Code.create .fence)
  | exit guard jk exitType dst => emitExit gen guard jk exitType dst
  | storeG addr data guard => do
      let g ← guard.emit gen
      ifThen (pure g) do
        let a ← addr.emit gen
        let d ← data.emit gen
        gen.store a d
  | loadG cvt dst addr alt guard => emitLoadG gen cvt dst addr alt guard

end VexStmt

end VexLLVM
