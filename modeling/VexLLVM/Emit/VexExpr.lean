import VexLLVM.Emit.GenLLVM

/-!
# Expressions

`VexExpr`: the expression objects `VexExpr::create` builds from the decoder's
trees, and what they emit. An object whose construction ends the process is
kept as `abort`, so that building an object is a function of its tree; the
count of unknown operations is taken from the tree as well.
-/

namespace VexLLVM

open LLVM LLVM.Code Vex

inductive VexExpr where
  /-- The null pointer. -/
  | null
  /-- An object of a base class, for an unknown operation. -/
  | stub (n : ℕ) (args : Fin n → VexExpr)
  | abort (e : EmitError)
  | get (offset : ℕ) (ty : IRType)
  | getI (base : ℕ) (len : ℕ) (elemType : IRType) (ix : VexExpr) (bias : ℤ)
  | rdTmp (tmp : IRTemp)
  | nary (op : Iop) (args : Fin op.tagop → VexExpr)
  | load (ty : IRType) (addr : VexExpr)
  | const (con : IRConst)
  | ccall (f : String) (sig : FnTy) (n : ℕ) (args : Fin n → VexExpr)
  | gsptr
  | mux0X (cond expr0 exprX : VexExpr)

namespace VexExpr

def createConst : IRConst → VexExpr
  | .F32 _ => abort (.assertion "bad const tag")
  | .F32i _ => abort (.assertion "bad const tag")
  | c => const c

/-- `VexExpr::create` and `VexExprNaryOp::createOp`. -/
def create (gen : GenLLVM) : IRExpr → VexExpr
  | .Binder _ => null
  | .Get offset ty => get offset ty
  | .GetI descr ix bias => getI descr.base descr.nElems descr.elemTy (create gen ix) bias
  | .RdTmp tmp => rdTmp tmp
  | .Nary tag (.iop op) args =>
      -- the class reads as many operands as it was declared with
      nary op fun i => if h : i.1 < tag.arity then create gen (args ⟨i.1, h⟩) else abort .missingArg
  | .Nary tag (.unknown _) args => stub tag.arity fun i => create gen (args i)
  | .Load .LE ty addr => load ty (create gen addr)
  | .Load .BE _ _ => abort (.assertion "little_endian")
  | .Const con => createConst con
  | .CCall cee _ n args =>
      match gen.helpers cee with
      | some sig => ccall cee sig n fun i => create gen (args i)
      | none => abort (.noHelper cee)
  | .ITE cond iftrue iffalse => mux0X (create gen cond) (create gen iffalse) (create gen iftrue)
  | .VECRET => null
  | .GSPTR => gsptr

def unhandled : IRExpr → ℕ
  | .GetI _ ix _ => unhandled ix
  | .Nary tag (.iop op) args =>
      ((List.finRange tag.arity).map fun i =>
        if i.1 < op.tagop then unhandled (args i) else 0).sum
  | .Nary tag (.unknown _) args =>
      ((List.finRange tag.arity).map fun i => unhandled (args i)).sum + 1
  | .Load _ _ addr => unhandled addr
  | .CCall _ _ n args => ((List.finRange n).map fun i => unhandled (args i)).sum
  | .ITE cond iftrue iffalse => unhandled cond + unhandled iffalse + unhandled iftrue
  | _ => 0

/-- `bitmask8_to_bytemask64`, for any number of mask bits. -/
def bytemask (n mask : ℕ) : ℕ :=
  ofLanes 8 ((List.range n).map fun i => if mask.testBit i then 0xFF else 0)

def maskConst (n mask : ℕ) : Value := .const (.vec (n / 8) (.int 64)) (bytemask n mask)

def emitConst : IRConst → OpCode
  | .U1 b => pure (constInt 1 b.toNat)
  | .U8 v => pure (constInt 8 v.toNat)
  | .U16 v => pure (constInt 16 v.toNat)
  | .U32 v => pure (constInt 32 v.toNat)
  | .U64 v => pure (constInt 64 v.toNat)
  | .F32 _ => .fail .stub
  | .F32i _ => .fail .stub
  | .F64 v => pure (.const .double v.toNat)
  | .F64i v => pure (.const .double v.toNat)
  | .V128 mask => createBitCast (maskConst 16 mask.toNat) (.vec 16 (.int 8))
  | .V256 mask => createBitCast (maskConst 32 mask.toNat) (.vec 32 (.int 8))

/-- `flattenType`: a vector of at most 64 bits as an integer. -/
def flattenType (v : Value) : OpCode :=
  match v.ty with
  | .vec n s => if 64 < n * s.bits then pure v else createBitCast v (.int (n * s.bits))
  | _ => pure v

/-- The comparison `VexExprMux0X::emit` branches on. -/
def muxCond (cmp : Value) : OpCode := createICmp .eq cmp (constInt cmp.ty.bits 0)

def emit (gen : GenLLVM) : VexExpr → EmitM Value
  | null => throw .nullExpr
  | stub _ _ => throw .stub
  | abort e => throw e
  | get offset ty => gen.readCtx offset ty
  | getI base len elemType ix bias => do
      let ix ← emit gen ix
      let elemType ← llvmTy elemType
      gen.readCtxI base bias len ix elemType
  | rdTmp tmp => getRegValue tmp
  | nary op args => do
      let vs ← emitAll (List.ofFn fun i => emit gen (args i))
      code ((opEmit gen.fp op).build gen.helpers vs)
  | load ty addr => do
      let addr ← emit gen addr
      gen.loadVex addr ty
  | const con => code (emitConst con)
  | ccall f sig _ args => do
      let vs ← emitAll (List.ofFn fun i => emit gen (args i))
      code (createCall f sig vs)
  | gsptr => pure gen.curGuestCtx
  | mux0X cond expr0 exprX => do
      let ((nonzero, bbNz), (zero, bbZ)) ←
        ifThenElse true
          (do let cmp ← emit gen cond; code (muxCond cmp))
          (do let v ← emit gen exprX; code (flattenType v))
          (do let v ← emit gen expr0; code (flattenType v))
      code (LLVM.Code.create (.phi zero.ty [(zero, bbZ), (nonzero, bbNz)]))

end VexExpr

end VexLLVM
