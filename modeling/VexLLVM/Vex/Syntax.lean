import VexLLVM.Vex.Op
import Mathlib.Data.BitVec
import Mathlib.Data.Fin.VecNotation

/-!
# VEX superblocks

The intermediate representation as the decoder hands it over: expression trees
of any depth, statements, and a superblock with its types and its jump.
-/

namespace Vex

inductive IRType where
  | I1 | I8 | I16 | I32 | I64 | I128
  | F16 | F32 | F64 | D32 | D64 | D128 | F128 | V128 | V256
  deriving DecidableEq, Repr

namespace IRType

def bits : IRType → ℕ
  | I1 => 1
  | I8 => 8
  | I16 => 16
  | I32 => 32
  | I64 => 64
  | I128 => 128
  | F16 => 16
  | F32 => 32
  | F64 => 64
  | D32 => 32
  | D64 => 64
  | D128 => 128
  | F128 => 128
  | V128 => 128
  | V256 => 256

def isInt : IRType → Bool
  | I1 | I8 | I16 | I32 | I64 | I128 => true
  | _ => false

end IRType

/-- `IRConst`, floating-point constants by their bits. -/
inductive IRConst where
  | U1 (b : Bool)
  | U8 (v : BitVec 8)
  | U16 (v : BitVec 16)
  | U32 (v : BitVec 32)
  | U64 (v : BitVec 64)
  | F32 (v : BitVec 32)
  | F32i (v : BitVec 32)
  | F64 (v : BitVec 64)
  | F64i (v : BitVec 64)
  | V128 (mask : BitVec 16)
  | V256 (mask : BitVec 32)
  deriving DecidableEq, Repr

def IRConst.ty : IRConst → IRType
  | U1 _ => .I1
  | U8 _ => .I8
  | U16 _ => .I16
  | U32 _ => .I32
  | U64 _ => .I64
  | F32 _ | F32i _ => .F32
  | F64 _ | F64i _ => .F64
  | V128 _ => .V128
  | V256 _ => .V256

inductive IREndness where
  | LE
  | BE
  deriving DecidableEq, Repr

/-- `IRJumpKind`: the kinds the translator names, and the others. -/
inductive IRJumpKind where
  | Boring | Call | Ret | ClientReq | Yield | EmWarn | NoDecode | MapFail | NoRedir
  | SigTRAP | SigSEGV | Sys_syscall | Sys_int128 | Sys_sysenter
  | other (code : ℕ)
  deriving DecidableEq, Repr

inductive IRLoadGOp where
  | invalid | IdentV128 | Ident64 | Ident32
  | _16Uto32 | _16Sto32 | _8Uto32 | _8Sto32
  deriving DecidableEq, Repr

/-- `IRRegArray`: a circular array of registers. -/
structure IRRegArray where
  base : ℕ
  elemTy : IRType
  nElems : ℕ
  deriving DecidableEq, Repr

inductive NaryTag where
  | Unop | Binop | Triop | Qop
  deriving DecidableEq, Repr

def NaryTag.arity : NaryTag → ℕ
  | Unop => 1
  | Binop => 2
  | Triop => 3
  | Qop => 4

abbrev IRTemp := ℕ

inductive IRExpr where
  | Binder (n : ℕ)
  | Get (offset : ℕ) (ty : IRType)
  | GetI (descr : IRRegArray) (ix : IRExpr) (bias : ℤ)
  | RdTmp (tmp : IRTemp)
  | Nary (tag : NaryTag) (op : IROp) (args : Fin tag.arity → IRExpr)
  | Load (e : IREndness) (ty : IRType) (addr : IRExpr)
  | Const (con : IRConst)
  | CCall (cee : String) (retty : IRType) (n : ℕ) (args : Fin n → IRExpr)
  | ITE (cond iftrue iffalse : IRExpr)
  | VECRET
  | GSPTR

inductive IRStmt where
  | NoOp
  | IMark (addr : BitVec 64) (len : ℕ)
  | AbiHint
  | Put (offset : ℕ) (data : IRExpr)
  | PutI (descr : IRRegArray) (ix : IRExpr) (bias : ℤ) (data : IRExpr)
  | WrTmp (tmp : IRTemp) (data : IRExpr)
  | Store (e : IREndness) (addr data : IRExpr)
  | StoreG (e : IREndness) (addr data guard : IRExpr)
  | LoadG (e : IREndness) (cvt : IRLoadGOp) (dst : IRTemp) (addr alt guard : IRExpr)
  | CAS (oldHi : Option IRTemp) (oldLo : IRTemp) (addr : IRExpr)
      (expdHi : Option IRExpr) (expdLo : IRExpr) (dataHi : Option IRExpr) (dataLo : IRExpr)
  | LLSC (result : IRTemp) (addr : IRExpr) (storedata : Option IRExpr)
  | Dirty (cee : String) (guard : IRExpr) (tmp : Option IRTemp) (args : List IRExpr)
  | MBE
  | Exit (guard : IRExpr) (dst : IRConst) (jk : IRJumpKind)

structure IRSB where
  types : List IRType
  stmts : List IRStmt
  next : IRExpr
  jumpkind : IRJumpKind

end Vex
