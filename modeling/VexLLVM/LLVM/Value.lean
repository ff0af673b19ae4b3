import VexLLVM.LLVM.Type
import Mathlib.Data.Nat.Notation

/-!
# LLVM values and instructions

A value is a constant, a function argument or the result of an instruction; it
carries its type, as `llvm::Value` does. Instructions are the ones a block
builder inserts, in the order of their operands.
-/

namespace LLVM

inductive Value where
  | const (ty : Ty) (bits : ℕ)
  | undef (ty : Ty)
  | arg (i : ℕ) (ty : Ty)
  | inst (id : ℕ) (ty : Ty)
  deriving DecidableEq, Repr

namespace Value

def ty : Value → Ty
  | const t _ => t
  | undef t => t
  | arg _ t => t
  | inst _ t => t

/-- `isa<Constant>`. -/
def isConst : Value → Bool
  | const _ _ => true
  | undef _ => true
  | _ => false

@[simp] theorem ty_const (t : Ty) (n : ℕ) : (const t n).ty = t := rfl

@[simp] theorem ty_undef (t : Ty) : (undef t).ty = t := rfl

@[simp] theorem ty_arg (i : ℕ) (t : Ty) : (arg i t).ty = t := rfl

@[simp] theorem ty_inst (i : ℕ) (t : Ty) : (inst i t).ty = t := rfl

end Value

def constInt (w v : ℕ) : Value := .const (.int w) (v % 2 ^ w)

@[simp] theorem ty_constInt (w v : ℕ) : (constInt w v).ty = .int w := rfl

inductive BinOp where
  | add | sub | mul | udiv | sdiv | urem | srem
  | shl | lshr | ashr | and | or | xor
  | fadd | fsub | fmul | fdiv | frem
  deriving DecidableEq, Repr

def BinOp.isFP : BinOp → Bool
  | .fadd | .fsub | .fmul | .fdiv | .frem => true
  | _ => false

inductive IPred where
  | eq | ne | ugt | uge | ult | ule | sgt | sge | slt | sle
  deriving DecidableEq, Repr

inductive FPred where
  | oeq | olt | ole | ogt | oge | ult | ugt | uno
  deriving DecidableEq, Repr

inductive CastOp where
  | trunc | zext | sext | bitcast
  | fptrunc | fpext | sitofp | uitofp | fptosi
  | inttoptr
  deriving DecidableEq, Repr

structure FnTy where
  params : List Ty
  ret : Ty
  deriving DecidableEq, Repr

inductive Inst where
  | bin (o : BinOp) (a b : Value)
  | icmp (p : IPred) (a b : Value)
  | fcmp (p : FPred) (a b : Value)
  | cast (k : CastOp) (v : Value) (t : Ty)
  | select (c a b : Value)
  | extractelement (v i : Value)
  | insertelement (v e i : Value)
  | shufflevector (a b : Value) (mask : List ℕ)
  | insertvalue (agg v : Value) (i : ℕ)
  | gep (base idx : Value)
  | load (p : Value) (align : ℕ)
  | store (v p : Value) (align : ℕ)
  | call (f : String) (sig : FnTy) (args : List Value)
  | phi (t : Ty) (incoming : List (Value × ℕ))
  | fence
  deriving Repr

namespace Inst

def ty : Inst → Ty
  | bin _ a _ => a.ty
  | icmp _ a _ => a.ty.cmpResult
  | fcmp _ a _ => a.ty.cmpResult
  | cast _ _ t => t
  | select _ a _ => a.ty
  | extractelement v _ =>
      match v.ty with
      | .vec _ s => .scalar s
      | t => t
  | insertelement v _ _ => v.ty
  | shufflevector a _ mask =>
      match a.ty with
      | .vec _ s => .vec mask.length s
      | t => t
  | insertvalue agg _ _ => agg.ty
  | gep base _ => base.ty
  | load p _ =>
      match p.ty with
      | .ptr t => t
      | t => t
  | store _ _ _ => .void
  | call _ sig _ => sig.ret
  | phi t _ => t
  | fence => .void

/-- The values an instruction reads in the block it stands in. A phi reads its
incoming values at the end of the incoming blocks instead. -/
def operands : Inst → List Value
  | bin _ a b => [a, b]
  | icmp _ a b => [a, b]
  | fcmp _ a b => [a, b]
  | cast _ v _ => [v]
  | select c a b => [c, a, b]
  | extractelement v i => [v, i]
  | insertelement v e i => [v, e, i]
  | shufflevector a b _ => [a, b]
  | insertvalue agg v _ => [agg, v]
  | gep base idx => [base, idx]
  | load p _ => [p]
  | store v p _ => [v, p]
  | call _ _ args => args
  | phi _ _ => []
  | fence => []

def isStore : Inst → Bool
  | store _ _ _ => true
  | _ => false

def incoming : Inst → List (Value × ℕ)
  | phi _ inc => inc
  | _ => []

end Inst

inductive Term where
  | br (t : ℕ)
  | condBr (c : Value) (t f : ℕ)
  | ret (v : Value)
  deriving Repr

def Term.succs : Term → List ℕ
  | .br t => [t]
  | .condBr _ t f => [t, f]
  | .ret _ => []

def Term.operands : Term → List Value
  | .br _ => []
  | .condBr c _ _ => [c]
  | .ret v => [v]

structure Block where
  insts : List (ℕ × Inst)
  term : Option Term
  deriving Repr

/-- A function: block `0` is the entry. -/
structure Func where
  nblocks : ℕ
  blocks : ℕ → Block

end LLVM
