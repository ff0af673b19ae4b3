import Mathlib.Data.BitVec
import Mathlib.Algebra.BigOperators.Group.List.Basic
import Mathlib.Data.Nat.Notation
import Mathlib.Tactic.TypeStar

/-!
# LLVM types

Scalars, vectors of scalars, typed pointers and struct types, with the widths
the instruction set reads off them. A struct type is a chain of fields, so that
types stay a single inductive family with decidable equality.
-/

namespace LLVM

inductive Scalar where
  | int (w : ℕ)
  | float
  | double
  deriving DecidableEq, Repr

namespace Scalar

def bits : Scalar → ℕ
  | int w => w
  | float => 32
  | double => 64

def isInt : Scalar → Bool
  | int _ => true
  | _ => false

end Scalar

inductive Ty where
  | scalar (s : Scalar)
  | vec (n : ℕ) (s : Scalar)
  | ptr (pointee : Ty)
  | void
  | emptyStruct
  | field (t rest : Ty)
  deriving DecidableEq, Repr

namespace Ty

@[match_pattern] abbrev int (w : ℕ) : Ty := .scalar (.int w)

@[match_pattern] abbrev float : Ty := .scalar .float

@[match_pattern] abbrev double : Ty := .scalar .double

/-- `getPrimitiveSizeInBits`: zero for pointers and aggregates. -/
def bits : Ty → ℕ
  | scalar s => s.bits
  | vec n s => n * s.bits
  | _ => 0

def bytes (t : Ty) : ℕ := t.bits / 8

/-- The element type: a scalar is its own. -/
def elem? : Ty → Option Scalar
  | scalar s => some s
  | vec _ s => some s
  | _ => none

/-- The number of lanes, `none` for a type that is not a vector. -/
def lanes? : Ty → Option ℕ
  | vec n _ => some n
  | _ => none

def isIntOrIntVector (t : Ty) : Bool := t.elem?.any Scalar.isInt

def isFPOrFPVector (t : Ty) : Bool := t.elem?.any fun s => !s.isInt

/-- The type with the same shape (scalar, or vector of as many lanes) over the
element type `s`. -/
def withElem : Ty → Scalar → Ty
  | vec n _, s => vec n s
  | _, s => scalar s

def cmpResult (t : Ty) : Ty := t.withElem (.int 1)

@[simp] theorem bits_int (w : ℕ) : (int w).bits = w := rfl

@[simp] theorem bits_vec_int (n w : ℕ) : (vec n (.int w)).bits = n * w := rfl

@[simp] theorem bits_ptr (t : Ty) : (ptr t).bits = 0 := rfl

end Ty

end LLVM
