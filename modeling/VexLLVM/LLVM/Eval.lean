import VexLLVM.LLVM.Value
import Mathlib.Data.Option.Basic
import Mathlib.Data.List.Basic

/-!
# What instructions compute

First-class values are read as bit patterns: an `n`-lane vector is the number
whose lane `i` occupies the bits `[i * w, (i + 1) * w)`, so a bitcast is the
identity. Pointers into guest memory are numbers too; the two pointer arguments
of a function address regions of their own and stay symbolic.

Floating-point arithmetic is left without a meaning here: an instruction that
performs it is typed and placed like any other but does not evaluate. When a
function runs, its value is up to the host.
-/

namespace LLVM

inductive RVal where
  | bits (n : ℕ)
  | ctxPtr (off : BitVec 64)
  | logPtr
  | agg (fields : List ℕ)
  deriving DecidableEq, Repr

def RVal.bits? : RVal → Option ℕ
  | .bits n => some n
  | _ => none

def lane (w i x : ℕ) : ℕ := x / 2 ^ (w * i) % 2 ^ w

def ofLanes (w : ℕ) : List ℕ → ℕ
  | [] => 0
  | x :: xs => x % 2 ^ w + 2 ^ w * ofLanes w xs

def lanesOf (n w x : ℕ) : List ℕ := (List.range n).map fun i => lane w i x

namespace BinOp

/-- A binary operation on `w`-bit integers. Division by zero, an overflowing
signed division and an overlong shift have no result. -/
def eval (o : BinOp) (w x y : ℕ) : Option ℕ :=
  let a := BitVec.ofNat w x
  let b := BitVec.ofNat w y
  match o with
  | add => some (a + b).toNat
  | sub => some (a - b).toNat
  | mul => some (a * b).toNat
  | udiv => if b = 0 then none else some (a / b).toNat
  | urem => if b = 0 then none else some (a % b).toNat
  | sdiv =>
      if b = 0 ∨ a = BitVec.intMin w ∧ b = -1 then none else some (a.sdiv b).toNat
  | srem =>
      if b = 0 ∨ a = BitVec.intMin w ∧ b = -1 then none else some (a.srem b).toNat
  | shl => if b.toNat < w then some (a <<< b.toNat).toNat else none
  | lshr => if b.toNat < w then some (a >>> b.toNat).toNat else none
  | ashr => if b.toNat < w then some (a.sshiftRight b.toNat).toNat else none
  | and => some (a &&& b).toNat
  | or => some (a ||| b).toNat
  | xor => some (a ^^^ b).toNat
  | _ => none

end BinOp

def IPred.eval (p : IPred) (w x y : ℕ) : Bool :=
  let a := BitVec.ofNat w x
  let b := BitVec.ofNat w y
  match p with
  | .eq => a == b
  | .ne => a != b
  | .ugt => b.ult a
  | .uge => b.ule a
  | .ult => a.ult b
  | .ule => a.ule b
  | .sgt => b.slt a
  | .sge => b.sle a
  | .slt => a.slt b
  | .sle => a.sle b

def CastOp.evalElem (k : CastOp) (s t : Scalar) (x : ℕ) : Option ℕ :=
  match k, s, t with
  | .trunc, .int _, .int w' => some (x % 2 ^ w')
  | .zext, .int _, .int _ => some x
  | .sext, .int w, .int w' => some ((BitVec.ofNat w x).signExtend w').toNat
  | _, _, _ => none

/-- Apply `f` to corresponding lanes and put the `w'`-bit results together. -/
def mapLanes₂ (n w w' : ℕ) (f : ℕ → ℕ → Option ℕ) (x y : ℕ) : Option ℕ :=
  ((List.range n).mapM fun i => f (lane w i x) (lane w i y)).map (ofLanes w')

def mapLanes (n w w' : ℕ) (f : ℕ → Option ℕ) (x : ℕ) : Option ℕ :=
  ((List.range n).mapM fun i => f (lane w i x)).map (ofLanes w')

namespace Inst

def evalBin (o : BinOp) (t : Ty) (x y : ℕ) : Option ℕ :=
  match t with
  | .int w => o.eval w x y
  | .vec n (.int w) => mapLanes₂ n w w (o.eval w) x y
  | _ => none

def evalIcmp (p : IPred) (t : Ty) (x y : ℕ) : Option ℕ :=
  match t with
  | .int w => some (p.eval w x y).toNat
  | .vec n (.int w) => mapLanes₂ n w 1 (fun a b => some (p.eval w a b).toNat) x y
  | _ => none

def evalCast (k : CastOp) (s t : Ty) (v : RVal) : Option RVal :=
  match k, v with
  | .bitcast, v => some v
  | .inttoptr, .bits x => some (.bits x)
  | k, .bits x =>
      match s, t with
      | .scalar a, .scalar b => (k.evalElem a b x).map .bits
      | .vec n a, .vec _ b => (mapLanes n a.bits b.bits (k.evalElem a b) x).map .bits
      | _, _ => none
  | _, _ => none

def evalExtract (t : Ty) (x i : ℕ) : Option ℕ :=
  match t with
  | .vec n s => if i < n then some (lane s.bits i x) else none
  | _ => none

def evalInsert (t : Ty) (x e i : ℕ) : Option ℕ :=
  match t with
  | .vec n s => if i < n then some (ofLanes s.bits ((lanesOf n s.bits x).set i e)) else none
  | _ => none

def evalShuffle (t : Ty) (x y : ℕ) (mask : List ℕ) : Option ℕ :=
  match t with
  | .vec n s =>
      (mask.mapM fun i =>
        if i < n then some (lane s.bits i x)
        else if i < 2 * n then some (lane s.bits (i - n) y)
        else none).map (ofLanes s.bits)
  | _ => none

/-- A pointer moved by `idx` elements, the index being sign-extended. -/
def evalGep (pt idxTy : Ty) (p : RVal) (idx : ℕ) : Option RVal :=
  match pt, idxTy with
  | .ptr t, .int w =>
      let d := (BitVec.ofNat w idx).signExtend 64 * BitVec.ofNat 64 t.bytes
      match p with
      | .ctxPtr off => some (.ctxPtr (off + d))
      | .bits a => some (.bits (BitVec.ofNat 64 a + d).toNat)
      | _ => none
  | _, _ => none

/-- The value of an instruction that touches neither memory nor control,
where `ev` gives the values of its operands. -/
def eval (ev : Value → Option RVal) : Inst → Option RVal
  | bin o a b =>
      match ev a, ev b with
      | some (.bits x), some (.bits y) => (evalBin o a.ty x y).map .bits
      | _, _ => none
  | icmp p a b =>
      match ev a, ev b with
      | some (.bits x), some (.bits y) => (evalIcmp p a.ty x y).map .bits
      | _, _ => none
  | cast k v t => (ev v).bind (evalCast k v.ty t)
  | select c a b =>
      match ev c with
      | some (.bits x) => if x = 0 then ev b else ev a
      | _ => none
  | extractelement v i =>
      match ev v, ev i with
      | some (.bits x), some (.bits j) => (evalExtract v.ty x j).map .bits
      | _, _ => none
  | insertelement v e i =>
      match ev v, ev e, ev i with
      | some (.bits x), some (.bits y), some (.bits j) => (evalInsert v.ty x y j).map .bits
      | _, _, _ => none
  | shufflevector a b mask =>
      match ev a, ev b with
      | some (.bits x), some (.bits y) => (evalShuffle a.ty x y mask).map .bits
      | _, _ => none
  | insertvalue agg v i =>
      match ev agg, ev v with
      | some (.agg l), some (.bits x) => some (.agg (l.set i x))
      | _, _ => none
  | gep base idx =>
      match ev base, ev idx with
      | some p, some (.bits i) => evalGep base.ty idx.ty p i
      | _, _ => none
  | _ => none

end Inst

def Ty.nfields : Ty → ℕ
  | .field _ rest => rest.nfields + 1
  | _ => 0

def Value.constEval : Value → Option RVal
  | .const _ n => some (.bits n)
  | .undef t => some (.agg (List.replicate t.nfields 0))
  | _ => none

end LLVM
