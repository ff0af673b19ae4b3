import VexLLVM.LLVM.Value

/-!
# When an instruction is well formed

The typing rules the IR verifier enforces, instruction by instruction: equal
operand types for arithmetic and comparisons, and the legal casts.
-/

namespace LLVM

/-- Same shape: two scalars, or two vectors of as many lanes. -/
def Ty.sameShape : Ty → Ty → Bool
  | .scalar _, .scalar _ => true
  | .vec n _, .vec m _ => n == m
  | _, _ => false

def CastOp.elemOk : CastOp → Scalar → Scalar → Bool
  | .trunc, .int w, .int w' => decide (w' < w)
  | .zext, .int w, .int w' => decide (w < w')
  | .sext, .int w, .int w' => decide (w < w')
  | .fptrunc, .double, .float => true
  | .fpext, .float, .double => true
  | .sitofp, .int _, s => !s.isInt
  | .uitofp, .int _, s => !s.isInt
  | .fptosi, s, .int _ => !s.isInt
  | _, _, _ => false

/-- The cast `k` from the type `s` to the type `t` is legal. A bitcast needs
equal widths, or two pointers. -/
def CastOp.ok (k : CastOp) (s t : Ty) : Bool :=
  match k, s, t with
  | .bitcast, .ptr _, .ptr _ => true
  | .bitcast, s, t => s.elem?.isSome && t.elem?.isSome && s.bits == t.bits
  | .inttoptr, .scalar (.int _), .ptr _ => true
  | k, s, t =>
      s.sameShape t &&
        match s.elem?, t.elem? with
        | some a, some b => k.elemOk a b
        | _, _ => false

/-- The builder call for a cast is legal: it is one, or the types are equal. -/
def castOk (k : CastOp) (s t : Ty) : Bool := s == t || k.ok s t

def BinOp.okAt (o : BinOp) (t : Ty) : Bool := if o.isFP then t.isFPOrFPVector else t.isIntOrIntVector

def Ty.field? : Ty → ℕ → Option Ty
  | .field t _, 0 => some t
  | .field _ rest, i + 1 => rest.field? i
  | _, _ => none

@[simp] theorem isIntOrIntVector_int (w : ℕ) : (Ty.int w).isIntOrIntVector = true := rfl

@[simp] theorem isIntOrIntVector_vec (n w : ℕ) : (Ty.vec n (.int w)).isIntOrIntVector = true :=
  rfl

theorem BinOp.okAt_of_isFP {o : BinOp} {t : Ty} (ho : o.isFP = false)
    (ht : t.isIntOrIntVector = true) : o.okAt t = true := by
  simp [okAt, ho, ht]

@[simp] theorem castOk_self (k : CastOp) (t : Ty) : castOk k t t = true := by simp [castOk]

theorem castOk_bitcast_vec (n w : ℕ) (s : Scalar) (h : w = n * s.bits) :
    castOk .bitcast (.int w) (.vec n s) = true := by
  simp [castOk, CastOp.ok, Ty.elem?, Ty.bits, Scalar.bits, h]

theorem castOk_bitcast_int (n w : ℕ) (s : Scalar) (h : w = n * s.bits) :
    castOk .bitcast (.vec n s) (.int w) = true := by
  simp [castOk, CastOp.ok, Ty.elem?, Ty.bits, Scalar.bits, h]

theorem castOk_bitcast_scalar (w : ℕ) (s : Scalar) (h : w = s.bits) :
    castOk .bitcast (.int w) (.scalar s) = true := by
  simp [castOk, CastOp.ok, Ty.elem?, Ty.bits, Scalar.bits, h]

namespace Inst

def WF : Inst → Bool
  | bin o a b => a.ty == b.ty && o.okAt a.ty
  | icmp _ a b => a.ty == b.ty && a.ty.isIntOrIntVector
  | fcmp _ a b => a.ty == b.ty && a.ty.isFPOrFPVector
  | cast k v t => k.ok v.ty t
  | select c a b => c.ty == .int 1 && a.ty == b.ty
  | extractelement v i => v.ty.lanes?.isSome && i.ty.isIntOrIntVector
  | insertelement v e i =>
      match v.ty with
      | .vec _ s => e.ty == .scalar s && i.ty.isIntOrIntVector
      | _ => false
  | shufflevector a b mask =>
      match a.ty with
      | .vec n _ => a.ty == b.ty && mask.all fun i => decide (i < 2 * n)
      | _ => false
  | insertvalue agg v i => agg.ty.field? i == some v.ty
  | gep base idx =>
      match base.ty with
      | .ptr _ => idx.ty.isIntOrIntVector
      | _ => false
  | load p _ =>
      match p.ty with
      | .ptr _ => true
      | _ => false
  | store v p _ => p.ty == .ptr v.ty
  | call _ sig args => sig.params == args.map Value.ty
  | phi t inc => inc.all fun p => p.1.ty == t
  | fence => true

def phiOK (i : Inst) : Bool := i.incoming.all fun p => p.1.ty == i.ty

theorem phiOK_of_incoming {i : Inst} (h : i.incoming = []) : i.phiOK = true := by
  simp [phiOK, h]

/-- A cast to the type its operand already has, which the builder does not
insert: the operand is handed back. -/
def sameTypeCast? : Inst → Option Value
  | cast _ v t => if v.ty = t then some v else none
  | _ => none

/-- The builder call for `i` is legal: the instruction it would insert is well
formed, or it inserts none. -/
def createOk (i : Inst) : Bool := i.sameTypeCast?.isSome || i.WF

theorem createOk_cast (k : CastOp) (v : Value) (t : Ty) :
    (cast k v t).createOk = castOk k v.ty t := by
  unfold createOk castOk sameTypeCast?
  by_cases h : v.ty = t <;> simp [h, WF]

theorem sameTypeCast?_eq_some {i : Inst} {v : Value} (h : i.sameTypeCast? = some v) :
    i.operands = [v] ∧ v.ty = i.ty := by
  cases i <;> simp only [sameTypeCast?, reduceCtorEq] at h
  split at h
  · next heq =>
      cases h
      exact ⟨rfl, heq⟩
  · cases h

end Inst

end LLVM
