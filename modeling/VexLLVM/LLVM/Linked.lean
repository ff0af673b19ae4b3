import VexLLVM.LLVM.IRBuilder
import Mathlib.Data.List.Forall2

/-!
# Codes on related operands

Two instructions are linked when they are the same one on related operands. A
congruence relates codes by what they are built of, so that an emitter need be
gone through once to be followed under any of them.
-/

namespace LLVM

/-- The same instruction on operands related by `S`. A phi is entered from the
same blocks. -/
inductive Inst.Linked (S : Value → Value → Prop) : Inst → Inst → Prop
  | bin {a b a' b' : Value} (o : BinOp) (ha : S a a') (hb : S b b') :
      Linked S (.bin o a b) (.bin o a' b')
  | icmp {a b a' b' : Value} (p : IPred) (ha : S a a') (hb : S b b') :
      Linked S (.icmp p a b) (.icmp p a' b')
  | fcmp {a b a' b' : Value} (p : FPred) (ha : S a a') (hb : S b b') :
      Linked S (.fcmp p a b) (.fcmp p a' b')
  | cast {v v' : Value} (k : CastOp) (t : Ty) (hv : S v v') :
      Linked S (.cast k v t) (.cast k v' t)
  | select {c a b c' a' b' : Value} (hc : S c c') (ha : S a a') (hb : S b b') :
      Linked S (.select c a b) (.select c' a' b')
  | extractelement {v i v' i' : Value} (hv : S v v') (hi : S i i') :
      Linked S (.extractelement v i) (.extractelement v' i')
  | insertelement {v e i v' e' i' : Value} (hv : S v v') (he : S e e') (hi : S i i') :
      Linked S (.insertelement v e i) (.insertelement v' e' i')
  | shufflevector {a b a' b' : Value} (mask : List ℕ) (ha : S a a') (hb : S b b') :
      Linked S (.shufflevector a b mask) (.shufflevector a' b' mask)
  | insertvalue {agg v agg' v' : Value} (k : ℕ) (ha : S agg agg') (hv : S v v') :
      Linked S (.insertvalue agg v k) (.insertvalue agg' v' k)
  | gep {p i p' i' : Value} (hp : S p p') (hi : S i i') : Linked S (.gep p i) (.gep p' i')
  | load {p p' : Value} (al : ℕ) (hp : S p p') : Linked S (.load p al) (.load p' al)
  | store {v p v' p' : Value} (al : ℕ) (hv : S v v') (hp : S p p') :
      Linked S (.store v p al) (.store v' p' al)
  | call {args args' : List Value} (f : String) (sig : FnTy) (h : List.Forall₂ S args args') :
      Linked S (.call f sig args) (.call f sig args')
  | phi {inc inc' : List (Value × ℕ)} (t : Ty)
      (h : List.Forall₂ (fun p p' => S p.1 p'.1 ∧ p.2 = p'.2) inc inc') :
      Linked S (.phi t inc) (.phi t inc')
  | fence : Linked S .fence .fence

namespace Code

variable {ε α β γ : Type}

/-- A relation of values, and one of codes that goes through what codes are
built of. Related values are the same constant, or no constants. -/
structure Congruence (ε : Type) where
  val : Value → Value → Prop
  rel : {α : Type} → (α → α → Prop) → Code ε α → Code ε α → Prop
  const : ∀ {v : Value}, v.isConst = true → val v v
  eq_const : ∀ {v v' : Value}, val v v' → v.isConst = true → v = v'
  isConst : ∀ {v v' : Value}, val v v' → v.isConst = v'.isConst
  ty : ∀ {v v' : Value}, val v v' → v.ty = v'.ty
  ret : ∀ {α : Type} {R : α → α → Prop} {a a' : α}, R a a' → rel R (.ret a) (.ret a')
  fail : ∀ {α : Type} {R : α → α → Prop} (e : ε), rel R (.fail e : Code ε α) (.fail e)
  bind : ∀ {α β : Type} {R : α → α → Prop} {R' : β → β → Prop} {c c' : Code ε α}
    {f f' : α → Code ε β}, rel R c c' → (∀ a a', R a a' → rel R' (f a) (f' a')) →
      rel R' (c >>= f) (c' >>= f')
  create : ∀ {i i' : Inst}, i.Linked val i' → rel val (Code.create i) (Code.create i')

namespace Congruence

variable (L : Congruence ε) {a a' b b' c c' v v' : Value}

variable {L} in
theorem rel.bind {R : α → α → Prop} {R' : β → β → Prop} {c c' : Code ε α} {f f' : α → Code ε β}
    (h : L.rel R c c') (hf : ∀ a a', R a a' → L.rel R' (f a) (f' a')) :
    L.rel R' (c >>= f) (c' >>= f') :=
  L.bind h hf

abbrev Rel (c c' : Code ε Value) : Prop := L.rel L.val c c'

/-- A loop over one list keeps the relation of what it carries. -/
theorem foldlM {S : β → β → Prop} {f f' : β → γ → Code ε β} (l : List γ) {b b' : β}
    (h : S b b') (hstep : ∀ c b b', S b b' → L.rel S (f b c) (f' b' c)) :
    L.rel S (l.foldlM f b) (l.foldlM f' b') := by
  induction l generalizing b b' with
  | nil => exact L.ret h
  | cons c l ih =>
      rw [List.foldlM_cons, List.foldlM_cons]
      exact L.bind (hstep c b b' h) fun a a' ha => ih ha

theorem constInt (w n : ℕ) : L.val (LLVM.constInt w n) (LLVM.constInt w n) := L.const rfl

/-- A constant of the width of either value. -/
theorem constInt_ty (n : ℕ) (hv : L.val v v') :
    L.val (LLVM.constInt v.ty.bits n) (LLVM.constInt v'.ty.bits n) := by
  rw [L.ty hv]
  exact L.constInt _ n

theorem bin (o : BinOp) (ha : L.val a a') (hb : L.val b b') :
    L.Rel (createBin o a b) (createBin o a' b') :=
  L.create (.bin o ha hb)

theorem icmp (p : IPred) (ha : L.val a a') (hb : L.val b b') :
    L.Rel (createICmp p a b) (createICmp p a' b') :=
  L.create (.icmp p ha hb)

theorem fcmp (p : FPred) (ha : L.val a a') (hb : L.val b b') :
    L.Rel (createFCmp p a b) (createFCmp p a' b') :=
  L.create (.fcmp p ha hb)

theorem cast (k : CastOp) (t : Ty) (hv : L.val v v') :
    L.Rel (createCast k v t) (createCast k v' t) :=
  L.create (.cast k t hv)

theorem bitCast (t : Ty) (hv : L.val v v') : L.Rel (createBitCast v t) (createBitCast v' t) :=
  L.cast .bitcast t hv

theorem zext (t : Ty) (hv : L.val v v') : L.Rel (createZExt v t) (createZExt v' t) :=
  L.cast .zext t hv

theorem trunc (t : Ty) (hv : L.val v v') : L.Rel (createTrunc v t) (createTrunc v' t) :=
  L.cast .trunc t hv

theorem select (hc : L.val c c') (ha : L.val a a') (hb : L.val b b') :
    L.Rel (createSelect c a b) (createSelect c' a' b') :=
  L.create (.select hc ha hb)

theorem extract (ha : L.val a a') (hb : L.val b b') :
    L.Rel (createExtractElement a b) (createExtractElement a' b') :=
  L.create (.extractelement ha hb)

theorem insert (ha : L.val a a') (hb : L.val b b') (hc : L.val c c') :
    L.Rel (createInsertElement a b c) (createInsertElement a' b' c') :=
  L.create (.insertelement ha hb hc)

theorem shuffle (mask : List ℕ) (ha : L.val a a') (hb : L.val b b') :
    L.Rel (createShuffleVector a b mask) (createShuffleVector a' b' mask) :=
  L.create (.shufflevector mask ha hb)

theorem call (f : String) (sig : FnTy) {vs vs' : List Value} (h : List.Forall₂ L.val vs vs') :
    L.Rel (createCall f sig vs) (createCall f sig vs') :=
  L.create (.call f sig h)

theorem not (hv : L.val v v') : L.Rel (createNot v) (createNot v') :=
  L.bin .xor hv (by rw [L.ty hv]; exact L.const rfl)

end Congruence

end Code

end LLVM
