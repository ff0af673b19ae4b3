import VexLLVM.Vex.Op
import VexLLVM.Lib.Words

/-!
# The scalar integer operations

What the integer operations of VEX mean, by families: each family has the widths of
its operands and of its result, and a value on words of these widths. A shift by the
width or more has none.
-/

namespace Vex

open Word

structure IRWord where
  width : ℕ
  bits : BitVec width
  deriving DecidableEq, Repr

/-- What keeps a block from having a meaning. -/
inductive Fault where
  | illTyped
  | wideShift
  deriving DecidableEq, Repr

def IRWord.as (w : ℕ) (a : IRWord) : Except Fault (BitVec w) :=
  if h : a.width = w then .ok (a.bits.cast h) else .error .illTyped

@[simp] theorem IRWord.as_mk {w : ℕ} (b : BitVec w) : IRWord.as w ⟨w, b⟩ = .ok b := by
  simp [IRWord.as]

theorem IRWord.as_eq_ok {w : ℕ} {a : IRWord} {b : BitVec w} (h : a.as w = .ok b) : a = ⟨w, b⟩ := by
  obtain ⟨w', c⟩ := a
  unfold IRWord.as at h
  split at h
  · next hw =>
      subst hw
      cases h
      rfl
  · cases h

inductive IntArith where
  | add | sub | mul | and | or | xor
  deriving DecidableEq, Repr

def IntArith.eval (o : IntArith) {w : ℕ} (a b : BitVec w) : BitVec w :=
  match o with
  | add => a + b
  | sub => a - b
  | mul => a * b
  | and => a &&& b
  | or => a ||| b
  | xor => a ^^^ b

inductive IntShift where
  | shl | shr | sar
  deriving DecidableEq, Repr

def IntShift.eval (o : IntShift) {w : ℕ} (a : BitVec w) (n : ℕ) : BitVec w :=
  match o with
  | shl => a <<< n
  | shr => a >>> n
  | sar => a.sshiftRight n

/-- A comparison of words that are read as signed or as unsigned. -/
inductive IntCmp where
  | eq
  | ne
  | lt (signed : Bool)
  | le (signed : Bool)
  deriving DecidableEq, Repr

def IntCmp.eval (o : IntCmp) {w : ℕ} (a b : BitVec w) : Bool :=
  match o with
  | eq => a = b
  | ne => a ≠ b
  | lt signed => reading signed a < reading signed b
  | le signed => reading signed a ≤ reading signed b

inductive IntUnop where
  | not (w : ℕ)
  | widen (signed : Bool) (w w' : ℕ)
  | narrow (w w' : ℕ)
  /-- The high half of a word of `2 * w` bits. -/
  | high (w : ℕ)
  deriving DecidableEq, Repr

namespace IntUnop

def arg : IntUnop → ℕ
  | not w => w
  | widen _ w _ => w
  | narrow w _ => w
  | high w => 2 * w

def res : IntUnop → ℕ
  | not w => w
  | widen _ _ w' => w'
  | narrow _ w' => w'
  | high w => w

def eval : (o : IntUnop) → BitVec o.arg → BitVec o.res
  | not _, a => ~~~a
  | widen signed _ w', a => extend signed w' a
  | narrow _ w', a => BitVec.setWidth w' a
  | high w, a => BitVec.ofNat w (a.toNat / 2 ^ w)

end IntUnop

inductive IntBinop where
  | arith (o : IntArith) (w : ℕ)
  | shift (o : IntShift) (w : ℕ)
  | cmp (o : IntCmp) (w : ℕ)
  /-- The whole product. -/
  | mull (signed : Bool) (w : ℕ)
  /-- The word whose high half is the first operand. -/
  | concat (w : ℕ)
  deriving DecidableEq, Repr

namespace IntBinop

def lhs : IntBinop → ℕ
  | arith _ w | shift _ w | cmp _ w | mull _ w | concat w => w

def rhs : IntBinop → ℕ
  | shift _ _ => 8
  | arith _ w | cmp _ w | mull _ w | concat w => w

def res : IntBinop → ℕ
  | arith _ w | shift _ w => w
  | cmp _ _ => 1
  | mull _ w | concat w => 2 * w

/-- The value; a shift by the width or more has none. -/
def eval : (o : IntBinop) → BitVec o.lhs → BitVec o.rhs → Option (BitVec o.res)
  | arith o _, a, b => some (o.eval a b)
  | shift o w, a, b => if b.toNat < w then some (o.eval a b.toNat) else none
  | cmp o _, a, b => some (BitVec.ofBool (o.eval a b))
  | mull signed w, a, b => some (BitVec.ofInt (2 * w) (reading signed a * reading signed b))
  | concat w, a, b => some (BitVec.ofNat (2 * w) (a.toNat * 2 ^ w + b.toNat))

end IntBinop

def IntUnop.apply (o : IntUnop) (a : IRWord) : Except Fault IRWord := do
  let x ← a.as o.arg
  pure ⟨o.res, o.eval x⟩

def IntBinop.apply (o : IntBinop) (a b : IRWord) : Except Fault IRWord := do
  let x ← a.as o.lhs
  let y ← b.as o.rhs
  match o.eval x y with
  | some z => pure ⟨o.res, z⟩
  | none => throw .wideShift

def Iop.intUnop? : Iop → Option IntUnop
  | .Not1 => some (.not 1)
  | .Not8 => some (.not 8)
  | .Not16 => some (.not 16)
  | .Not32 => some (.not 32)
  | .Not64 => some (.not 64)
  | ._1Uto8 => some (.widen false 1 8)
  | ._1Uto32 => some (.widen false 1 32)
  | ._1Uto64 => some (.widen false 1 64)
  | ._8Uto16 => some (.widen false 8 16)
  | ._8Sto16 => some (.widen true 8 16)
  | ._8Uto32 => some (.widen false 8 32)
  | ._8Sto32 => some (.widen true 8 32)
  | ._8Uto64 => some (.widen false 8 64)
  | ._8Sto64 => some (.widen true 8 64)
  | ._16Uto32 => some (.widen false 16 32)
  | ._16Sto32 => some (.widen true 16 32)
  | ._16Uto64 => some (.widen false 16 64)
  | ._16Sto64 => some (.widen true 16 64)
  | ._32Uto64 => some (.widen false 32 64)
  | ._32Sto64 => some (.widen true 32 64)
  | ._16to8 => some (.narrow 16 8)
  | ._32to1 => some (.narrow 32 1)
  | ._32to8 => some (.narrow 32 8)
  | ._32to16 => some (.narrow 32 16)
  | ._64to1 => some (.narrow 64 1)
  | ._64to8 => some (.narrow 64 8)
  | ._64to16 => some (.narrow 64 16)
  | ._64to32 => some (.narrow 64 32)
  | ._128to64 => some (.narrow 128 64)
  | ._16HIto8 => some (.high 8)
  | ._32HIto16 => some (.high 16)
  | ._64HIto32 => some (.high 32)
  | ._128HIto64 => some (.high 64)
  | _ => none

def Iop.intBinop? : Iop → Option IntBinop
  | .Add8 => some (.arith .add 8)
  | .Add16 => some (.arith .add 16)
  | .Add32 => some (.arith .add 32)
  | .Add64 => some (.arith .add 64)
  | .Sub8 => some (.arith .sub 8)
  | .Sub16 => some (.arith .sub 16)
  | .Sub32 => some (.arith .sub 32)
  | .Sub64 => some (.arith .sub 64)
  | .Mul8 => some (.arith .mul 8)
  | .Mul16 => some (.arith .mul 16)
  | .Mul32 => some (.arith .mul 32)
  | .Mul64 => some (.arith .mul 64)
  | .And8 => some (.arith .and 8)
  | .And16 => some (.arith .and 16)
  | .And32 => some (.arith .and 32)
  | .And64 => some (.arith .and 64)
  | .Or8 => some (.arith .or 8)
  | .Or16 => some (.arith .or 16)
  | .Or32 => some (.arith .or 32)
  | .Or64 => some (.arith .or 64)
  | .Xor8 => some (.arith .xor 8)
  | .Xor16 => some (.arith .xor 16)
  | .Xor32 => some (.arith .xor 32)
  | .Xor64 => some (.arith .xor 64)
  | .Shl8 => some (.shift .shl 8)
  | .Shl16 => some (.shift .shl 16)
  | .Shl32 => some (.shift .shl 32)
  | .Shl64 => some (.shift .shl 64)
  | .Shr8 => some (.shift .shr 8)
  | .Shr16 => some (.shift .shr 16)
  | .Shr32 => some (.shift .shr 32)
  | .Shr64 => some (.shift .shr 64)
  | .Sar8 => some (.shift .sar 8)
  | .Sar16 => some (.shift .sar 16)
  | .Sar32 => some (.shift .sar 32)
  | .Sar64 => some (.shift .sar 64)
  | .CmpEQ8 | .CasCmpEQ8 => some (.cmp .eq 8)
  | .CmpEQ16 | .CasCmpEQ16 => some (.cmp .eq 16)
  | .CmpEQ32 | .CasCmpEQ32 => some (.cmp .eq 32)
  | .CmpEQ64 | .CasCmpEQ64 => some (.cmp .eq 64)
  | .CmpNE8 | .CasCmpNE8 | .ExpCmpNE8 => some (.cmp .ne 8)
  | .CmpNE16 | .CasCmpNE16 | .ExpCmpNE16 => some (.cmp .ne 16)
  | .CmpNE32 | .CasCmpNE32 | .ExpCmpNE32 => some (.cmp .ne 32)
  | .CmpNE64 | .CasCmpNE64 | .ExpCmpNE64 => some (.cmp .ne 64)
  | .CmpLT32S => some (.cmp (.lt true) 32)
  | .CmpLT64S => some (.cmp (.lt true) 64)
  | .CmpLT32U => some (.cmp (.lt false) 32)
  | .CmpLT64U => some (.cmp (.lt false) 64)
  | .CmpLE32S => some (.cmp (.le true) 32)
  | .CmpLE64S => some (.cmp (.le true) 64)
  | .CmpLE32U => some (.cmp (.le false) 32)
  | .CmpLE64U => some (.cmp (.le false) 64)
  | .MullS8 => some (.mull true 8)
  | .MullS16 => some (.mull true 16)
  | .MullS32 => some (.mull true 32)
  | .MullS64 => some (.mull true 64)
  | .MullU8 => some (.mull false 8)
  | .MullU16 => some (.mull false 16)
  | .MullU32 => some (.mull false 32)
  | .MullU64 => some (.mull false 64)
  | ._8HLto16 => some (.concat 8)
  | ._16HLto32 => some (.concat 16)
  | ._32HLto64 => some (.concat 32)
  | ._64HLto128 => some (.concat 64)
  | _ => none

end Vex
