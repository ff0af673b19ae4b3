import VexLLVM.Vex.IntOp
import VexLLVM.LLVM.Lanes

/-!
# The vector operations

What the operations on vectors of integers mean, by families, as for the scalar ones: a
vector of `n` lanes of `w` bits is a word of `n * w` bits, its lane `0` in the low bits.
-/

namespace Vex

open Word

def lane (w : ℕ) {k : ℕ} (a : BitVec k) (i : ℕ) : BitVec w := LLVM.laneOf w a.toNat i

def vector {w : ℕ} (n : ℕ) (f : ℕ → BitVec w) : BitVec (n * w) := BitVec.ofNat (n * w) (LLVM.pack n f)

theorem toNat_vector {w : ℕ} (n : ℕ) (f : ℕ → BitVec w) : (vector n f).toNat = LLVM.pack n f := by
  rw [vector, BitVec.toNat_ofNat, Nat.mod_eq_of_lt (LLVM.pack_lt n f)]

theorem lane_vector {w n i : ℕ} (f : ℕ → BitVec w) (h : i < n) : lane w (vector n f) i = f i := by
  rw [lane, toNat_vector, LLVM.laneOf_pack h]

/-- The operations on one vector, and those that make one from a word. -/
inductive VecUnop where
  | not
  | widen (w : ℕ)
  | half (high : Bool)
  /-- The top bits of the bytes. -/
  | topBits (n : ℕ)
  | dup
  /-- The bits of a floating-point value, or the value with the bits. -/
  | reinterp (toInt : Bool) (w : ℕ)
  deriving DecidableEq, Repr

namespace VecUnop

def arg : VecUnop → ℕ
  | not => 128
  | widen w => w
  | half _ => 128
  | topBits n => n * 8
  | dup => 8
  | reinterp _ w => w

def res : VecUnop → ℕ
  | not | widen _ => 128
  | half _ => 64
  | topBits n => n
  | dup => 16 * 8
  | reinterp _ w => w

def eval : (o : VecUnop) → BitVec o.arg → BitVec o.res
  | not, a => ~~~a
  | widen _, a => BitVec.setWidth 128 a
  | half high, a => lane 64 a (if high then 1 else 0)
  | topBits n, a => (vector n fun i => BitVec.ofBool (lane 8 a i).msb).cast (Nat.mul_one n)
  | dup, a => vector 16 fun _ => a
  | reinterp _ _, a => a

end VecUnop

inductive LaneCmp where
  | eq
  | gt (signed : Bool)
  deriving DecidableEq, Repr

def LaneCmp.eval (o : LaneCmp) {w : ℕ} (a b : BitVec w) : Bool :=
  match o with
  | eq => a = b
  | gt signed => reading signed b < reading signed a

inductive VecBinop where
  /-- Bit by bit, whatever the lanes. -/
  | whole (o : IntArith) (w : ℕ)
  | arith (o : IntArith) (n w : ℕ)
  /-- Each lane by the amount in the lane beside it. -/
  | shift (o : IntShift) (n w : ℕ)
  /-- All lanes by one amount. -/
  | shiftN (o : IntShift) (n w : ℕ)
  /-- All ones in the lanes where the comparison holds. -/
  | cmp (o : LaneCmp) (n w : ℕ)
  | pick (greatest signed : Bool) (n w : ℕ)
  | sat (sub signed : Bool) (n w : ℕ)
  /-- The lanes of both vectors in half of their width, the second vector's first. -/
  | narrow (signed : Bool) (n w : ℕ)
  | mulHigh (signed : Bool) (n w : ℕ)
  | avg (signed : Bool) (n w : ℕ)
  | halve (sub signed : Bool) (n w : ℕ)
  | interleave (high : Bool) (n w : ℕ)
  | permute (n : ℕ)
  | setLow (n w : ℕ)
  | concat
  | elem (n w : ℕ)
  deriving DecidableEq, Repr

namespace VecBinop

def lhs : VecBinop → ℕ
  | whole _ w => w
  | arith _ n w | shift _ n w | shiftN _ n w | cmp _ n w | pick _ _ n w | sat _ _ n w | narrow _ n w
  | mulHigh _ n w | avg _ n w | halve _ _ n w | interleave _ n w | setLow n w | elem n w => n * w
  | permute n => n * 8
  | concat => 64

def rhs : VecBinop → ℕ
  | whole _ w => w
  | arith _ n w | shift _ n w | cmp _ n w | pick _ _ n w | sat _ _ n w | narrow _ n w
  | mulHigh _ n w | avg _ n w | halve _ _ n w | interleave _ n w => n * w
  | permute n => n * 8
  | shiftN _ _ _ | elem _ _ => 8
  | setLow _ w => w
  | concat => 64

def res : VecBinop → ℕ
  | whole _ w => w
  | arith _ n w | shift _ n w | shiftN _ n w | cmp _ n w | pick _ _ n w | sat _ _ n w
  | mulHigh _ n w | avg _ n w | halve _ _ n w | interleave _ n w | setLow n w => n * w
  | narrow _ n w => 2 * n * (w / 2)
  | permute n => n * 8
  | concat => 128
  | elem _ w => w

def sum (sub : Bool) (x y : ℤ) : ℤ := if sub then x - y else x + y

/-- The value. An amount that is too wide, or an index of no lane, gives none. -/
def eval : (o : VecBinop) → BitVec o.lhs → BitVec o.rhs → Option (BitVec o.res)
  | whole o _, a, b => some (o.eval a b)
  | arith o n w, a, b => some (vector n fun i => o.eval (lane w a i) (lane w b i))
  | shift o n w, a, b =>
      if ∀ i < n, (lane w b i).toNat < w then
        some (vector n fun i => o.eval (lane w a i) (lane w b i).toNat)
      else none
  | shiftN o n w, a, b =>
      if b.toNat < w then some (vector n fun i => o.eval (lane w a i) b.toNat) else none
  | cmp o n w, a, b =>
      some (vector n fun i => if o.eval (lane w a i) (lane w b i) then BitVec.allOnes w else 0)
  | pick greatest signed n w, a, b =>
      let pick := if greatest then max else min
      some (vector n fun i =>
        BitVec.ofInt w (pick (reading signed (lane w a i)) (reading signed (lane w b i))))
  | sat sub signed n w, a, b =>
      some (vector n fun i => BitVec.ofInt w (clamp signed w
        (sum sub (reading signed (lane w a i)) (reading signed (lane w b i)))))
  | narrow signed n w, a, b =>
      let narrowed (x : BitVec w) := BitVec.ofInt (w / 2) (clamp signed (w / 2) (reading true x))
      some (vector (2 * n) fun i =>
        if i < n then narrowed (lane w b i) else narrowed (lane w a (i - n)))
  | mulHigh signed n w, a, b =>
      some (vector n fun i => BitVec.ofInt w
        (bitsAt w w (reading signed (lane w a i) * reading signed (lane w b i))))
  | avg signed n w, a, b =>
      some (vector n fun i => BitVec.ofInt w
        (bitsAt 1 w (reading signed (lane w a i) + reading signed (lane w b i) + 1)))
  | halve sub signed n w, a, b =>
      some (vector n fun i => BitVec.ofInt w
        (bitsAt 1 w (sum sub (reading signed (lane w a i)) (reading signed (lane w b i)))))
  | interleave high n w, a, b =>
      let first := if high then n / 2 else 0
      some (vector n fun i => if i % 2 = 0 then lane w b (first + i / 2) else lane w a (first + i / 2))
  | permute n, a, b =>
      if ∀ i < n, (lane 8 b i).toNat < n then some (vector n fun i => lane 8 a (lane 8 b i).toNat)
      else none
  | setLow n w, a, b => some (vector n fun i => if i = 0 then b else lane w a i)
  | concat, a, b => some (BitVec.ofNat 128 (a.toNat * 2 ^ 64 + b.toNat))
  | elem n w, a, b => if b.toNat < n then some (lane w a b.toNat) else none

end VecBinop

structure VecTriop where
  n : ℕ
  w : ℕ
  deriving DecidableEq, Repr

def VecTriop.eval (o : VecTriop) (a : BitVec (o.n * o.w)) (i : BitVec 8) (b : BitVec o.w) :
    Option (BitVec (o.n * o.w)) :=
  if i.toNat < o.n then some (vector o.n fun j => if j = i.toNat then b else lane o.w a j) else none

def Iop.vecUnop? : Iop → Option VecUnop
  | .NotV128 => some .not
  | ._32UtoV128 => some (.widen 32)
  | ._64UtoV128 => some (.widen 64)
  | .V128to64 => some (.half false)
  | .V128HIto64 => some (.half true)
  | .GetMSBs8x8 => some (.topBits 8)
  | .GetMSBs8x16 => some (.topBits 16)
  | .Dup8x16 => some .dup
  | .ReinterpF64asI64 => some (.reinterp true 64)
  | .ReinterpI64asF64 => some (.reinterp false 64)
  | .ReinterpF32asI32 => some (.reinterp true 32)
  | .ReinterpI32asF32 => some (.reinterp false 32)
  | _ => none

def Iop.vecBinop? : Iop → Option VecBinop
  | .AndV128 => some (.whole .and 128)
  | .SetV128lo64 => some (.setLow 2 64)
  | .SetV128lo32 => some (.setLow 4 32)
  | .InterleaveLO8x8 => some (.interleave false 8 8)
  | .InterleaveHI8x8 => some (.interleave true 8 8)
  | .InterleaveLO8x16 => some (.interleave false 16 8)
  | .InterleaveHI8x16 => some (.interleave true 16 8)
  | .InterleaveLO16x4 => some (.interleave false 4 16)
  | .InterleaveHI16x4 => some (.interleave true 4 16)
  | .InterleaveLO16x8 => some (.interleave false 8 16)
  | .InterleaveHI16x8 => some (.interleave true 8 16)
  | .InterleaveLO64x2 => some (.interleave false 2 64)
  | .InterleaveHI64x2 => some (.interleave true 2 64)
  | .InterleaveLO32x4 => some (.interleave false 4 32)
  | .InterleaveHI32x4 => some (.interleave true 4 32)
  | .InterleaveLO32x2 => some (.interleave false 2 32)
  | .InterleaveHI32x2 => some (.interleave true 2 32)
  | .Max8Ux8 => some (.pick true false 8 8)
  | .Max8Ux16 => some (.pick true false 16 8)
  | .Max16Sx4 => some (.pick true true 4 16)
  | .Max16Sx8 => some (.pick true true 8 16)
  | .Min8Ux8 => some (.pick false false 8 8)
  | .Min8Ux16 => some (.pick false false 16 8)
  | .Min16Sx4 => some (.pick false true 4 16)
  | .Min16Sx8 => some (.pick false true 8 16)
  | .OrV128 => some (.whole .or 128)
  | .XorV128 => some (.whole .xor 128)
  | ._64HLtoV128 => some .concat
  | .GetElem8x8 => some (.elem 8 8)
  | .GetElem32x2 => some (.elem 2 32)
  | .Shl8x8 | .Sal8x8 => some (.shift .shl 8 8)
  | .Shr8x8 => some (.shift .shr 8 8)
  | .Sar8x8 => some (.shift .sar 8 8)
  | .Shl8x16 | .Sal8x16 => some (.shift .shl 16 8)
  | .Shr8x16 => some (.shift .shr 16 8)
  | .Sar8x16 => some (.shift .sar 16 8)
  | .Shl16x4 | .Sal16x4 => some (.shift .shl 4 16)
  | .Shr16x4 => some (.shift .shr 4 16)
  | .Sar16x4 => some (.shift .sar 4 16)
  | .Shl16x8 | .Sal16x8 => some (.shift .shl 8 16)
  | .Shr16x8 => some (.shift .shr 8 16)
  | .Sar16x8 => some (.shift .sar 8 16)
  | .Shl32x2 | .Sal32x2 => some (.shift .shl 2 32)
  | .Shr32x2 => some (.shift .shr 2 32)
  | .Sar32x2 => some (.shift .sar 2 32)
  | .Shl32x4 | .Sal32x4 => some (.shift .shl 4 32)
  | .Shr32x4 => some (.shift .shr 4 32)
  | .Sar32x4 => some (.shift .sar 4 32)
  | .SarN8x8 => some (.shiftN .sar 8 8)
  | .ShlN8x8 => some (.shiftN .shl 8 8)
  | .ShrN8x8 => some (.shiftN .shr 8 8)
  | .SarN8x16 => some (.shiftN .sar 16 8)
  | .ShlN8x16 => some (.shiftN .shl 16 8)
  | .ShrN8x16 => some (.shiftN .shr 16 8)
  | .ShlN16x4 => some (.shiftN .shl 4 16)
  | .ShrN16x4 => some (.shiftN .shr 4 16)
  | .SarN16x4 => some (.shiftN .sar 4 16)
  | .ShlN16x8 => some (.shiftN .shl 8 16)
  | .ShrN16x8 => some (.shiftN .shr 8 16)
  | .SarN16x8 => some (.shiftN .sar 8 16)
  | .ShlN32x2 => some (.shiftN .shl 2 32)
  | .ShrN32x2 => some (.shiftN .shr 2 32)
  | .SarN32x2 => some (.shiftN .sar 2 32)
  | .ShlN32x4 => some (.shiftN .shl 4 32)
  | .ShrN32x4 => some (.shiftN .shr 4 32)
  | .SarN32x4 => some (.shiftN .sar 4 32)
  | .ShlN64x2 => some (.shiftN .shl 2 64)
  | .ShrN64x2 => some (.shiftN .shr 2 64)
  | .SarN64x2 => some (.shiftN .sar 2 64)
  | .Add8x8 => some (.arith .add 8 8)
  | .Add8x16 => some (.arith .add 16 8)
  | .Add16x4 => some (.arith .add 4 16)
  | .Add16x8 => some (.arith .add 8 16)
  | .Add32x2 => some (.arith .add 2 32)
  | .Add32x4 => some (.arith .add 4 32)
  | .Add64x2 => some (.arith .add 2 64)
  | .Sub8x8 => some (.arith .sub 8 8)
  | .Sub8x16 => some (.arith .sub 16 8)
  | .Sub16x4 => some (.arith .sub 4 16)
  | .Sub16x8 => some (.arith .sub 8 16)
  | .Sub32x2 => some (.arith .sub 2 32)
  | .Sub32x4 => some (.arith .sub 4 32)
  | .Sub64x2 => some (.arith .sub 2 64)
  | .Mul8x8 => some (.arith .mul 8 8)
  | .Mul8x16 => some (.arith .mul 16 8)
  | .Mul16x4 => some (.arith .mul 4 16)
  | .Mul16x8 => some (.arith .mul 8 16)
  | .Mul32x2 => some (.arith .mul 2 32)
  | .Mul32x4 => some (.arith .mul 4 32)
  | .MulHi16Ux4 => some (.mulHigh false 4 16)
  | .MulHi16Sx4 => some (.mulHigh true 4 16)
  | .MulHi16Ux8 => some (.mulHigh false 8 16)
  | .MulHi16Sx8 => some (.mulHigh true 8 16)
  | .MulHi32Ux4 => some (.mulHigh false 4 32)
  | .MulHi32Sx4 => some (.mulHigh true 4 32)
  | .QNarrowBin16Sto8Ux8 => some (.narrow false 4 16)
  | .QNarrowBin16Sto8Ux16 => some (.narrow false 8 16)
  | .QNarrowBin32Sto16Ux8 => some (.narrow false 4 32)
  | .QNarrowBin16Sto8Sx16 => some (.narrow true 8 16)
  | .QNarrowBin32Sto16Sx8 => some (.narrow true 4 32)
  | .QNarrowBin16Sto8Sx8 => some (.narrow true 4 16)
  | .QNarrowBin32Sto16Sx4 => some (.narrow true 2 32)
  | .QAdd64Sx1 => some (.sat false true 1 64)
  | .QAdd64Sx2 => some (.sat false true 2 64)
  | .QAdd64Ux1 => some (.sat false false 1 64)
  | .QAdd64Ux2 => some (.sat false false 2 64)
  | .QAdd32Sx2 => some (.sat false true 2 32)
  | .QAdd32Sx4 => some (.sat false true 4 32)
  | .QAdd32Ux2 => some (.sat false false 2 32)
  | .QAdd32Ux4 => some (.sat false false 4 32)
  | .QAdd16Sx2 => some (.sat false true 2 16)
  | .QAdd16Sx4 => some (.sat false true 4 16)
  | .QAdd16Sx8 => some (.sat false true 8 16)
  | .QAdd16Ux2 => some (.sat false false 2 16)
  | .QAdd16Ux4 => some (.sat false false 4 16)
  | .QAdd16Ux8 => some (.sat false false 8 16)
  | .QAdd8Sx4 => some (.sat false true 4 8)
  | .QAdd8Sx8 => some (.sat false true 8 8)
  | .QAdd8Sx16 => some (.sat false true 16 8)
  | .QAdd8Ux4 => some (.sat false false 4 8)
  | .QAdd8Ux8 => some (.sat false false 8 8)
  | .QAdd8Ux16 => some (.sat false false 16 8)
  | .QSub64Sx1 => some (.sat true true 1 64)
  | .QSub64Sx2 => some (.sat true true 2 64)
  | .QSub64Ux1 => some (.sat true false 1 64)
  | .QSub64Ux2 => some (.sat true false 2 64)
  | .QSub32Sx2 => some (.sat true true 2 32)
  | .QSub32Sx4 => some (.sat true true 4 32)
  | .QSub32Ux2 => some (.sat true false 2 32)
  | .QSub32Ux4 => some (.sat true false 4 32)
  | .QSub16Sx2 => some (.sat true true 2 16)
  | .QSub16Sx4 => some (.sat true true 4 16)
  | .QSub16Sx8 => some (.sat true true 8 16)
  | .QSub16Ux2 => some (.sat true false 2 16)
  | .QSub16Ux4 => some (.sat true false 4 16)
  | .QSub16Ux8 => some (.sat true false 8 16)
  | .QSub8Sx4 => some (.sat true true 4 8)
  | .QSub8Sx8 => some (.sat true true 8 8)
  | .QSub8Sx16 => some (.sat true true 16 8)
  | .QSub8Ux4 => some (.sat true false 4 8)
  | .QSub8Ux8 => some (.sat true false 8 8)
  | .QSub8Ux16 => some (.sat true false 16 8)
  | .Avg8Ux8 => some (.avg false 8 8)
  | .Avg8Ux16 => some (.avg false 16 8)
  | .Avg8Sx16 => some (.avg true 16 8)
  | .Avg16Ux4 => some (.avg false 4 16)
  | .Avg16Ux8 => some (.avg false 8 16)
  | .Avg16Sx8 => some (.avg true 8 16)
  | .Avg32Ux4 => some (.avg false 4 32)
  | .Avg32Sx4 => some (.avg true 4 32)
  | .HAdd16Ux2 => some (.halve false false 2 16)
  | .HAdd16Sx2 => some (.halve false true 2 16)
  | .HSub16Ux2 => some (.halve true false 2 16)
  | .HSub16Sx2 => some (.halve true true 2 16)
  | .HAdd8Ux4 => some (.halve false false 4 8)
  | .HAdd8Sx4 => some (.halve false true 4 8)
  | .HSub8Ux4 => some (.halve true false 4 8)
  | .HSub8Sx4 => some (.halve true true 4 8)
  | .CmpEQ8x8 => some (.cmp .eq 8 8)
  | .CmpEQ8x16 => some (.cmp .eq 16 8)
  | .CmpEQ16x4 => some (.cmp .eq 4 16)
  | .CmpEQ16x8 => some (.cmp .eq 8 16)
  | .CmpEQ32x2 => some (.cmp .eq 2 32)
  | .CmpEQ32x4 => some (.cmp .eq 4 32)
  | .CmpGT8Sx8 => some (.cmp (.gt true) 8 8)
  | .CmpGT8Sx16 => some (.cmp (.gt true) 16 8)
  | .CmpGT16Sx4 => some (.cmp (.gt true) 4 16)
  | .CmpGT16Sx8 => some (.cmp (.gt true) 8 16)
  | .CmpGT32Sx2 => some (.cmp (.gt true) 2 32)
  | .CmpGT32Sx4 => some (.cmp (.gt true) 4 32)
  | .CmpGT64Sx2 => some (.cmp (.gt true) 2 64)
  | .CmpGT8Ux8 => some (.cmp (.gt false) 8 8)
  | .CmpGT8Ux16 => some (.cmp (.gt false) 16 8)
  | .CmpGT16Ux4 => some (.cmp (.gt false) 4 16)
  | .CmpGT16Ux8 => some (.cmp (.gt false) 8 16)
  | .CmpGT32Ux2 => some (.cmp (.gt false) 2 32)
  | .CmpGT32Ux4 => some (.cmp (.gt false) 4 32)
  | .Perm8x8 => some (.permute 8)
  | .Perm8x16 => some (.permute 16)
  | _ => none

def Iop.vecTriop? : Iop → Option VecTriop
  | .SetElem8x8 => some ⟨8, 8⟩
  | .SetElem32x2 => some ⟨2, 32⟩
  | _ => none

end Vex
