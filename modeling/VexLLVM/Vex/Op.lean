import Mathlib.Data.Nat.Notation

/-!
# VEX operations

The operations the translator declares a class for, with the number of operands
of that class. Every other opcode is unknown to it.
-/

namespace Vex

/-- `Iop_x` for every `x` in the known-op table of `createOp`, in its order. -/
inductive Iop where
  | CmpEQ8 | CmpEQ16 | CmpEQ32 | CmpEQ64 | ExpCmpNE8 | ExpCmpNE16 | ExpCmpNE32 | ExpCmpNE64
  | GetMSBs8x8 | GetMSBs8x16 | MAddF64 | CmpNE8 | CmpNE16 | CmpNE32 | CmpNE64 | CmpF64
  | CasCmpEQ8 | CasCmpEQ16 | CasCmpEQ32 | CasCmpEQ64 | CasCmpNE8 | CasCmpNE16 | CasCmpNE32
  | CasCmpNE64 | CmpLE64S | CmpLE64U | CmpLT64S | CmpLT64U | CmpLE32S | CmpLE32U | CmpLT32S
  | CmpLT32U | Add8 | Add16 | Add32 | Add64 | And8 | And16 | And32 | And64 | AndV128
  | DivModU128to64 | DivModS128to64 | DivModU64to32 | DivModS64to32 | Mul64F0x2 | Div64F0x2
  | Add64F0x2 | Sub64F0x2 | Mul32F0x4 | Div32F0x4 | Add32F0x4 | Sub32F0x4 | Sqrt32F0x4
  | Sqrt64F0x2 | Min64F0x2 | Max32F0x4 | Min32F0x4 | Max64F0x2 | CmpLT32F0x4 | CmpLE32F0x4
  | CmpEQ32F0x4 | CmpUN32F0x4 | CmpLT64F0x2 | CmpLE64F0x2 | CmpEQ64F0x2 | CmpUN64F0x2
  | SetV128lo64 | SetV128lo32 | InterleaveLO8x8 | InterleaveHI8x8 | InterleaveLO8x16
  | InterleaveHI8x16 | InterleaveLO16x4 | InterleaveHI16x4 | InterleaveLO16x8
  | InterleaveHI16x8 | InterleaveLO64x2 | InterleaveHI64x2 | InterleaveLO32x4
  | InterleaveHI32x4 | InterleaveLO32x2 | InterleaveHI32x2 | Mul8 | Mul16 | Mul32 | Mul64
  | MullS8 | MullS16 | MullS32 | MullS64 | MullU8 | MullU16 | MullU32 | MullU64 | Max8Ux8
  | Max8Ux16 | Max16Sx4 | Max16Sx8 | Min8Ux8 | Min8Ux16 | Min16Sx4 | Min16Sx8 | Min32Fx2
  | Max32Fx2 | Min32Fx4 | Max32Fx4 | Max64Fx2 | Min64Fx2 | Sqrt32Fx4 | Sqrt64Fx2
  | RSqrtEst32Fx4 | RecipEst32Fx4 | Or8 | Or16 | Or32 | Or64 | OrV128 | Shl8 | Shl16 | Shl32
  | Shl64 | Sar8 | Sar16 | Sar32 | Sar64 | Shr8 | Shr16 | Shr32 | Shr64 | Sub8 | Sub16 | Sub32
  | Sub64 | Xor8 | Xor16 | Xor32 | Xor64 | XorV128 | Not1 | Not8 | Not16 | Not32 | Not64
  | NotV128 | Dup8x16 | _1Uto8 | _1Uto32 | _1Uto64 | _8Uto16 | _8Sto16 | _8Uto32 | _8Sto32
  | _8Uto64 | _8Sto64 | _16Uto64 | _16Sto64 | _16Uto32 | _16to8 | _16Sto32 | _32Uto64
  | _32Sto64 | _32to8 | _32to16 | _64to32 | _64to1 | _32to1 | _64to8 | _64to16 | _32UtoV128
  | _64UtoV128 | V128to64 | V128HIto64 | _128to64 | _128HIto64 | _8HLto16 | _16HLto32
  | _32HLto64 | _64HLtoV128 | _64HLto128 | _16HIto8 | _32HIto16 | _64HIto32 | F32toF64 | AbsF32
  | AbsF64 | F64toF32 | I32StoF64 | I32UtoF64 | ReinterpF64asI64 | ReinterpI64asF64
  | ReinterpF32asI32 | ReinterpI32asF32 | GetElem8x8 | GetElem32x2 | I64StoF64 | I64UtoF64
  | F64toI32S | F64toI32U | F64toI64S | Ctz32 | Ctz64 | Clz64 | Clz32 | Cls32x2 | Cls32x4
  | Shl8x8 | Shr8x8 | Sar8x8 | Sal8x8 | Shl8x16 | Shr8x16 | Sar8x16 | Sal8x16 | Shl16x4
  | Shr16x4 | Sar16x4 | Sal16x4 | Shl16x8 | Shr16x8 | Sar16x8 | Sal16x8 | Shl32x2 | Shr32x2
  | Sar32x2 | Sal32x2 | Shl32x4 | Shr32x4 | Sar32x4 | Sal32x4 | SarN8x8 | ShlN8x8 | ShrN8x8
  | SarN8x16 | ShlN8x16 | ShrN8x16 | ShlN16x4 | ShrN16x4 | SarN16x4 | ShlN16x8 | ShrN16x8
  | SarN16x8 | ShlN32x2 | ShrN32x2 | SarN32x2 | ShlN32x4 | ShrN32x4 | SarN32x4 | ShlN64x2
  | ShrN64x2 | SarN64x2 | Add8x8 | Add8x16 | Add16x4 | Add16x8 | Add32x2 | Add32x4 | Add64x2
  | Sub8x8 | Sub8x16 | Sub16x4 | Sub16x8 | Sub32x2 | Sub32x4 | Sub64x2 | Mul8x8 | Mul8x16
  | Mul16x4 | Mul16x8 | Mul32x2 | Mul32x4 | MulHi16Ux4 | MulHi16Sx4 | MulHi16Ux8 | MulHi16Sx8
  | MulHi32Ux4 | MulHi32Sx4 | NarrowBin16to8x16 | NarrowBin32to16x8 | QNarrowBin16Sto8Ux8
  | QNarrowBin16Sto8Ux16 | QNarrowBin32Sto16Ux8 | QNarrowBin16Sto8Sx16 | QNarrowBin32Sto16Sx8
  | QNarrowUn16Sto8Ux8 | QNarrowBin16Sto8Sx8 | QNarrowBin32Sto16Sx4 | QAdd64Sx1 | QAdd64Sx2
  | QAdd64Ux1 | QAdd64Ux2 | QAdd32Sx2 | QAdd32Sx4 | QAdd32Ux2 | QAdd32Ux4 | QAdd16Sx2
  | QAdd16Sx4 | QAdd16Sx8 | QAdd16Ux2 | QAdd16Ux4 | QAdd16Ux8 | QAdd8Sx4 | QAdd8Sx8 | QAdd8Sx16
  | QAdd8Ux4 | QAdd8Ux8 | QAdd8Ux16 | QSub64Sx1 | QSub64Sx2 | QSub64Ux1 | QSub64Ux2 | QSub32Sx2
  | QSub32Sx4 | QSub32Ux2 | QSub32Ux4 | QSub16Sx2 | QSub16Sx4 | QSub16Sx8 | QSub16Ux2
  | QSub16Ux4 | QSub16Ux8 | QSub8Sx4 | QSub8Sx8 | QSub8Sx16 | QSub8Ux4 | QSub8Ux8 | QSub8Ux16
  | Avg8Ux8 | Avg8Ux16 | Avg8Sx16 | Avg16Ux4 | Avg16Ux8 | Avg16Sx8 | Avg32Ux4 | Avg32Sx4
  | HAdd16Ux2 | HAdd16Sx2 | HSub16Ux2 | HSub16Sx2 | HAdd8Ux4 | HAdd8Sx4 | HSub8Ux4 | HSub8Sx4
  | Add32Fx2 | Add32Fx4 | Add64Fx2 | Sub32Fx2 | Sub32Fx4 | Sub64Fx2 | Mul32Fx2 | Mul32Fx4
  | Mul64Fx2 | Div32Fx4 | Div64Fx2 | AddF64 | SubF64 | MulF64 | DivF64 | NegF64 | AddF32
  | SubF32 | MulF32 | DivF32 | NegF32 | RoundF32toInt | RoundF64toInt | CmpEQ8x8 | CmpEQ8x16
  | CmpEQ16x4 | CmpEQ16x8 | CmpEQ32x2 | CmpEQ32x4 | CmpGT8Sx8 | CmpGT8Sx16 | CmpGT16Sx4
  | CmpGT16Sx8 | CmpGT32Sx2 | CmpGT32Sx4 | CmpGT64Sx2 | CmpGT8Ux8 | CmpGT8Ux16 | CmpGT16Ux4
  | CmpGT16Ux8 | CmpGT32Ux2 | CmpGT32Ux4 | CmpEQ32Fx2 | CmpEQ32Fx4 | CmpEQ64Fx2 | CmpGT32Fx2
  | CmpGT32Fx4 | CmpGE32Fx2 | CmpGE32Fx4 | CmpLT32Fx4 | CmpLT64Fx2 | CmpLE32Fx4 | CmpLE64Fx2
  | CmpUN32Fx4 | CmpUN64Fx2 | Perm8x8 | Perm8x16 | PRemF64 | PRemC3210F64 | SetElem8x8
  | SetElem32x2
  deriving DecidableEq, Repr

/-- What holds of each operation by its number holds of all. -/
theorem Iop.forall_of_ofNat {P : Iop → Prop} (h : ∀ k < 404, P (Iop.ofNat k)) (op : Iop) :
    P op := by
  have hlt : op.ctorIdx < 404 := by cases op <;> decide
  have := h op.ctorIdx hlt
  rwa [Iop.ofNat_ctorIdx] at this

inductive IROp where
  | iop (o : Iop)
  | unknown (code : ℕ)
  deriving DecidableEq, Repr

/-- The operands of the class declared for the operation: `QOP_TAGOP`,
`TRIOP_TAGOP`, `UNOP_TAGOP`, and `BINOP_TAGOP` for all others. -/
def Iop.tagop : Iop → ℕ
  | .MAddF64 => 4
  | .AddF64 | .SubF64 | .MulF64 | .DivF64 | .AddF32 | .SubF32 | .MulF32 | .DivF32 | .PRemF64
  | .PRemC3210F64 | .SetElem8x8 | .SetElem32x2 => 3
  | .GetMSBs8x8 | .GetMSBs8x16 | .Sqrt32F0x4 | .Sqrt64F0x2 | .Sqrt32Fx4 | .Sqrt64Fx2
  | .RSqrtEst32Fx4 | .RecipEst32Fx4 | .Not1 | .Not8 | .Not16 | .Not32 | .Not64 | .NotV128
  | .Dup8x16 | ._1Uto8 | ._1Uto32 | ._1Uto64 | ._8Uto16 | ._8Sto16 | ._8Uto32 | ._8Sto32
  | ._8Uto64 | ._8Sto64 | ._16Uto64 | ._16Sto64 | ._16Uto32 | ._16to8 | ._16Sto32 | ._32Uto64
  | ._32Sto64 | ._32to8 | ._32to16 | ._64to32 | ._64to1 | ._32to1 | ._64to8 | ._64to16
  | ._32UtoV128 | ._64UtoV128 | .V128to64 | .V128HIto64 | ._128to64 | ._128HIto64 | ._16HIto8
  | ._32HIto16 | ._64HIto32 | .F32toF64 | .AbsF32 | .AbsF64 | .I32StoF64 | .I32UtoF64
  | .ReinterpF64asI64 | .ReinterpI64asF64 | .ReinterpF32asI32 | .ReinterpI32asF32 | .Ctz32
  | .Ctz64 | .Clz64 | .Clz32 | .Cls32x2 | .Cls32x4 | .NegF64 | .NegF32 => 1
  | _ => 2

end Vex
