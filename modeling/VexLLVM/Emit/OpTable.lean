import VexLLVM.Emit.OpEmit
import VexLLVM.Vex.Op

/-!
# The emitter of each operation

The instances of the emission macros. The floating-point operations have two
implementations, one linked in with native arithmetic and one with calls to a
software library.
-/

namespace VexLLVM

open Vex

/-- Which of the two floating-point files is linked in. -/
inductive FPImpl where
  | native
  | softfloat
  deriving DecidableEq, Repr

def FPImpl.pick {α : Type} (fp : FPImpl) (native softfloat : α) : α :=
  match fp with
  | .native => native
  | .softfloat => softfloat

/-- The emitter of the class declared for an operation. -/
def opEmit (fp : FPImpl) : Iop → OpEmit
  | .CmpEQ8 | .CmpEQ16 | .CmpEQ32 | .CmpEQ64 | .CasCmpEQ8 | .CasCmpEQ16 | .CasCmpEQ32
  | .CasCmpEQ64 => .binop (.icmp .eq)
  | .ExpCmpNE8 | .ExpCmpNE16 | .ExpCmpNE32 | .ExpCmpNE64 | .CmpNE8 | .CmpNE16 | .CmpNE32
  | .CmpNE64 | .CasCmpNE8 | .CasCmpNE16 | .CasCmpNE32 | .CasCmpNE64 => .binop (.icmp .ne)
  | .GetMSBs8x8 => .getMSBs8x 8
  | .GetMSBs8x16 => .getMSBs8x 16
  | .MAddF64 => fp.pick .mAddF64 .unimpl
  | .CmpF64 =>
      fp.pick (.helperBinop "vexop_cmpf64" .double) (.helperBinop "vexop_softfloat_cmpf64" (.int
        64))
  | .CmpLE64S | .CmpLE32S => .binop (.icmp .sle)
  | .CmpLE64U | .CmpLE32U => .binop (.icmp .ule)
  | .CmpLT64S | .CmpLT32S => .binop (.icmp .slt)
  | .CmpLT64U | .CmpLT32U => .binop (.icmp .ult)
  | .Add8 | .Add16 | .Add32 | .Add64 => .binop (.bin .add)
  | .And8 | .And16 | .And32 | .And64 => .binop (.bin .and)
  | .AndV128 => .opv (.int 128) (.bin .and)
  | .DivModU128to64 => .divmod false 128
  | .DivModS128to64 => .divmod true 128
  | .DivModU64to32 => .divmod false 64
  | .DivModS64to32 => .divmod true 64
  | .Mul64F0x2 => fp.pick (.opf0x 2 .double .fmul) (.opf0xSoftfloat 2 (.int 64) "float64_mul")
  | .Div64F0x2 => fp.pick (.opf0x 2 .double .fdiv) (.opf0xSoftfloat 2 (.int 64) "float64_div")
  | .Add64F0x2 => fp.pick (.opf0x 2 .double .fadd) (.opf0xSoftfloat 2 (.int 64) "float64_add")
  | .Sub64F0x2 => fp.pick (.opf0x 2 .double .fsub) (.opf0xSoftfloat 2 (.int 64) "float64_sub")
  | .Mul32F0x4 => fp.pick (.opf0x 4 .float .fmul) (.opf0xSoftfloat 4 (.int 32) "float32_mul")
  | .Div32F0x4 => fp.pick (.opf0x 4 .float .fdiv) (.opf0xSoftfloat 4 (.int 32) "float32_div")
  | .Add32F0x4 => fp.pick (.opf0x 4 .float .fadd) (.opf0xSoftfloat 4 (.int 32) "float32_add")
  | .Sub32F0x4 => fp.pick (.opf0x 4 .float .fsub) (.opf0xSoftfloat 4 (.int 32) "float32_sub")
  | .Sqrt32F0x4 => fp.pick (.opf0xRsq 4 .float [.sqrt]) .unimpl
  | .Sqrt64F0x2 => fp.pick (.opf0xRsq 2 .double [.sqrt]) .unimpl
  | .Min64F0x2 => fp.pick (.opf0xSel 2 .double .ult) .unimpl
  | .Max32F0x4 => fp.pick (.opf0xSel 4 .float .ugt) .unimpl
  | .Min32F0x4 => fp.pick (.opf0xSel 4 .float .ult) .unimpl
  | .Max64F0x2 => fp.pick (.opf0xSel 2 .double .ugt) .unimpl
  | .CmpLT32F0x4 => fp.pick (.opf0xCmp 4 .float .olt) (.opf0xCmpSoftfloat 4 .float "float32_lt")
  | .CmpLE32F0x4 => fp.pick (.opf0xCmp 4 .float .ole) (.opf0xCmpSoftfloat 4 .float "float32_le")
  | .CmpEQ32F0x4 => fp.pick (.opf0xCmp 4 .float .oeq) .unimpl
  | .CmpUN32F0x4 => fp.pick (.opf0xCmp 4 .float .uno) .unimpl
  | .CmpLT64F0x2 => fp.pick (.opf0xCmp 2 .double .olt) (.opf0xCmpSoftfloat 2 .double "float64_lt")
  | .CmpLE64F0x2 => fp.pick (.opf0xCmp 2 .double .ole) (.opf0xCmpSoftfloat 2 .double "float64_le")
  | .CmpEQ64F0x2 => fp.pick (.opf0xCmp 2 .double .oeq) .unimpl
  | .CmpUN64F0x2 => fp.pick (.opf0xCmp 2 .double .uno) .unimpl
  | .SetV128lo64 => .setV128lo 2 64
  | .SetV128lo32 => .setV128lo 4 32
  | .InterleaveLO8x8 => .ileave [8, 0, 9, 1, 10, 2, 11, 3] 8 8
  | .InterleaveHI8x8 => .ileave [12, 4, 13, 5, 14, 6, 15, 7] 8 8
  | .InterleaveLO8x16 => .ileave [16, 0, 17, 1, 18, 2, 19, 3, 20, 4, 21, 5, 22, 6, 23, 7] 16 8
  | .InterleaveHI8x16 =>
      .ileave [24, 8, 25, 9, 26, 10, 27, 11, 28, 12, 29, 13, 30, 14, 31, 15] 16 8
  | .InterleaveLO16x4 => .ileave [4, 0, 5, 1] 4 16
  | .InterleaveHI16x4 => .ileave [6, 2, 7, 3] 4 16
  | .InterleaveLO16x8 => .ileave [8, 0, 9, 1, 10, 2, 11, 3] 8 16
  | .InterleaveHI16x8 => .ileave [12, 4, 13, 5, 14, 6, 15, 7] 8 16
  | .InterleaveLO64x2 => .ileave [2, 0] 2 64
  | .InterleaveHI64x2 => .ileave [3, 1] 2 64
  | .InterleaveLO32x4 => .ileave [4, 0, 5, 1] 4 32
  | .InterleaveHI32x4 => .ileave [6, 2, 7, 3] 4 32
  | .InterleaveLO32x2 => .ileave [2, 0] 2 32
  | .InterleaveHI32x2 => .ileave [3, 1] 2 32
  | .Mul8 | .Mul16 | .Mul32 | .Mul64 => .binop (.bin .mul)
  | .MullS8 => .binopExpand .sext (.int 16) .mul
  | .MullS16 => .binopExpand .sext (.int 32) .mul
  | .MullS32 => .binopExpand .sext (.int 64) .mul
  | .MullS64 => .binopExpand .sext (.int 128) .mul
  | .MullU8 => .binopExpand .zext (.int 16) .mul
  | .MullU16 => .binopExpand .zext (.int 32) .mul
  | .MullU32 => .binopExpand .zext (.int 64) .mul
  | .MullU64 => .binopExpand .zext (.int 128) .mul
  | .Max8Ux8 => .bincmp 8 (.int 8) (.icmp .ugt)
  | .Max8Ux16 => .bincmp 16 (.int 8) (.icmp .ugt)
  | .Max16Sx4 => .bincmp 4 (.int 16) (.icmp .sgt)
  | .Max16Sx8 => .bincmp 8 (.int 16) (.icmp .sgt)
  | .Min8Ux8 => .bincmp 8 (.int 8) (.icmp .ult)
  | .Min8Ux16 => .bincmp 16 (.int 8) (.icmp .ult)
  | .Min16Sx4 => .bincmp 4 (.int 16) (.icmp .slt)
  | .Min16Sx8 => .bincmp 8 (.int 16) (.icmp .slt)
  | .Min32Fx2 => fp.pick (.bincmp 2 .float (.fcmp .ult)) .unimpl
  | .Max32Fx2 => fp.pick (.bincmp 2 .float (.fcmp .ugt)) .unimpl
  | .Min32Fx4 => fp.pick (.bincmp 4 .float (.fcmp .ult)) .unimpl
  | .Max32Fx4 => fp.pick (.bincmp 4 .float (.fcmp .ugt)) .unimpl
  | .Max64Fx2 => fp.pick (.bincmp 2 .double (.fcmp .ugt)) .unimpl
  | .Min64Fx2 => fp.pick (.bincmp 2 .double (.fcmp .ult)) .unimpl
  | .Sqrt32Fx4 => fp.pick (.opvRsq 4 .float [.sqrt]) .unimpl
  | .Sqrt64Fx2 => fp.pick (.opvRsq 2 .double [.sqrt]) .unimpl
  | .RSqrtEst32Fx4 => fp.pick (.opvRsq 4 .float [.sqrt, .rcp]) .unimpl
  | .RecipEst32Fx4 => fp.pick (.opvRsq 4 .float [.rcp]) .unimpl
  | .Or8 | .Or16 | .Or32 | .Or64 => .binop (.bin .or)
  | .OrV128 => .opv (.int 128) (.bin .or)
  | .Shl8 => .shift .shl 3
  | .Shl16 => .shift .shl 4
  | .Shl32 => .shift .shl 5
  | .Shl64 => .shift .shl 6
  | .Sar8 => .shift .ashr 3
  | .Sar16 => .shift .ashr 4
  | .Sar32 => .shift .ashr 5
  | .Sar64 => .shift .ashr 6
  | .Shr8 => .shift .lshr 3
  | .Shr16 => .shift .lshr 4
  | .Shr32 => .shift .lshr 5
  | .Shr64 => .shift .lshr 6
  | .Sub8 | .Sub16 | .Sub32 | .Sub64 => .binop (.bin .sub)
  | .Xor8 | .Xor16 | .Xor32 | .Xor64 => .binop (.bin .xor)
  | .XorV128 => .opv (.int 128) (.bin .xor)
  | .Not1 | .Not8 | .Not16 | .Not32 | .Not64 => .unopNot
  | .NotV128 => .unopvNot (.int 128)
  | .Dup8x16 => .dup8x16
  | ._1Uto8 => .xToY .zext (.int 1) (.int 8)
  | ._1Uto32 => .xToY .zext (.int 1) (.int 32)
  | ._1Uto64 => .xToY .zext (.int 1) (.int 64)
  | ._8Uto16 => .xToY .zext (.int 8) (.int 16)
  | ._8Sto16 => .xToY .sext (.int 8) (.int 16)
  | ._8Uto32 => .xToY .zext (.int 8) (.int 32)
  | ._8Sto32 => .xToY .sext (.int 8) (.int 32)
  | ._8Uto64 => .xToY .zext (.int 8) (.int 64)
  | ._8Sto64 => .xToY .sext (.int 8) (.int 64)
  | ._16Uto64 => .xToY .zext (.int 16) (.int 64)
  | ._16Sto64 => .xToY .sext (.int 16) (.int 64)
  | ._16Uto32 => .xToY .zext (.int 16) (.int 32)
  | ._16to8 => .xToY .trunc (.int 16) (.int 8)
  | ._16Sto32 => .xToY .sext (.int 16) (.int 32)
  | ._32Uto64 => .xToY .zext (.int 32) (.int 64)
  | ._32Sto64 => .xToY .sext (.int 32) (.int 64)
  | ._32to8 => .xToY .trunc (.int 32) (.int 8)
  | ._32to16 => .xToY .trunc (.int 32) (.int 16)
  | ._64to32 => .xToY .trunc (.int 64) (.int 32)
  | ._64to1 => .xToY .trunc (.int 64) (.int 1)
  | ._32to1 => .xToY .trunc (.int 32) (.int 1)
  | ._64to8 => .xToY .trunc (.int 64) (.int 8)
  | ._64to16 => .xToY .trunc (.int 64) (.int 16)
  | ._32UtoV128 | ._64UtoV128 => .utoV128
  | .V128to64 => .v128to64 0
  | .V128HIto64 => .v128to64 1
  | ._128to64 => .xToY .trunc (.int 128) (.int 64)
  | ._128HIto64 => .hi128to64
  | ._8HLto16 => .hlTo 8 16
  | ._16HLto32 => .hlTo 16 32
  | ._32HLto64 => .hlTo 32 64
  | ._64HLtoV128 => .hl64toV128
  | ._64HLto128 => .hlTo 64 128
  | ._16HIto8 => .xhiToY 8
  | ._32HIto16 => .xhiToY 16
  | ._64HIto32 => .xhiToY 32
  | .F32toF64 =>
      fp.pick (.xToY .fpext .float .double) (.helperSoftfpUnop "float32_to_float64" (.int 32))
  | .AbsF32 => .helperUnop "vexop_absf32"
  | .AbsF64 => .helperUnop "vexop_absf64"
  | .F64toF32 =>
      fp.pick (.xToYRound .fptrunc .double .float) (.convertIgnoreRounding "float64_to_float32"
        (.int 64))
  | .I32StoF64 =>
      fp.pick (.xToY .sitofp (.int 32) .double) (.helperSoftfpUnop "int32_to_float64" (.int 32))
  | .I32UtoF64 =>
      fp.pick (.xToY .uitofp (.int 32) .double) (.helperSoftfpUnop "int32_to_float64" (.int 32))
  | .ReinterpF64asI64 => .xToY .bitcast .double (.int 64)
  | .ReinterpI64asF64 => .xToY .bitcast (.int 64) .double
  | .ReinterpF32asI32 => .xToY .bitcast .float (.int 32)
  | .ReinterpI32asF32 => .xToY .bitcast (.int 32) .float
  | .GetElem8x8 => .getElem 8 8
  | .GetElem32x2 => .getElem 2 32
  | .I64StoF64 =>
      fp.pick (.xToYRound .sitofp (.int 64) .double) (.convertIgnoreRounding "int64_to_float64"
        (.int 64))
  | .I64UtoF64 =>
      fp.pick (.xToYRound .uitofp (.int 64) .double) (.convertIgnoreRounding "int64_to_float64"
        (.int 64))
  | .F64toI32S | .F64toI32U =>
      fp.pick (.xToYRound .fptosi .double (.int 32)) (.convertIgnoreRounding "float64_to_int32"
        (.int 64))
  | .F64toI64S =>
      fp.pick (.xToYRound .fptosi .double (.int 64)) (.convertIgnoreRounding "float64_to_int64"
        (.int 64))
  | .Ctz32 => .helperUnop "vexop_ctz32"
  | .Ctz64 => .helperUnop "vexop_ctz64"
  | .Clz64 => .helperUnop "vexop_clz64"
  | .Clz32 => .helperUnop "vexop_clz32"
  | .Cls32x2 => .helperUnopVec 32 2 "vexop_cls32"
  | .Cls32x4 => .helperUnopVec 32 4 "vexop_cls32"
  | .Shl8x8 | .Sal8x8 => .opv (.vec 8 (.int 8)) (.bin .shl)
  | .Shr8x8 => .opv (.vec 8 (.int 8)) (.bin .lshr)
  | .Sar8x8 => .opv (.vec 8 (.int 8)) (.bin .ashr)
  | .Shl8x16 | .Sal8x16 => .opv (.vec 16 (.int 8)) (.bin .shl)
  | .Shr8x16 => .opv (.vec 16 (.int 8)) (.bin .lshr)
  | .Sar8x16 => .opv (.vec 16 (.int 8)) (.bin .ashr)
  | .Shl16x4 | .Sal16x4 => .opv (.vec 4 (.int 16)) (.bin .shl)
  | .Shr16x4 => .opv (.vec 4 (.int 16)) (.bin .lshr)
  | .Sar16x4 => .opv (.vec 4 (.int 16)) (.bin .ashr)
  | .Shl16x8 | .Sal16x8 => .opv (.vec 8 (.int 16)) (.bin .shl)
  | .Shr16x8 => .opv (.vec 8 (.int 16)) (.bin .lshr)
  | .Sar16x8 => .opv (.vec 8 (.int 16)) (.bin .ashr)
  | .Shl32x2 | .Sal32x2 => .opv (.vec 2 (.int 32)) (.bin .shl)
  | .Shr32x2 => .opv (.vec 2 (.int 32)) (.bin .lshr)
  | .Sar32x2 => .opv (.vec 2 (.int 32)) (.bin .ashr)
  | .Shl32x4 | .Sal32x4 => .opv (.vec 4 (.int 32)) (.bin .shl)
  | .Shr32x4 => .opv (.vec 4 (.int 32)) (.bin .lshr)
  | .Sar32x4 => .opv (.vec 4 (.int 32)) (.bin .ashr)
  | .SarN8x8 => .opvs 8 8 .ashr
  | .ShlN8x8 => .opvs 8 8 .shl
  | .ShrN8x8 => .opvs 8 8 .lshr
  | .SarN8x16 => .opvs 16 8 .ashr
  | .ShlN8x16 => .opvs 16 8 .shl
  | .ShrN8x16 => .opvs 16 8 .lshr
  | .ShlN16x4 => .opvs 4 16 .shl
  | .ShrN16x4 => .opvs 4 16 .lshr
  | .SarN16x4 => .opvs 4 16 .ashr
  | .ShlN16x8 => .opvs 8 16 .shl
  | .ShrN16x8 => .opvs 8 16 .lshr
  | .SarN16x8 => .opvs 8 16 .ashr
  | .ShlN32x2 => .opvs 2 32 .shl
  | .ShrN32x2 => .opvs 2 32 .lshr
  | .SarN32x2 => .opvs 2 32 .ashr
  | .ShlN32x4 => .opvs 4 32 .shl
  | .ShrN32x4 => .opvs 4 32 .lshr
  | .SarN32x4 => .opvs 4 32 .ashr
  | .ShlN64x2 => .opvs 2 64 .shl
  | .ShrN64x2 => .opvs 2 64 .lshr
  | .SarN64x2 => .opvs 2 64 .ashr
  | .Add8x8 => .opv (.vec 8 (.int 8)) (.bin .add)
  | .Add8x16 => .opv (.vec 16 (.int 8)) (.bin .add)
  | .Add16x4 => .opv (.vec 4 (.int 16)) (.bin .add)
  | .Add16x8 => .opv (.vec 8 (.int 16)) (.bin .add)
  | .Add32x2 => .opv (.vec 2 (.int 32)) (.bin .add)
  | .Add32x4 => .opv (.vec 4 (.int 32)) (.bin .add)
  | .Add64x2 => .opv (.vec 2 (.int 64)) (.bin .add)
  | .Sub8x8 => .opv (.vec 8 (.int 8)) (.bin .sub)
  | .Sub8x16 => .opv (.vec 16 (.int 8)) (.bin .sub)
  | .Sub16x4 => .opv (.vec 4 (.int 16)) (.bin .sub)
  | .Sub16x8 => .opv (.vec 8 (.int 16)) (.bin .sub)
  | .Sub32x2 => .opv (.vec 2 (.int 32)) (.bin .sub)
  | .Sub32x4 => .opv (.vec 4 (.int 32)) (.bin .sub)
  | .Sub64x2 => .opv (.vec 2 (.int 64)) (.bin .sub)
  | .Mul8x8 => .opv (.vec 8 (.int 8)) (.bin .mul)
  | .Mul8x16 => .opv (.vec 16 (.int 8)) (.bin .mul)
  | .Mul16x4 => .opv (.vec 4 (.int 16)) (.bin .mul)
  | .Mul16x8 => .opv (.vec 8 (.int 16)) (.bin .mul)
  | .Mul32x2 => .opv (.vec 2 (.int 32)) (.bin .mul)
  | .Mul32x4 => .opv (.vec 4 (.int 32)) (.bin .mul)
  | .MulHi16Ux4 => .opvExt 4 16 .zext .mul
  | .MulHi16Sx4 => .opvExt 4 16 .sext .mul
  | .MulHi16Ux8 => .opvExt 8 16 .zext .mul
  | .MulHi16Sx8 => .opvExt 8 16 .sext .mul
  | .MulHi32Ux4 => .opvExt 4 32 .zext .mul
  | .MulHi32Sx4 => .opvExt 4 32 .sext .mul
  | .NarrowBin16to8x16 => .opnrw 16 8
  | .NarrowBin32to16x8 => .opnrw 8 16
  | .QNarrowBin16Sto8Ux8 | .QNarrowUn16Sto8Ux8 => .opnrwss 4 16 0x00FF 0
  | .QNarrowBin16Sto8Ux16 => .opnrwss 8 16 0x00FF 0
  | .QNarrowBin32Sto16Ux8 => .opnrwss 4 32 0xFFFF 0
  | .QNarrowBin16Sto8Sx16 => .opnrwss 8 16 0x7F 0xFF80
  | .QNarrowBin32Sto16Sx8 => .opnrwss 4 32 0x7FFF 0xFFFF8000
  | .QNarrowBin16Sto8Sx8 => .opnrwss 4 16 0x7F 0xFF80
  | .QNarrowBin32Sto16Sx4 => .opnrwss 2 32 0x7FFF 0xFFFF8000
  | .QAdd64Sx1 =>
      .opsat 1 64 .sext .add [.high 0x7FFFFFFFFFFFFFFF .sext .sgt, .low 0x8000000000000000 .sext
        .slt]
  | .QAdd64Sx2 =>
      .opsat 2 64 .sext .add [.high 0x7FFFFFFFFFFFFFFF .sext .sgt, .low 0x8000000000000000 .sext
        .slt]
  | .QAdd64Ux1 => .opsat 1 64 .zext .add [.high 0xFFFFFFFFFFFFFFFF .zext .ugt]
  | .QAdd64Ux2 => .opsat 2 64 .zext .add [.high 0xFFFFFFFFFFFFFFFF .zext .ugt]
  | .QAdd32Sx2 => .opsat 2 32 .sext .add [.high 0x7FFFFFFF .sext .sgt, .low 0x80000000 .sext .slt]
  | .QAdd32Sx4 => .opsat 4 32 .sext .add [.high 0x7FFFFFFF .sext .sgt, .low 0x80000000 .sext .slt]
  | .QAdd32Ux2 => .opsat 2 32 .zext .add [.high 0xFFFFFFFF .zext .ugt]
  | .QAdd32Ux4 => .opsat 4 32 .zext .add [.high 0xFFFFFFFF .zext .ugt]
  | .QAdd16Sx2 => .opsat 2 16 .sext .add [.high 0x7FFF .sext .sgt, .low 0x8000 .sext .slt]
  | .QAdd16Sx4 => .opsat 4 16 .sext .add [.high 0x7FFF .sext .sgt, .low 0x8000 .sext .slt]
  | .QAdd16Sx8 => .opsat 8 16 .sext .add [.high 0x7FFF .sext .sgt, .low 0x8000 .sext .slt]
  | .QAdd16Ux2 => .opsat 2 16 .zext .add [.high 0xFFFF .zext .ugt]
  | .QAdd16Ux4 => .opsat 4 16 .zext .add [.high 0xFFFF .zext .ugt]
  | .QAdd16Ux8 => .opsat 8 16 .zext .add [.high 0xFFFF .zext .ugt]
  | .QAdd8Sx4 => .opsat 4 8 .sext .add [.high 0x7F .sext .sgt, .low 0x80 .sext .slt]
  | .QAdd8Sx8 => .opsat 8 8 .sext .add [.high 0x7F .sext .sgt, .low 0x80 .sext .slt]
  | .QAdd8Sx16 => .opsat 16 8 .sext .add [.high 0x7F .sext .sgt, .low 0x80 .sext .slt]
  | .QAdd8Ux4 => .opsat 4 8 .zext .add [.high 0xFF .zext .ugt]
  | .QAdd8Ux8 => .opsat 8 8 .zext .add [.high 0xFF .zext .ugt]
  | .QAdd8Ux16 => .opsat 16 8 .zext .add [.high 0xFF .zext .ugt]
  | .QSub64Sx1 =>
      .opsat 1 64 .sext .sub [.high 0x7FFFFFFFFFFFFFFF .sext .sgt, .low 0x8000000000000000 .sext
        .slt]
  | .QSub64Sx2 =>
      .opsat 2 64 .sext .sub [.high 0x7FFFFFFFFFFFFFFF .sext .sgt, .low 0x8000000000000000 .sext
        .slt]
  | .QSub64Ux1 => .opsat 1 64 .zext .sub [.low 0 .zext .slt]
  | .QSub64Ux2 => .opsat 2 64 .zext .sub [.low 0 .zext .slt]
  | .QSub32Sx2 => .opsat 2 32 .sext .sub [.high 0x7FFFFFFF .sext .sgt, .low 0x80000000 .sext .slt]
  | .QSub32Sx4 => .opsat 4 32 .sext .sub [.high 0x7FFFFFFF .sext .sgt, .low 0x80000000 .sext .slt]
  | .QSub32Ux2 => .opsat 2 32 .zext .sub [.low 0 .zext .slt]
  | .QSub32Ux4 => .opsat 4 32 .zext .sub [.low 0 .zext .slt]
  | .QSub16Sx2 => .opsat 2 16 .sext .sub [.high 0x7FFF .sext .sgt, .low 0x8000 .sext .slt]
  | .QSub16Sx4 => .opsat 4 16 .sext .sub [.high 0x7FFF .sext .sgt, .low 0x8000 .sext .slt]
  | .QSub16Sx8 => .opsat 8 16 .sext .sub [.high 0x7FFF .sext .sgt, .low 0x8000 .sext .slt]
  | .QSub16Ux2 => .opsat 2 16 .zext .sub [.low 0 .zext .slt]
  | .QSub16Ux4 => .opsat 4 16 .zext .sub [.low 0 .zext .slt]
  | .QSub16Ux8 => .opsat 8 16 .zext .sub [.low 0 .zext .slt]
  | .QSub8Sx4 => .opsat 4 8 .sext .sub [.high 0x7F .sext .sgt, .low 0x80 .sext .slt]
  | .QSub8Sx8 => .opsat 8 8 .sext .sub [.high 0x7F .sext .sgt, .low 0x80 .sext .slt]
  | .QSub8Sx16 => .opsat 16 8 .sext .sub [.high 0x7F .sext .sgt, .low 0x80 .sext .slt]
  | .QSub8Ux4 => .opsat 4 8 .zext .sub [.low 0 .zext .slt]
  | .QSub8Ux8 => .opsat 8 8 .zext .sub [.low 0 .zext .slt]
  | .QSub8Ux16 => .opsat 16 8 .zext .sub [.low 0 .zext .slt]
  | .Avg8Ux8 => .opavg 8 8 .zext
  | .Avg8Ux16 => .opavg 16 8 .zext
  | .Avg8Sx16 => .opavg 16 8 .sext
  | .Avg16Ux4 => .opavg 4 16 .zext
  | .Avg16Ux8 => .opavg 8 16 .zext
  | .Avg16Sx8 => .opavg 8 16 .sext
  | .Avg32Ux4 => .opavg 4 32 .zext
  | .Avg32Sx4 => .opavg 4 32 .sext
  | .HAdd16Ux2 => .ophop 2 16 .add .zext
  | .HAdd16Sx2 => .ophop 2 16 .add .sext
  | .HSub16Ux2 => .ophop 2 16 .sub .zext
  | .HSub16Sx2 => .ophop 2 16 .sub .sext
  | .HAdd8Ux4 => .ophop 4 8 .add .zext
  | .HAdd8Sx4 => .ophop 4 8 .add .sext
  | .HSub8Ux4 => .ophop 4 8 .sub .zext
  | .HSub8Sx4 => .ophop 4 8 .sub .sext
  | .Add32Fx2 => fp.pick (.opv (.vec 2 .float) (.bin .fadd)) .unimpl
  | .Add32Fx4 => fp.pick (.opv (.vec 4 .float) (.bin .fadd)) .unimpl
  | .Add64Fx2 => fp.pick (.opv (.vec 2 .double) (.bin .fadd)) .unimpl
  | .Sub32Fx2 => fp.pick (.opv (.vec 2 .float) (.bin .fsub)) .unimpl
  | .Sub32Fx4 => fp.pick (.opv (.vec 4 .float) (.bin .fsub)) .unimpl
  | .Sub64Fx2 => fp.pick (.opv (.vec 2 .double) (.bin .fsub)) .unimpl
  | .Mul32Fx2 => fp.pick (.opv (.vec 2 .float) (.bin .fmul)) .unimpl
  | .Mul32Fx4 => fp.pick (.opv (.vec 4 .float) (.bin .fmul)) .unimpl
  | .Mul64Fx2 => fp.pick (.opv (.vec 2 .double) (.bin .fmul)) .unimpl
  | .Div32Fx4 => fp.pick (.opv (.vec 4 .float) (.bin .fdiv)) .unimpl
  | .Div64Fx2 => fp.pick (.opv (.vec 2 .double) (.bin .fdiv)) .unimpl
  | .AddF64 =>
      fp.pick (.triopExpand .bitcast .double .fadd) (.helperIgnoreRounding "float64_add" (.int
        64))
  | .SubF64 =>
      fp.pick (.triopExpand .bitcast .double .fsub) (.helperIgnoreRounding "float64_sub" (.int
        64))
  | .MulF64 =>
      fp.pick (.triopExpand .bitcast .double .fmul) (.helperIgnoreRounding "float64_mul" (.int
        64))
  | .DivF64 =>
      fp.pick (.triopExpand .bitcast .double .fdiv) (.helperIgnoreRounding "float64_div" (.int
        64))
  | .NegF64 => fp.pick (.unopNeg .double) .unimpl
  | .AddF32 =>
      fp.pick (.triopExpand .bitcast .float .fadd) (.helperIgnoreRounding "float32_add" (.int
        32))
  | .SubF32 =>
      fp.pick (.triopExpand .bitcast .float .fsub) (.helperIgnoreRounding "float32_sub" (.int
        32))
  | .MulF32 =>
      fp.pick (.triopExpand .bitcast .float .fmul) (.helperIgnoreRounding "float32_mul" (.int
        32))
  | .DivF32 =>
      fp.pick (.triopExpand .bitcast .float .fdiv) (.helperIgnoreRounding "float32_div" (.int
        32))
  | .NegF32 => fp.pick (.unopNeg .float) .unimpl
  | .RoundF32toInt => fp.pick (.roundToInt .float) .unimpl
  | .RoundF64toInt => fp.pick (.roundToInt .double) .unimpl
  | .CmpEQ8x8 => .opvCmp (.vec 8 (.int 8)) (.icmp .eq) (.vec 8 (.int 8))
  | .CmpEQ8x16 => .opvCmp (.vec 16 (.int 8)) (.icmp .eq) (.vec 16 (.int 8))
  | .CmpEQ16x4 => .opvCmp (.vec 4 (.int 16)) (.icmp .eq) (.vec 4 (.int 16))
  | .CmpEQ16x8 => .opvCmp (.vec 8 (.int 16)) (.icmp .eq) (.vec 8 (.int 16))
  | .CmpEQ32x2 => .opvCmp (.vec 2 (.int 32)) (.icmp .eq) (.vec 2 (.int 32))
  | .CmpEQ32x4 => .opvCmp (.vec 4 (.int 32)) (.icmp .eq) (.vec 4 (.int 32))
  | .CmpGT8Sx8 => .opvCmp (.vec 8 (.int 8)) (.icmp .sgt) (.vec 8 (.int 8))
  | .CmpGT8Sx16 => .opvCmp (.vec 16 (.int 8)) (.icmp .sgt) (.vec 16 (.int 8))
  | .CmpGT16Sx4 => .opvCmp (.vec 4 (.int 16)) (.icmp .sgt) (.vec 4 (.int 16))
  | .CmpGT16Sx8 => .opvCmp (.vec 8 (.int 16)) (.icmp .sgt) (.vec 8 (.int 16))
  | .CmpGT32Sx2 => .opvCmp (.vec 2 (.int 32)) (.icmp .sgt) (.vec 2 (.int 32))
  | .CmpGT32Sx4 => .opvCmp (.vec 4 (.int 32)) (.icmp .sgt) (.vec 4 (.int 32))
  | .CmpGT64Sx2 => .opvCmp (.vec 2 (.int 64)) (.icmp .sgt) (.vec 2 (.int 64))
  | .CmpGT8Ux8 => .opvCmp (.vec 8 (.int 8)) (.icmp .ugt) (.vec 8 (.int 8))
  | .CmpGT8Ux16 => .opvCmp (.vec 16 (.int 8)) (.icmp .ugt) (.vec 16 (.int 8))
  | .CmpGT16Ux4 => .opvCmp (.vec 4 (.int 16)) (.icmp .ugt) (.vec 4 (.int 16))
  | .CmpGT16Ux8 => .opvCmp (.vec 8 (.int 16)) (.icmp .ugt) (.vec 8 (.int 16))
  | .CmpGT32Ux2 => .opvCmp (.vec 2 (.int 32)) (.icmp .ugt) (.vec 2 (.int 32))
  | .CmpGT32Ux4 => .opvCmp (.vec 4 (.int 32)) (.icmp .ugt) (.vec 4 (.int 32))
  | .CmpEQ32Fx2 => fp.pick (.opvCmp (.vec 2 .float) (.fcmp .oeq) (.vec 2 (.int 32))) .unimpl
  | .CmpEQ32Fx4 => fp.pick (.opvCmp (.vec 4 .float) (.fcmp .oeq) (.vec 4 (.int 32))) .unimpl
  | .CmpEQ64Fx2 => fp.pick (.opvCmp (.vec 2 .double) (.fcmp .oeq) (.vec 2 (.int 64))) .unimpl
  | .CmpGT32Fx2 => fp.pick (.opvCmp (.vec 2 .float) (.fcmp .ogt) (.vec 2 (.int 32))) .unimpl
  | .CmpGT32Fx4 => fp.pick (.opvCmp (.vec 4 .float) (.fcmp .ogt) (.vec 4 (.int 32))) .unimpl
  | .CmpGE32Fx2 => fp.pick (.opvCmp (.vec 2 .float) (.fcmp .oge) (.vec 2 (.int 32))) .unimpl
  | .CmpGE32Fx4 => fp.pick (.opvCmp (.vec 4 .float) (.fcmp .oge) (.vec 4 (.int 32))) .unimpl
  | .CmpLT32Fx4 => fp.pick (.opvCmp (.vec 4 .float) (.fcmp .olt) (.vec 4 (.int 32))) .unimpl
  | .CmpLT64Fx2 => fp.pick (.opvCmp (.vec 2 .double) (.fcmp .olt) (.vec 2 (.int 64))) .unimpl
  | .CmpLE32Fx4 => fp.pick (.opvCmp (.vec 4 .float) (.fcmp .ole) (.vec 4 (.int 32))) .unimpl
  | .CmpLE64Fx2 => fp.pick (.opvCmp (.vec 2 .double) (.fcmp .ole) (.vec 2 (.int 64))) .unimpl
  | .CmpUN32Fx4 => fp.pick (.opvCmp (.vec 4 .float) (.fcmp .uno) (.vec 4 (.int 32))) .unimpl
  | .CmpUN64Fx2 => fp.pick (.opvCmp (.vec 2 .double) (.fcmp .uno) (.vec 2 (.int 64))) .unimpl
  | .Perm8x8 => .opshuf 8 8
  | .Perm8x16 => .opshuf 16 8
  | .PRemF64 => fp.pick .pRemF64 .unimpl
  | .PRemC3210F64 => fp.pick .pRemC3210F64 .unimpl
  | .SetElem8x8 => .setElem 8 8
  | .SetElem32x2 => .setElem 2 32

end VexLLVM
