import VexLLVM.LLVM.IRBuilder
import Mathlib.Data.Nat.Notation

/-!
# How operations are emitted

The emitters of the operation classes, one for each emission macro and one for
each hand-written `emit`, with the macro's arguments as parameters. An emitter
is given the emitted operands of its node, in order.

Vector types are given by their number of lanes and the lane type, as
`get_vt(lanes, width)` takes them.
-/

namespace VexLLVM

open LLVM LLVM.Code

inductive EmitError where
  | nullExpr
  | stub
  | unimpl
  | narrowUntested
  | noHelper (f : String)
  | nullType
  | missingArg
  | assertion (what : String)
  deriving DecidableEq, Repr

abbrev OpCode := Code EmitError Value

def get32i (i : ℕ) : Value := constInt 32 i

inductive Create2 where
  | bin (o : BinOp)
  | icmp (p : IPred)
  | fcmp (p : FPred)
  deriving DecidableEq, Repr

def Create2.inst : Create2 → Value → Value → Inst
  | .bin o, a, b => .bin o a b
  | .icmp p, a, b => .icmp p a b
  | .fcmp p, a, b => .fcmp p a b

def create2 (z : Create2) (a b : Value) : OpCode := create (z.inst a b)

/-- `SHIGH` and `SLOW`: clamp against a constant extended by `ext`. -/
inductive Clamp where
  | high (c : ℕ) (ext : CastOp) (p : IPred)
  | low (c : ℕ) (ext : CastOp) (p : IPred)
  deriving DecidableEq, Repr

/-- The steps of `OPF0X_RSQ` and `OPV_RSQ`: the square root intrinsic
(`F0XINT`, `VINT`) and the reciprocal (`F0XRCP`, `VRCP`). -/
inductive RsqStep where
  | sqrt
  | rcp
  deriving DecidableEq, Repr

inductive OpEmit where
  | xToY (y : CastOp) (w z : Scalar)
  | xhiToY (y : ℕ)
  | unopNot
  | unopvNot (y : Ty)
  | dup8x16
  | setElem (e w : ℕ)
  | getElem (e w : ℕ)
  | v128to64 (i : ℕ)
  | hi128to64
  | hlTo (x y : ℕ)
  | utoV128
  | hl64toV128
  | getMSBs8x (x : ℕ)
  | binop (y : Create2)
  | binopExpand (y : CastOp) (z : Scalar) (w : BinOp)
  | bincmp (n : ℕ) (s : Scalar) (z : Create2)
  | shift (y : BinOp) (b : ℕ)
  | divmod (signed : Bool) (w : ℕ)
  | setV128lo (n w : ℕ)
  | helperUnop (f : String)
  | helperUnopVec (n w : ℕ) (f : String)
  | helperBinop (f : String) (z : Scalar)
  | ileave (mask : List ℕ) (n w : ℕ)
  | opv (y : Ty) (z : Create2)
  | opvExt (n w : ℕ) (z : CastOp) (o : BinOp)
  | opnrw (n w : ℕ)
  | opnrwss (n w c negC : ℕ)
  | opsat (n w : ℕ) (ext : CastOp) (op : BinOp) (clamps : List Clamp)
  | opavg (n w : ℕ) (ext : CastOp)
  | ophop (n w : ℕ) (aop : BinOp) (ext : CastOp)
  | opvCmp (y : Ty) (z : Create2) (w : Ty)
  | opvs (n w : ℕ) (z : BinOp)
  | opshuf (n w : ℕ)
  | xToYRound (y : CastOp) (w z : Scalar)
  | opf0x (n : ℕ) (s : Scalar) (z : BinOp)
  | opf0xCmp (n : ℕ) (s : Scalar) (z : FPred)
  | opf0xSel (n : ℕ) (s : Scalar) (z : FPred)
  | opf0xRsq (n : ℕ) (s : Scalar) (steps : List RsqStep)
  | opvRsq (n : ℕ) (s : Scalar) (steps : List RsqStep)
  | unopNeg (y : Ty)
  | triopExpand (y : CastOp) (z : Scalar) (w : BinOp)
  | roundToInt (s : Scalar)
  | pRemF64
  | pRemC3210F64
  | mAddF64
  | opf0xSoftfloat (n : ℕ) (s : Scalar) (f : String)
  | opf0xCmpSoftfloat (n : ℕ) (s : Scalar) (f : String)
  | convertIgnoreRounding (f : String) (z : Scalar)
  | helperIgnoreRounding (f : String) (z : Scalar)
  | helperSoftfpUnop (f : String) (z : Scalar)
  | unimpl
  deriving DecidableEq, Repr

abbrev Helpers := String → Option FnTy

/-- `getCallHelper` or `getHelper`, the assertion that it found something, and
the call. -/
def callHelper (helpers : Helpers) (f : String) (args : List Value) : OpCode :=
  match helpers f with
  | some sig => createCall f sig args
  | none => .fail (.noHelper f)

def onesFP : Ty → Value
  | .scalar .double => .const .double 0x3FF0000000000000
  | .scalar .float => .const .float 0x3F800000
  | .vec n .double => .const (.vec n .double) (ofLanes 64 (List.replicate n 0x3FF0000000000000))
  | .vec n .float => .const (.vec n .float) (ofLanes 32 (List.replicate n 0x3F800000))
  | t => .const t 0

def zeroVec (n : ℕ) (s : Scalar) : OpCode :=
  createBitCast (constInt (n * s.bits) 0) (.vec n s)

/-- The vector with `elem i` in lane `i`, inserted one after the other. -/
def insertLanes (n : ℕ) (s : Scalar) (elem : ℕ → OpCode) : OpCode := do
  let result ← zeroVec n s
  (List.range n).foldlM (fun result i => do
    let e ← elem i
    createInsertElement result e (get32i i)) result

namespace OpEmit

def emitXToY (y : CastOp) (w z : Scalar) (v1 : Value) : OpCode := do
  let bits := v1.ty.bits
  let v1 ←
    if bits < w.bits then do
      let v ← createBitCast v1 (.int bits)
      createZExt v (.scalar w)
    else if w.bits < bits then do
      let v ← createBitCast v1 (.int bits)
      createTrunc v (.scalar w)
    else pure v1
  let v1 ← createBitCast v1 (.scalar w)
  createCast y v1 (.scalar z)

/-- `XHI_TO_Y_EMIT(x, y, get_i(2y), get_i(y))`. -/
def emitXhiToY (y : ℕ) (v1 : Value) : OpCode := do
  let v1 ← createBitCast v1 (.int (2 * y))
  let v ← createBin .lshr v1 (constInt (y * 2) y)
  createTrunc v (.int y)

/-- `UNOPV_EMIT(x, y, Not)`. -/
def emitUnopvNot (y : Ty) (v1 : Value) : OpCode := do
  let v1 ← createBitCast v1 y
  createNot v1

def emitDup8x16 (v1 : Value) : OpCode := do
  let v0 ← createZExt v1 (.int (8 * 16))
  [1, 2, 3, 4].foldlM (fun v i => do
    let s ← createBin .shl v (constInt (8 * 16) (8 <<< (i - 1)))
    createBin .or v s) v0

def emitGetElem (e w : ℕ) (v1 v2 : Value) : OpCode := do
  let v1 ← createBitCast v1 (.vec e (.int w))
  createExtractElement v1 v2

def emitSetElem (e w : ℕ) (v1 v2 v3 : Value) : OpCode := do
  let v1 ← createBitCast v1 (.vec e (.int w))
  createInsertElement v1 v3 v2

/-- `V128to64`, lane `0`, and `V128HIto64`, lane `1`. -/
def emitV128to64 (i : ℕ) (v1 : Value) : OpCode := do
  let v1 ← createBitCast v1 (.vec 2 (.int 64))
  createExtractElement v1 (get32i i)

def emitHi128to64 (v1 : Value) : OpCode :=
  if v1.ty.bits = 128 then emitV128to64 1 v1
  else .fail (.assertion "v1->getType()->getPrimitiveSizeInBits() == 128")

/-- `X_HL_TO_Y_EMIT`, and `64HLto128`. -/
def emitHLto (x y : ℕ) (v1 v2 : Value) : OpCode := do
  let vHi ← createZExt v1 (.int y)
  let vLo ← createZExt v2 (.int y)
  let s ← createBin .shl vHi (constInt y x)
  createBin .or vLo s

/-- `32UtoV128` and `64UtoV128`. -/
def emitUtoV128 (v1 : Value) : OpCode := do
  let v ← createZExt v1 (.int 128)
  createBitCast v (.vec 16 (.int 8))

def emitHL64toV128 (v1 v2 : Value) : OpCode := do
  let v1 ← createBitCast v1 (.int 64)
  let v2 ← createBitCast v2 (.int 64)
  let v ← emitHLto 64 128 v1 v2
  createBitCast v (.vec 16 (.int 8))

def emitGetMSBs8x (x : ℕ) (v1 : Value) : OpCode := do
  let vec ← createBitCast v1 (.vec x (.int 8))
  (List.range x).foldlM (fun ret i => do
    let cur ← createExtractElement vec (get32i i)
    let cur ← createBin .lshr cur (constInt 8 7)
    let cur ← createZExt cur (.int x)
    let cur ← createBin .shl cur (constInt x i)
    createBin .or ret cur) (constInt x 0)

def emitBinop (y : Create2) (v1 v2 : Value) : OpCode := do
  let v2 ← createZExt v2 v1.ty
  create2 y v1 v2

def emitBinopExpand (y : CastOp) (z : Scalar) (w : BinOp) (v1 v2 : Value) : OpCode := do
  let v1 ← createCast y v1 (.scalar z)
  let v2 ← createCast y v2 (.scalar z)
  createBin w v1 v2

def emitBincmp (n : ℕ) (s : Scalar) (z : Create2) (v1 v2 : Value) : OpCode := do
  let v1 ← createBitCast v1 (.vec n s)
  let v2 ← createBitCast v2 (.vec n s)
  insertLanes n s fun i => do
    let e1 ← createExtractElement v1 (get32i i)
    let e2 ← createExtractElement v2 (get32i i)
    let c ← create2 z e1 e2
    createSelect c e1 e2

def emitShift (y : BinOp) (b : ℕ) (v1 v2 : Value) : OpCode := do
  let t ← createTrunc v2 (.int b)
  let t ← createZExt t v1.ty
  createBin y v1 t

def emitDivmod (signed : Bool) (w : ℕ) (v1 v2 : Value) : OpCode := do
  let v1 ← createBitCast v1 (.int w)
  let v2 ← createCast (if signed then .sext else .zext) v2 (.int w)
  let div ← createBin (if signed then .sdiv else .udiv) v1 v2
  let rem ← createBin (if signed then .srem else .urem) v1 v2
  let rem ← createBin .shl rem (constInt w (w / 2))
  let div ← createTrunc div (.int (w / 2))
  let div ← createZExt div (.int w)
  createBin .or div rem

/-- `SetV128lo64` and `SetV128lo32`. -/
def emitSetV128lo (n w : ℕ) (v1 v2 : Value) : OpCode := do
  let v1 ← createBitCast v1 (.vec n (.int w))
  createInsertElement v1 v2 (get32i 0)

def emitHelperUnopVec (helpers : Helpers) (n w : ℕ) (f : String) (v1 : Value) : OpCode := do
  let v ← createBitCast v1 (.vec n (.int w))
  match helpers f with
  | none => .fail (.noHelper f)
  | some sig =>
      insertLanes n (.int w) fun i => do
        let x ← createExtractElement v (get32i i)
        createCall f sig [x]

def emitHelperBinop (helpers : Helpers) (f : String) (z : Scalar) (v1 v2 : Value) : OpCode := do
  let v1 ← createBitCast v1 (.scalar z)
  let v2 ← createBitCast v2 (.scalar z)
  callHelper helpers f [v1, v2]

def emitIleave (mask : List ℕ) (n w : ℕ) (v1 v2 : Value) : OpCode := do
  let v1 ← createBitCast v1 (.vec n (.int w))
  let v2 ← createBitCast v2 (.vec n (.int w))
  createShuffleVector v1 v2 mask

def emitOpv (y : Ty) (z : Create2) (v1 v2 : Value) : OpCode := do
  let v1 ← createBitCast v1 y
  let v2 ← createBitCast v2 y
  create2 z v1 v2

/-- `OPV_EXT_EMIT`: the shift vector has the shift amount in lane `0`, and the
shuffle copies it into all lanes. -/
def emitOpvExt (n w : ℕ) (z : CastOp) (o : BinOp) (v1 v2 : Value) : OpCode := do
  let y : Ty := .vec n (.int w)
  let w' : Ty := .vec n (.int (2 * w))
  let v1 ← createBitCast v1 y
  let v1 ← createCast z v1 w'
  let v2 ← createBitCast v2 y
  let v2 ← createCast z v2 w'
  let full ← createBin o v1 v2
  let shift ← createZExt (constInt (w * 2) w) (.int w'.bits)
  let shift ← createBitCast shift w'
  let shift ← createShuffleVector shift shift (List.replicate n 0)
  let v ← createBin .lshr full shift
  createTrunc v y

/-- `OPNRW_EMIT`: the operands are cast, and then the emitter asserts `false`. -/
def emitOpnrw (n w : ℕ) (v1 v2 : Value) : OpCode := do
  let _ ← createBitCast v1 (.vec n (.int w))
  let _ ← createBitCast v2 (.vec n (.int w))
  .fail .narrowUntested

def emitNrwssLane (w c negC : ℕ) (v : Value) (i : ℕ) : OpCode := do
  let elem ← createExtractElement v (get32i i)
  let gt ← createICmp .sgt elem (constInt w c)
  let elem ← createSelect gt (constInt w c) elem
  let lt ← createICmp .slt elem (constInt w negC)
  let elem ← createSelect lt (constInt w negC) elem
  createTrunc elem (.int (w / 2))

/-- `OPNRWSS_EMIT`: the lanes of the second operand come first. -/
def emitOpnrwss (n w c negC : ℕ) (v1 v2 : Value) : OpCode := do
  let v1 ← createBitCast v1 (.vec n (.int w))
  let v2 ← createBitCast v2 (.vec n (.int w))
  let result ← zeroVec (2 * n) (.int (w / 2))
  let result ← (List.range n).foldlM (fun result i => do
    let elem ← emitNrwssLane w c negC v2 i
    createInsertElement result elem (get32i i)) result
  (List.range n).foldlM (fun result i => do
    let elem ← emitNrwssLane w c negC v1 i
    createInsertElement result elem (get32i (i + n))) result

/-- `SHIGH` and `SLOW` on a lane of `d` bits. -/
def emitClamp (w d : ℕ) (elem : Value) : Clamp → OpCode
  | .high c ext p => do
      let hi ← createCast ext (constInt w c) (.int d)
      let gt ← createICmp p elem hi
      createSelect gt hi elem
  | .low c ext p => do
      let lo ← createCast ext (constInt w c) (.int d)
      let lt ← createICmp p elem lo
      createSelect lt lo elem

/-- `OPSAT_EMIT`: the lanes are one bit wider while they are clamped. -/
def emitOpsat (n w : ℕ) (ext : CastOp) (op : BinOp) (clamps : List Clamp)
    (v1 v2 : Value) : OpCode := do
  let v1 ← createBitCast v1 (.vec n (.int w))
  let v2 ← createBitCast v2 (.vec n (.int w))
  let v1 ← createCast ext v1 (.vec n (.int (w + 1)))
  let v2 ← createCast ext v2 (.vec n (.int (w + 1)))
  let part ← createBin op v1 v2
  insertLanes n (.int w) fun i => do
    let elem ← createExtractElement part (get32i i)
    let elem ← clamps.foldlM (emitClamp w (w + 1)) elem
    createTrunc elem (.int w)

def emitOpavg (n w : ℕ) (ext : CastOp) (v1 v2 : Value) : OpCode := do
  let v1 ← createBitCast v1 (.vec n (.int w))
  let v2 ← createBitCast v2 (.vec n (.int w))
  let v1 ← createCast ext v1 (.vec n (.int (2 * w)))
  let v2 ← createCast ext v2 (.vec n (.int (2 * w)))
  let part ← createBin .add v1 v2
  insertLanes n (.int w) fun i => do
    let e ← createExtractElement part (get32i i)
    let e ← createBin .add e (constInt e.ty.bits 1)
    let e ← createBin .lshr e (constInt e.ty.bits 1)
    createTrunc e (.int w)

def emitOphop (n w : ℕ) (aop : BinOp) (ext : CastOp) (v1 v2 : Value) : OpCode := do
  let v1 ← createBitCast v1 (.vec n (.int w))
  let v2 ← createBitCast v2 (.vec n (.int w))
  let ret ← insertLanes n (.int w) fun i => do
    let lhs ← createExtractElement v1 (get32i i)
    let rhs ← createExtractElement v2 (get32i i)
    let lhs ← createCast ext lhs (.int (2 * w))
    let rhs ← createCast ext rhs (.int (2 * w))
    let e ← createBin aop lhs rhs
    let e ← createBin .lshr e (constInt (w * 2) 1)
    createTrunc e (.int w)
  createBitCast ret (.int (n * w))

/-- `OPV_CMP_T_EMIT`, and `OPV_CMP_EMIT` with `w = y`. -/
def emitOpvCmp (y : Ty) (z : Create2) (w : Ty) (v1 v2 : Value) : OpCode := do
  let v1 ← createBitCast v1 y
  let v2 ← createBitCast v2 y
  let c ← create2 z v1 v2
  createCast .sext c w

/-- `OPVS_EMIT`: a constant amount becomes a constant vector of its truncation. -/
def emitOpvs (n w : ℕ) (z : BinOp) (v1 v2 : Value) : OpCode := do
  let y : Ty := .vec n (.int w)
  let v1 ← createBitCast v1 y
  let v2 ← createZExt v2 (.int y.bits)
  match v2 with
  | .const _ x => createBin z v1 (.const y (ofLanes w (List.replicate n x)))
  | v2 => do
      let v2 ← createBitCast v2 y
      let v2 ← createShuffleVector v2 v2 (List.replicate n 0)
      createBin z v1 v2

/-- `OPSHUF_EMIT`: an index equal to the last one reuses the last element. -/
def emitOpshuf (n w : ℕ) (v1 v2 : Value) : OpCode := do
  let v1 ← createBitCast v1 (.vec n (.int w))
  let v2 ← createBitCast v2 (.vec n (.int w))
  let result ← zeroVec n (.int w)
  let out ← (List.range n).foldlM (fun (s : Value × Option (Value × Value)) i => do
    let idx ← createExtractElement v2 (get32i i)
    let permIdx ← createZExt idx (.int 32)
    let extElem ←
      match s.2 with
      | some (lastIdx, lastElem) =>
          if permIdx = lastIdx then pure lastElem else createExtractElement v1 permIdx
      | none => createExtractElement v1 permIdx
    let r ← createInsertElement s.1 extElem (get32i i)
    pure (r, some (permIdx, extElem))) (result, none)
  pure out.1

/-- `X_TO_Y_EMIT_ROUND`: the rounding mode is dropped. -/
def emitXToYRound (y : CastOp) (w z : Scalar) (v2 : Value) : OpCode := do
  let v2 ← createBitCast v2 (.scalar w)
  createCast y v2 (.scalar z)

/-- `OPF0X_EMIT_BEGIN` and `OPF0X_EMIT_END` around an operation on the low
lanes. -/
def emitF0x (n : ℕ) (s : Scalar) (op : Value → Value → OpCode) (v1 v2 : Value) : OpCode := do
  let v1 ← createBitCast v1 (.vec n s)
  let v2 ← createBitCast v2 (.vec n s)
  let lhs ← createExtractElement v1 (get32i 0)
  let rhs ← createExtractElement v2 (get32i 0)
  let result ← op lhs rhs
  createInsertElement v1 result (get32i 0)

def emitOpf0x (n : ℕ) (s : Scalar) (z : BinOp) : Value → Value → OpCode :=
  emitF0x n s (createBin z)

/-- The truth value of a lane comparison, as all ones or zero of the lane type. -/
def emitMask (s : Scalar) (c : Value) : OpCode := do
  let r ← createCast .sext c (.int s.bits)
  createBitCast r (.scalar s)

def emitOpf0xCmp (n : ℕ) (s : Scalar) (z : FPred) : Value → Value → OpCode :=
  emitF0x n s fun a b => do
    let c ← createFCmp z a b
    emitMask s c

def emitOpf0xSel (n : ℕ) (s : Scalar) (z : FPred) : Value → Value → OpCode :=
  emitF0x n s fun a b => do
    let c ← createFCmp z a b
    createSelect c a b

def emitRsqStep (t : Ty) (v : Value) : RsqStep → OpCode
  | .sqrt => createCall "llvm.sqrt" ⟨[t], t⟩ [v]
  | .rcp => createBin .fdiv (onesFP t) v

def emitOpf0xRsq (n : ℕ) (s : Scalar) (steps : List RsqStep) (v1 : Value) : OpCode := do
  let v1 ← createBitCast v1 (.vec n s)
  let a1 ← createExtractElement v1 (get32i 0)
  let a1 ← steps.foldlM (emitRsqStep (.scalar s)) a1
  createInsertElement v1 a1 (get32i 0)

def emitOpvRsq (n : ℕ) (s : Scalar) (steps : List RsqStep) (v1 : Value) : OpCode := do
  let v1 ← createBitCast v1 (.vec n s)
  steps.foldlM (emitRsqStep (.vec n s)) v1

def emitUnopNeg (y : Ty) (v1 : Value) : OpCode := do
  let v1 ← createBitCast v1 y
  createBin .fsub (.const y 0) v1

def emitRoundToInt (s : Scalar) (v2 : Value) : OpCode := do
  let v2 ← createBitCast v2 (.scalar s)
  let r ← createBin .frem v2 (onesFP (.scalar s))
  createBin .fsub v2 r

def emitPRemF64 (v2 v3 : Value) : OpCode := do
  let v2 ← createBitCast v2 .double
  let v3 ← createBitCast v3 .double
  createBin .frem v2 v3

/-- Bit `i` of the quotient selects the flag `c`. -/
def emitPRemFlag (quotient result : Value) (i c : ℕ) : OpCode := do
  let q ← if i = 0 then pure quotient else createBin .lshr quotient (get32i i)
  let b ← createTrunc q (.int 1)
  let f ← createSelect b (get32i c) (get32i 0)
  createBin .or result f

def emitPRemC3210F64 (v2 v3 : Value) : OpCode := do
  let v2 ← createBitCast v2 .double
  let v3 ← createBitCast v3 .double
  let quotient ← createBin .fdiv v2 v3
  let quotient ← createCast .fptosi quotient (.int 32)
  let result ← emitPRemFlag quotient (get32i 0) 0 0x200
  let result ← emitPRemFlag quotient result 1 0x4000
  emitPRemFlag quotient result 2 0x100

def emitMAddF64 (v2 v3 v4 : Value) : OpCode := do
  let m ← createBin .fmul v2 v3
  createBin .fadd m v4

/-- The cast to an integer of the same width `OPF0X_EMIT_SOFTFLOAT_OP` makes
where the lane is not one. -/
def emitToInt (v : Value) : OpCode :=
  match v.ty with
  | .int _ => pure v
  | t => createBitCast v (.int t.bits)

def emitSoftfloatOp (helpers : Helpers) (f : String) (lhs rhs : Value) : OpCode :=
  match helpers f with
  | none => .fail (.noHelper f)
  | some sig => do
      let lhs ← emitToInt lhs
      let rhs ← emitToInt rhs
      createCall f sig [lhs, rhs]

def emitOpf0xCmpSoftfloat (helpers : Helpers) (n : ℕ) (s : Scalar) (f : String) :
    Value → Value → OpCode :=
  emitF0x n s fun a b => do
    let r ← emitSoftfloatOp helpers f a b
    let c ← createICmp .ne r (constInt r.ty.bits 0)
    emitMask s c

/-- `EMIT_CONVERT_IGNORE_ROUNDING` and `EMIT_HELPER_SOFTFP_UNOP`. -/
def emitHelperCast (helpers : Helpers) (f : String) (z : Scalar) (v : Value) : OpCode :=
  match helpers f with
  | none => .fail (.noHelper f)
  | some sig => do
      let v ← createBitCast v (.scalar z)
      createCall f sig [v]

/-- `VexExpr…::emit` of the class, on its emitted operands. -/
def build (helpers : Helpers) : OpEmit → List Value → OpCode
  | xToY y w z, [v1] => emitXToY y w z v1
  | xhiToY y, [v1] => emitXhiToY y v1
  | unopNot, [v1] => createNot v1
  | unopvNot y, [v1] => emitUnopvNot y v1
  | dup8x16, [v1] => emitDup8x16 v1
  | setElem e w, [v1, v2, v3] => emitSetElem e w v1 v2 v3
  | getElem e w, [v1, v2] => emitGetElem e w v1 v2
  | v128to64 i, [v1] => emitV128to64 i v1
  | hi128to64, [v1] => emitHi128to64 v1
  | hlTo x y, [v1, v2] => emitHLto x y v1 v2
  | utoV128, [v1] => emitUtoV128 v1
  | hl64toV128, [v1, v2] => emitHL64toV128 v1 v2
  | getMSBs8x x, [v1] => emitGetMSBs8x x v1
  | binop y, [v1, v2] => emitBinop y v1 v2
  | binopExpand y z w, [v1, v2] => emitBinopExpand y z w v1 v2
  | bincmp n s z, [v1, v2] => emitBincmp n s z v1 v2
  | shift y b, [v1, v2] => emitShift y b v1 v2
  | divmod signed w, [v1, v2] => emitDivmod signed w v1 v2
  | setV128lo n w, [v1, v2] => emitSetV128lo n w v1 v2
  | helperUnop f, [v1] => callHelper helpers f [v1]
  | helperUnopVec n w f, [v1] => emitHelperUnopVec helpers n w f v1
  | helperBinop f z, [v1, v2] => emitHelperBinop helpers f z v1 v2
  | ileave mask n w, [v1, v2] => emitIleave mask n w v1 v2
  | opv y z, [v1, v2] => emitOpv y z v1 v2
  | opvExt n w z o, [v1, v2] => emitOpvExt n w z o v1 v2
  | opnrw n w, [v1, v2] => emitOpnrw n w v1 v2
  | opnrwss n w c negC, [v1, v2] => emitOpnrwss n w c negC v1 v2
  | opsat n w ext op clamps, [v1, v2] => emitOpsat n w ext op clamps v1 v2
  | opavg n w ext, [v1, v2] => emitOpavg n w ext v1 v2
  | ophop n w aop ext, [v1, v2] => emitOphop n w aop ext v1 v2
  | opvCmp y z w, [v1, v2] => emitOpvCmp y z w v1 v2
  | opvs n w z, [v1, v2] => emitOpvs n w z v1 v2
  | opshuf n w, [v1, v2] => emitOpshuf n w v1 v2
  | xToYRound y w z, [_, v2] => emitXToYRound y w z v2
  | opf0x n s z, [v1, v2] => emitOpf0x n s z v1 v2
  | opf0xCmp n s z, [v1, v2] => emitOpf0xCmp n s z v1 v2
  | opf0xSel n s z, [v1, v2] => emitOpf0xSel n s z v1 v2
  | opf0xRsq n s steps, [v1] => emitOpf0xRsq n s steps v1
  | opvRsq n s steps, [v1] => emitOpvRsq n s steps v1
  | unopNeg y, [v1] => emitUnopNeg y v1
  | triopExpand y z w, [_, v2, v3] => emitBinopExpand y z w v2 v3
  | roundToInt s, [_, v2] => emitRoundToInt s v2
  | pRemF64, [_, v2, v3] => emitPRemF64 v2 v3
  | pRemC3210F64, [_, v2, v3] => emitPRemC3210F64 v2 v3
  | mAddF64, [_, v2, v3, v4] => emitMAddF64 v2 v3 v4
  | opf0xSoftfloat n s f, [v1, v2] => emitF0x n s (emitSoftfloatOp helpers f) v1 v2
  | opf0xCmpSoftfloat n s f, [v1, v2] => emitOpf0xCmpSoftfloat helpers n s f v1 v2
  | convertIgnoreRounding f z, [_, v2] => emitHelperCast helpers f z v2
  | helperIgnoreRounding f z, [_, v2, v3] => emitHelperBinop helpers f z v2 v3
  | helperSoftfpUnop f z, [v1] => emitHelperCast helpers f z v1
  | unimpl, _ => .fail .unimpl
  | _, _ => .fail .missingArg

end OpEmit

end VexLLVM
