import VexLLVM.Emit.OpTable
import VexLLVM.Vex.Syntax

/-!
# The code generator

`GenLLVM` and `MemLog`: the state kept while one function is emitted, accesses
to the guest context through its two pointer caches, and accesses to guest
memory. The emitted function takes the guest context and, when stores are
logged, the log.

The state also holds the `values` of the superblock being emitted. Its `reads`
are a record of the `getRegValue` calls made so far, each with the block being
filled; nothing in the generator looks at them.
-/

namespace VexLLVM

open LLVM LLVM.Code Vex

/-- What the generator is set up with: the guest's memory and context layout,
its switches, and the helper functions. -/
structure GenLLVM where
  is32Bit : Bool
  base : BitVec 64
  useReloc : Bool
  logLastStore : Bool
  fakeVsysReads : Bool
  /-- `getSysHostAddr`: the eight bytes at the host copy of a guest address. -/
  sysHostAddr : BitVec 64 → Option (BitVec 64)
  exitTypeOffset : ℕ
  guestCtxTy : Ty
  helpers : Helpers
  fp : FPImpl
  linuxSysenter : Bool

structure GenState extends Builder where
  gepbyteMap : ℕ × ℕ → Option Value
  ctxcastMap : Ty → Option Value
  values : IRTemp → Option Value
  reads : List (IRTemp × ℕ)

abbrev EmitM := StateT GenState (Except EmitError)

/-- Emit straight-line code. -/
def code {α : Type} (c : Code EmitError α) : EmitM α := fun σ =>
  match c.run σ.toBuilder with
  | .ok (a, b) => .ok (a, { σ with toBuilder := b })
  | .error e => .error e

theorem code_eq_ok {α : Type} {c : Code EmitError α} {σ σ' : GenState} {a : α}
    (h : code c σ = .ok (a, σ')) :
    ∃ b, c.run σ.toBuilder = .ok (a, b) ∧ σ' = { σ with toBuilder := b } := by
  unfold code at h
  cases hrun : c.run σ.toBuilder with
  | error e =>
      rw [hrun] at h
      cases h
  | ok r =>
      rw [hrun] at h
      cases h
      exact ⟨r.2, rfl, rfl⟩

theorem code_bind {α β : Type} (c : Code EmitError α) (f : α → Code EmitError β) :
    code (c >>= f) = code c >>= fun a => code (f a) := by
  funext σ
  change _ = (code c σ).bind fun r => code (f r.1) r.2
  unfold code
  rw [run_bind]
  cases c.run σ.toBuilder with
  | ok r =>
      change _ = (Except.ok (r.1, { σ with toBuilder := r.2 })).bind _
      rfl
  | error e => rfl

def createBlock : EmitM ℕ := fun σ =>
  .ok (σ.toBuilder.createBlock.1, { σ with toBuilder := σ.toBuilder.createBlock.2 })

def endBlock (t : Term) (next : ℕ) : EmitM Unit := fun σ =>
  .ok ((), { σ with toBuilder := (σ.toBuilder.terminate t).setInsertPoint next })

def getInsertBlock : EmitM ℕ := do return (← get).insertBlock

/-- `vexTy2LLVM`, without the types it answers `NULL` to. -/
def vexTy2LLVM : IRType → Option Ty
  | .I1 => some (.int 1)
  | .I8 => some (.int 8)
  | .I16 => some (.int 16)
  | .I32 => some (.int 32)
  | .I64 => some (.int 64)
  | .F32 => some .float
  | .F64 => some .double
  | .V128 => some (.vec 16 (.int 8))
  | .V256 => some (.vec 32 (.int 8))
  | _ => none

/-- `vexTy2LLVM` where its result is used right away. -/
def llvmTy (t : IRType) : EmitM Ty :=
  match vexTy2LLVM t with
  | some t => pure t
  | none => throw .nullType

/-- `MemLog::getType`: the address, the size and sixteen bytes of data. -/
def MemLog.type : Ty :=
  .field (.ptr (.int 8)) (.field (.int 64) (.field (.vec 16 (.int 8)) .emptyStruct))

def entryBB : ℕ := 0

namespace GenLLVM

variable (gen : GenLLVM)

def curGuestCtx : Value := .arg 0 (.ptr gen.guestCtxTy)

def curMemoryLog : Value := .arg 1 (.ptr MemLog.type)

/-- `beginBB`, together with the clearing of `values` in `VexSB::emit`. -/
def beginBB : GenState where
  toBuilder := .empty
  gepbyteMap _ := none
  ctxcastMap _ := none
  values _ := none
  reads := []

/-- The guest context as a pointer to the access type: cast anew outside the
entry block, and from the cache inside it. -/
def getCtxPtr (ptrTy : Ty) : EmitM Value := do
  let σ ← get
  if σ.insertBlock ≠ entryBB then
    code (createBitCast gen.curGuestCtx ptrTy)
  else
    match σ.ctxcastMap ptrTy with
    | some p => pure p
    | none => do
        let p ← code (createBitCast gen.curGuestCtx ptrTy)
        modify fun σ => { σ with ctxcastMap := Function.update σ.ctxcastMap ptrTy (some p) }
        pure p

def getCtxTyGEP (off : Value) (accessTy : Ty) : EmitM Value := do
  let addr ← gen.getCtxPtr (.ptr accessTy)
  code (create (.gep addr off))

def getCtxByteGEP (byteOff : ℕ) (accessTy : Ty) : EmitM Value := do
  let tyBytes := accessTy.bytes
  if tyBytes = 0 then throw (.assertion "Access type is 0 bytes???")
  let σ ← get
  match σ.gepbyteMap (byteOff, tyBytes) with
  | some p =>
      if σ.insertBlock = entryBB ∧ p.ty = .ptr accessTy then pure p
      else gen.getCtxTyGEP (constInt 32 (byteOff / tyBytes)) accessTy
  | none => do
      let gep ← gen.getCtxTyGEP (constInt 32 (byteOff / tyBytes)) accessTy
      modify fun σ =>
        { σ with gepbyteMap := Function.update σ.gepbyteMap (byteOff, tyBytes) (some gep) }
      pure gep

def readCtx (byteOff : ℕ) (ty : IRType) : EmitM Value := do
  let accessTy ← llvmTy ty
  let p ← gen.getCtxByteGEP byteOff accessTy
  code (create (.load p 0))

def writeCtx (byteOff : ℕ) (v : Value) : EmitM Unit := do
  let p ← gen.getCtxByteGEP byteOff v.ty
  let _ ← code (create (.store v p 0))

/-- The element pointer of an indexed access: `base + (ix + bias) urem len`, in
elements. -/
def getCtxElem (byteOff : ℕ) (bias : ℤ) (len : ℕ) (ix : Value) (accessTy : Ty) : EmitM Value := do
  if accessTy.bytes = 0 ∨ byteOff % accessTy.bytes ≠ 0 then
    throw (.assertion "byteOff % (accessTy->getPrimitiveSizeInBits() / 8) == 0")
  let offset ← code do
    let ix ← createBitCast ix (.int 32)
    let offset ← createBin .add ix (constInt 32 (BitVec.ofInt 32 bias).toNat)
    let offset ← createBin .urem offset (constInt 32 len)
    createBin .add offset (constInt 32 (byteOff / accessTy.bytes))
  gen.getCtxTyGEP offset accessTy

def readCtxI (byteOff : ℕ) (bias : ℤ) (len : ℕ) (ix : Value) (accessTy : Ty) : EmitM Value := do
  let addr ← gen.getCtxElem byteOff bias len ix accessTy
  code (create (.load addr 0))

def writeCtxI (byteOff : ℕ) (bias : ℤ) (len : ℕ) (ix v : Value) : EmitM Unit := do
  let addr ← gen.getCtxElem byteOff bias len ix v.ty
  let _ ← code (create (.store v addr 0))

def recordStore (logV addrV dataV : Value) : Code EmitError Unit := do
  let addr ← createCast .inttoptr addrV (.ptr (.int 8))
  let entry ← create (.insertvalue (.undef MemLog.type) addr 0)
  let bits := dataV.ty.bits
  let entry ← create (.insertvalue entry (constInt 64 (bits / 8)) 1)
  let dataV ← createBitCast dataV (.int bits)
  let dataV ← createZExt dataV (.int 128)
  let dataV ← createBitCast dataV (.vec 16 (.int 8))
  let entry ← create (.insertvalue entry dataV 2)
  let _ ← create (.store entry logV 8)

def relocates : Bool := gen.base ≠ 0 && gen.useReloc

/-- A guest address as a host integer, before relocation. -/
def hostAddr (addrV : Value) : Code EmitError Value :=
  if gen.is32Bit then createZExt addrV (.int 64) else pure addrV

/-- The pointer to a host integer, after relocation. -/
def hostPtr (addrV : Value) (ty : Ty) : Code EmitError Value := do
  let addrV ←
    if gen.relocates then createBin .add addrV (constInt 64 gen.base.toNat) else pure addrV
  createCast .inttoptr addrV (.ptr ty)

def store (addrV dataV : Value) : EmitM Unit := do
  if gen.logLastStore then code (recordStore curMemoryLog addrV dataV)
  code do
    let addrV ← gen.hostAddr addrV
    let p ← gen.hostPtr addrV dataV.ty
    let _ ← create (.store dataV p 8)

/-- The value a load of a constant address is replaced by: the bytes of the host
copy of the system page. -/
def fakeRead (addrV : Value) : Option (BitVec 64) :=
  match addrV with
  | .const (.int w) a =>
      if gen.fakeVsysReads && decide (w ≤ 64) then gen.sysHostAddr (BitVec.ofNat 64 a) else none
  | _ => none

def load (addrV : Value) (ty : Ty) : EmitM Value := code do
  let addrV ← gen.hostAddr addrV
  match gen.fakeRead addrV with
  | some v =>
      if 0 < ty.bits ∧ ty.bits ≤ 64 then pure (constInt ty.bits v.toNat)
      else .fail (.assertion "ty_sz > 0 && ty_sz <= 64")
  | none => do
      let p ← gen.hostPtr addrV ty
      create (.load p 8)

def loadVex (addrV : Value) (ty : IRType) : EmitM Value := do
  let ty ← llvmTy ty
  gen.load addrV ty

def setExitType (exitType : ℕ) : EmitM Unit :=
  gen.writeCtx gen.exitTypeOffset (constInt 8 exitType)

end GenLLVM

def plainGen : GenLLVM where
  is32Bit := false
  base := 0
  useReloc := true
  logLastStore := false
  fakeVsysReads := false
  sysHostAddr _ := none
  exitTypeOffset := 904
  guestCtxTy := .vec 1024 (.int 8)
  helpers _ := none
  fp := .native
  linuxSysenter := false

def getRegValue (t : IRTemp) : EmitM Value := fun σ =>
  match σ.values t with
  | some v => .ok (v, { σ with reads := (t, σ.insertBlock) :: σ.reads })
  | none => .error (.assertion "values[reg_idx] != NULL")

def setRegValue (t : IRTemp) (v : Value) : EmitM Unit := fun σ =>
  match σ.values t with
  | some _ => .error (.assertion "values[reg_idx] == NULL")
  | none => .ok ((), { σ with values := Function.update σ.values t (some v) })

def emitAll {α : Type} : List (EmitM α) → EmitM (List α)
  | [] => pure []
  | m :: ms => do
      let a ← m
      let as ← emitAll ms
      pure (a :: as)

/-- A block entered when the condition holds, and the block after it. -/
def ifThen {α : Type} (cond : EmitM Value) (body : EmitM α) : EmitM α := do
  let bbThen ← createBlock
  let bbMerge ← createBlock
  let c ← cond
  endBlock (.condBr c bbThen bbMerge) bbThen
  let a ← body
  endBlock (.br bbMerge) bbMerge
  pure a

/-- Two alternative blocks and the block after them: the results of both, each
with the block it comes from. `falseFirst` says which of the two is filled
first. -/
def ifThenElse (falseFirst : Bool) (cond : EmitM Value) (first second : EmitM Value) :
    EmitM ((Value × ℕ) × (Value × ℕ)) := do
  let bbTrue ← createBlock
  let bbFalse ← createBlock
  let bbMerge ← createBlock
  let c ← cond
  endBlock (.condBr c bbTrue bbFalse) (if falseFirst then bbFalse else bbTrue)
  let a ← first
  let bbA ← getInsertBlock
  endBlock (.br bbMerge) (if falseFirst then bbTrue else bbFalse)
  let b ← second
  let bbB ← getInsertBlock
  endBlock (.br bbMerge) bbMerge
  pure ((a, bbA), (b, bbB))

end VexLLVM
