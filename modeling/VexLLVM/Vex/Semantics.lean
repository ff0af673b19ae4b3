import VexLLVM.Vex.Syntax
import VexLLVM.Vex.IntOp
import VexLLVM.LLVM.Exec

/-!
# What a block means

The reference semantics of blocks over the integers of a 64-bit little-endian guest:
statements in order, up to the first exit whose guard is true. Expressions are
evaluated, and nothing is said about how. The typing rules are those of VEX, and
besides: temporaries are assigned once and before they are used, and the guest's
state is accessed at multiples of the access size.
-/

namespace Vex

open LLVM (Byte readBytes writeBytes)

/-- What a block runs on: the guest's state by offset, its memory by address, and
the temporaries assigned so far. -/
structure State where
  guest : BitVec 64 → Byte
  mem : BitVec 64 → Byte
  tmps : IRTemp → Option IRWord

def IRType.width? (t : IRType) : Option ℕ := if t.isInt then some t.bits else none

def IRType.stored? (t : IRType) : Option ℕ := t.width?.filter (8 ≤ ·)

def IRConst.word? : IRConst → Option IRWord
  | U1 b => some ⟨1, BitVec.ofBool b⟩
  | U8 v => some ⟨8, v⟩
  | U16 v => some ⟨16, v⟩
  | U32 v => some ⟨32, v⟩
  | U64 v => some ⟨64, v⟩
  | _ => none

/-- The offset of the element that an index and a bias select, going round. -/
def IRRegArray.offset (d : IRRegArray) (ix : BitVec 32) (bias : ℤ) : ℕ :=
  d.base + ((ix.toInt + bias) % d.nElems).toNat * (d.elemTy.bits / 8)

/-- The width a guarded load reads, and how it is widened to 32 bits. -/
def IRLoadGOp.shape? : IRLoadGOp → Option (ℕ × Bool)
  | Ident32 => some (32, false)
  | _16Uto32 => some (16, false)
  | _16Sto32 => some (16, true)
  | _8Uto32 => some (8, false)
  | _8Sto32 => some (8, true)
  | invalid | IdentV128 | Ident64 => none

def orIllTyped {α : Type} : Option α → Except Fault α
  | some a => .ok a
  | none => .error .illTyped

/-! ## Running -/

namespace State

variable (s : State)

def get (offset w : ℕ) : IRWord :=
  ⟨w, BitVec.ofNat w (readBytes s.guest (BitVec.ofNat 64 offset) (w / 8))⟩

def put (offset : ℕ) (a : IRWord) : State :=
  { s with guest := writeBytes s.guest (BitVec.ofNat 64 offset) (a.width / 8) a.bits.toNat }

def load (addr : BitVec 64) (w : ℕ) : IRWord := ⟨w, BitVec.ofNat w (readBytes s.mem addr (w / 8))⟩

def store (addr : BitVec 64) (a : IRWord) : State :=
  { s with mem := writeBytes s.mem addr (a.width / 8) a.bits.toNat }

def assign (tmp : IRTemp) (a : IRWord) : State := { s with tmps := Function.update s.tmps tmp (some a) }

def eval : IRExpr → Except Fault IRWord
  | .Get offset ty => do
      let w ← orIllTyped ty.stored?
      pure (s.get offset w)
  | .GetI descr ix bias => do
      let w ← orIllTyped descr.elemTy.stored?
      let i ← (← eval ix).as 32
      pure (s.get (descr.offset i bias) w)
  | .RdTmp tmp => orIllTyped (s.tmps tmp)
  | .Nary .Unop (.iop op) args => do
      let o ← orIllTyped op.intUnop?
      o.apply (← eval (args ⟨0, by decide⟩))
  | .Nary .Binop (.iop op) args => do
      let o ← orIllTyped op.intBinop?
      let a ← eval (args ⟨0, by decide⟩)
      let b ← eval (args ⟨1, by decide⟩)
      o.apply a b
  | .Load .LE ty addr => do
      let w ← orIllTyped ty.stored?
      let a ← (← eval addr).as 64
      pure (s.load a w)
  | .Const con => orIllTyped con.word?
  | .ITE cond iftrue iffalse => do
      let c ← (← eval cond).as 1
      let a ← eval iftrue
      let b ← eval iffalse
      pure (if c = 1 then a else b)
  | _ => .error .illTyped

def evalAs (w : ℕ) (e : IRExpr) : Except Fault (BitVec w) := do (← s.eval e).as w

end State

/-- Where a statement goes: on, or out of the block. -/
inductive Step where
  | next (s : State)
  | leave (jk : IRJumpKind) (dst : BitVec 64)

/-- What a statement does. The operands of a guarded load are evaluated whatever its
guard is, those of a guarded store where it is true. -/
def IRStmt.run (s : State) : IRStmt → Except Fault Step
  | .NoOp | .IMark _ _ | .AbiHint => pure (.next s)
  | .Put offset data => do
      let d ← s.eval data
      pure (.next (s.put offset d))
  | .PutI descr ix bias data => do
      let d ← s.eval data
      let i ← s.evalAs 32 ix
      pure (.next (s.put (descr.offset i bias) d))
  | .WrTmp tmp data => do
      let d ← s.eval data
      pure (.next (s.assign tmp d))
  | .Store .LE addr data => do
      let d ← s.eval data
      let a ← s.evalAs 64 addr
      pure (.next (s.store a d))
  | .StoreG .LE addr data guard => do
      let g ← s.evalAs 1 guard
      if g = 1 then do
        let a ← s.evalAs 64 addr
        let d ← s.eval data
        pure (.next (s.store a d))
      else pure (.next s)
  | .LoadG .LE cvt dst addr alt guard => do
      let (w, signed) ← orIllTyped cvt.shape?
      let g ← s.evalAs 1 guard
      let a ← s.evalAs 64 addr
      let v ← s.evalAs 32 alt
      pure (.next (s.assign dst ⟨32, if g = 1 then Word.extend signed 32 (s.load a w).bits else v⟩))
  | .Exit guard (.U64 dst) jk => do
      let g ← s.evalAs 1 guard
      pure (if g = 1 then .leave jk dst else .next s)
  | _ => .error .illTyped

structure Result where
  guest : BitVec 64 → Byte
  mem : BitVec 64 → Byte
  jk : IRJumpKind
  next : BitVec 64

def IRSB.runFrom (sb : IRSB) (s : State) : List IRStmt → Except Fault Result
  | [] => do
      let next ← s.evalAs 64 sb.next
      pure ⟨s.guest, s.mem, sb.jumpkind, next⟩
  | stmt :: stmts => do
      match ← stmt.run s with
      | .next s' => runFrom sb s' stmts
      | .leave jk dst => pure ⟨s.guest, s.mem, jk, dst⟩

def IRSB.run (sb : IRSB) (guest mem : BitVec 64 → Byte) : Except Fault Result :=
  sb.runFrom ⟨guest, mem, fun _ => none⟩ sb.stmts

/-! ## Typing -/

abbrev Widths := IRTemp → Option ℕ

/-- Where a value of `w` bits may be in the guest's state: at a multiple of its size,
and where an `Int` can point. -/
def placed (offset w : ℕ) : Bool := decide (w / 8 ∣ offset ∧ offset < 2 ^ 31)

/-- An array of `w`-bit elements, as many as a power of two. -/
def IRRegArray.fits (d : IRRegArray) (w : ℕ) : Bool :=
  decide (2 ^ d.nElems.log2 = d.nElems ∧ w / 8 ∣ d.base ∧ d.base + d.nElems * (w / 8) ≤ 2 ^ 31)

def IRExpr.width (Γ : Widths) : IRExpr → Option ℕ
  | .Get offset ty => ty.stored?.filter (placed offset)
  | .GetI descr ix _ => do
      let i ← width Γ ix
      if i = 32 then descr.elemTy.stored?.filter descr.fits else none
  | .RdTmp tmp => Γ tmp
  | .Nary .Unop (.iop op) args => do
      let o ← op.intUnop?
      let a ← width Γ (args ⟨0, by decide⟩)
      if a = o.arg then some o.res else none
  | .Nary .Binop (.iop op) args => do
      let o ← op.intBinop?
      let a ← width Γ (args ⟨0, by decide⟩)
      let b ← width Γ (args ⟨1, by decide⟩)
      if a = o.lhs ∧ b = o.rhs then some o.res else none
  | .Load .LE ty addr => do
      let a ← width Γ addr
      if a = 64 then ty.stored? else none
  | .Const con => con.word?.map IRWord.width
  | .ITE cond iftrue iffalse => do
      let c ← width Γ cond
      let a ← width Γ iftrue
      let b ← width Γ iffalse
      if c = 1 ∧ a = b then some a else none
  | _ => none

/-- The temporary is assigned for the first time, and declared with the width. -/
def Widths.assign (Γ : Widths) (types : List IRType) (tmp : IRTemp) (w : ℕ) : Option Widths :=
  if Γ tmp = none ∧ types[tmp]?.bind IRType.width? = some w then some (Function.update Γ tmp (some w))
  else none

/-- The temporaries assigned after the statement, where it is well typed. -/
def IRStmt.check (types : List IRType) (Γ : Widths) : IRStmt → Option Widths
  | .NoOp | .IMark _ _ | .AbiHint => some Γ
  | .Put offset data => do
      let w ← data.width Γ
      if 8 ≤ w ∧ placed offset w then some Γ else none
  | .PutI descr ix _ data => do
      let w ← data.width Γ
      if ix.width Γ = some 32 ∧ descr.elemTy.stored? = some w ∧ descr.fits w then some Γ else none
  | .WrTmp tmp data => do
      let w ← data.width Γ
      Γ.assign types tmp w
  | .Store .LE addr data => do
      let w ← data.width Γ
      if addr.width Γ = some 64 ∧ 8 ≤ w then some Γ else none
  | .StoreG .LE addr data guard => do
      let w ← data.width Γ
      if guard.width Γ = some 1 ∧ addr.width Γ = some 64 ∧ 8 ≤ w then some Γ else none
  | .LoadG .LE cvt dst addr alt guard =>
      if cvt.shape?.isSome ∧ guard.width Γ = some 1 ∧ addr.width Γ = some 64 ∧ alt.width Γ = some 32 then
        Γ.assign types dst 32
      else none
  | .Exit guard (.U64 _) _ => if guard.width Γ = some 1 then some Γ else none
  | _ => none

def checkStmts (types : List IRType) : Widths → List IRStmt → Option Widths
  | Γ, [] => some Γ
  | Γ, stmt :: stmts => do checkStmts types (← stmt.check types Γ) stmts

/-- The block is well typed; its next address is one of the guest's. A `sysenter`
belongs to the 32-bit guests. -/
def IRSB.wellTyped (sb : IRSB) : Bool :=
  sb.jumpkind != .Sys_sysenter &&
    ((checkStmts sb.types (fun _ => none) sb.stmts).bind sb.next.width) == some 64

end Vex
