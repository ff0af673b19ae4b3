import VexLLVM.Vex.Typed

/-!
# Blocks that call helpers

The reference semantics of blocks that do more than compute with integers: they call
helpers, in expressions and as statements, they compare and swap, link and store
conditionally, and order memory. What the helpers do is a parameter. The operands of
calls and of compare-and-swaps are atoms, as in the blocks the decoder hands over.
-/

namespace Vex

open LLVM (Byte)

/-- What a helper is called with: a word, or the guest's state. -/
inductive Arg where
  | word (a : IRWord)
  | state

/-- What a helper gives back: a word, and the guest as it leaves it. -/
structure Returned where
  val : IRWord
  guest : BitVec 64 → Byte
  mem : BitVec 64 → Byte

/-- What the helpers do, by name. They all return. -/
abbrev Callees := String → List Arg → (BitVec 64 → Byte) → (BitVec 64 → Byte) → Returned

def IRExpr.isAtom : IRExpr → Bool
  | .RdTmp _ | .Const _ => true
  | _ => false

def mapArgs (f : IRExpr → Except Fault Arg) : List IRExpr → Except Fault (List Arg)
  | [] => pure []
  | e :: es => do
      let a ← f e
      let as ← mapArgs f es
      pure (a :: as)

namespace State

variable (s : State)

def arg : IRExpr → Except Fault Arg
  | .GSPTR => pure .state
  | e => .word <$> s.eval e

def returned (r : Returned) : State := { s with guest := r.guest, mem := r.mem }

/-- A result in its temporary, cut or widened to the width declared for it. -/
def assignAs (types : List IRType) (tmp : IRTemp) (a : IRWord) : Except Fault State := do
  let w ← orIllTyped (types[tmp]?.bind IRType.width?)
  pure (s.assign tmp ⟨w, a.bits.setWidth w⟩)

end State

/-- What a statement does, helpers included. A compare-and-swap stores where the word
in memory is the expected one, and hands back the word that was there. With one thread
a conditional store is made. -/
def IRStmt.runWith (callees : Callees) (types : List IRType) (s : State) : IRStmt → Except Fault Step
  | .WrTmp tmp (.CCall cee retty _ args) => do
      let w ← orIllTyped retty.width?
      let as ← mapArgs s.arg (List.ofFn args)
      let r := callees cee as s.guest s.mem
      let v ← r.val.as w
      pure (.next ((s.returned r).assign tmp ⟨w, v⟩))
  | .Dirty cee guard tmp args => do
      let g ← s.evalAs 1 guard
      if g = 1 then do
        let as ← mapArgs s.arg args
        let r := callees cee as s.guest s.mem
        match tmp with
        | none => pure (.next (s.returned r))
        | some t => .next <$> (s.returned r).assignAs types t r.val
      else pure (.next s)
  | .CAS none oldLo addr none expdLo none dataLo => do
      let a ← s.evalAs 64 addr
      let e ← s.eval expdLo
      let d ← s.evalAs e.width dataLo
      let old := s.load a e.width
      pure (.next ((if old = e then s.store a ⟨e.width, d⟩ else s).assign oldLo old))
  | .LLSC result addr none => do
      let w ← orIllTyped (types[result]?.bind IRType.stored?)
      let a ← s.evalAs 64 addr
      pure (.next (s.assign result (s.load a w)))
  | .LLSC result addr (some data) => do
      let a ← s.evalAs 64 addr
      let d ← s.eval data
      pure (.next ((s.store a d).assign result ⟨1, 1⟩))
  | .MBE => pure (.next s)
  | stmt => stmt.run s

def IRSB.runFromWith (callees : Callees) (sb : IRSB) (s : State) : List IRStmt → Except Fault Result
  | [] => do
      let next ← s.evalAs 64 sb.next
      pure ⟨s.guest, s.mem, sb.jumpkind, next⟩
  | stmt :: stmts => do
      match ← stmt.runWith callees sb.types s with
      | .next s' => runFromWith callees sb s' stmts
      | .leave jk dst => pure ⟨s.guest, s.mem, jk, dst⟩

def IRSB.runWith (callees : Callees) (sb : IRSB) (guest mem : BitVec 64 → Byte) : Except Fault Result :=
  sb.runFromWith callees ⟨guest, mem, fun _ => none⟩ sb.stmts

/-! ## Typing -/

/-- What a helper takes and gives back; the guest's state is handed to it as a pointer. -/
structure Signature where
  params : List (Option ℕ)
  ret : ℕ
  deriving DecidableEq, Repr

/-- The width of an operand of a call; none for the guest's state. -/
def IRExpr.argWidth (Γ : Widths) : IRExpr → Option (Option ℕ)
  | .GSPTR => some none
  | e => if e.isAtom then (e.width Γ).map some else none

def argWidths (Γ : Widths) : List IRExpr → Option (List (Option ℕ))
  | [] => some []
  | e :: es => do
      let a ← e.argWidth Γ
      let as ← argWidths Γ es
      pure (a :: as)

/-- The temporaries assigned after the statement, where it is well typed. The result of
a statement's call is kept where the call is sure to be made. The guest's state is
handed over first, and by statements only. -/
def IRStmt.checkWith (sigs : String → Option Signature) (types : List IRType) (Γ : Widths) :
    IRStmt → Option Widths
  | .WrTmp tmp (.CCall cee retty _ args) => do
      let sig ← sigs cee
      let as ← argWidths Γ (List.ofFn args)
      if sig.params = as ∧ none ∉ as ∧ retty.width? = some sig.ret then Γ.assign types tmp sig.ret
      else none
  | .Dirty cee guard tmp args => do
      let sig ← sigs cee
      let as ← argWidths Γ args
      if sig.params = as ∧ as ≠ [] ∧ none ∉ as.tail ∧ guard.isAtom ∧ guard.width Γ = some 1 then
        match tmp with
        | none => some Γ
        | some t =>
            match guard with
            | .Const (.U1 true) => do
                let w ← types[t]?.bind IRType.width?
                if w ≤ 64 then Γ.assign types t w else none
            | _ => none
      else none
  | .CAS none oldLo addr none expdLo none dataLo => do
      let w ← expdLo.width Γ
      if addr.isAtom ∧ expdLo.isAtom ∧ dataLo.isAtom ∧ addr.width Γ = some 64 ∧ dataLo.width Γ = some w ∧
          w ∈ [8, 16, 32, 64] then
        Γ.assign types oldLo w
      else none
  | .LLSC result addr none => do
      let w ← types[result]?.bind IRType.stored?
      if addr.width Γ = some 64 then Γ.assign types result w else none
  | .LLSC result addr (some data) => do
      let w ← data.width Γ
      if addr.width Γ = some 64 ∧ 8 ≤ w then Γ.assign types result 1 else none
  | .MBE => some Γ
  | stmt => stmt.check types Γ

def checkStmtsWith (sigs : String → Option Signature) (types : List IRType) :
    Widths → List IRStmt → Option Widths
  | Γ, [] => some Γ
  | Γ, stmt :: stmts => do checkStmtsWith sigs types (← stmt.checkWith sigs types Γ) stmts

def IRSB.wellTypedWith (sigs : String → Option Signature) (sb : IRSB) : Bool :=
  sb.jumpkind != .Sys_sysenter &&
    ((checkStmtsWith sigs sb.types (fun _ => none) sb.stmts).bind sb.next.width) == some 64

end Vex
