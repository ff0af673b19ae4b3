import VexLLVM.Lib.Scatter
import VexLLVM.Lib.Words
import VexLLVM.Qemu.Structs

/-!
# The conversion of values

A conversion moves every scalar of a type from its place on one side to its place on the
other, as a number, and touches nothing else.
-/

namespace VexLLVM

open CLayout LLVM Word

/-! ## Scalars -/

def Prim.signed : Prim → Bool
  | .long => true
  | _ => false

/-- A number as a word of the scalar's size holds it. -/
def Prim.word (abi : Abi) (side : Side) (p : Prim) (x : ℤ) : BitVec (8 * p.size abi side) :=
  BitVec.ofInt _ x

def Prim.value (abi : Abi) (side : Side) (p : Prim) (mem : ProcMem) (a : BitVec 64) : ℤ :=
  reading p.signed (BitVec.ofNat (8 * p.size abi side) (readBytes mem a (p.size abi side)))

/-- The conversion of a scalar. `thunk_convert` has no case for a `ptr`: what stands here for one
is that of any pointer. -/
def Prim.convert (abi : Abi) (toHost : Side) : Prim → ProcMem → BitVec 64 → BitVec 64 → ProcMem
  | .char => copyWord 1
  | .short => copyWord 2
  | .int => copyWord 4
  | .longlong | .ulonglong => copyWord 8
  | .long => convertLong abi toHost true
  | .ulong | .ptrvoid | .ptr => convertLong abi toHost false

variable {abi : Abi} {side toHost : Side} {p : Prim} {mem : ProcMem} {a dst src : BitVec 64}
    {n w w' x y : ℕ} {s : Bool}

variable {entries : StructEntries} {decls : Decls} {types rest : List ℕ} {t : CType Prim}
    {fields : List (CType Prim)} {fuel : ℕ} {ms : List (Member Side Prim)}

/-- The type has no scalar that `thunk_convert` has no case for. -/
def NoPtr (t : CType Prim) : Prop := t.all (· ≠ .ptr) = true

def span (p : BitVec 64) (n : ℕ) : Set (BitVec 64) := {a | (a - p).toNat < n}

theorem mem_span_add {p : BitVec 64} {off k : ℕ} (h : off + k ≤ 2 ^ 64) :
    a ∈ span (p + BitVec.ofNat 64 off) k ↔ off ≤ (a - p).toNat ∧ (a - p).toNat < off + k := by
  have hlt := (a - p).isLt
  change (a - (p + BitVec.ofNat 64 off)).toNat < k ↔ _
  rw [sub_add_eq_sub_sub, BitVec.toNat_sub, BitVec.toNat_ofNat]
  omega

theorem notMem_span {p q : BitVec 64} {n k : ℕ} (h₁ : p.toNat + n ≤ q.toNat)
    (h₂ : q.toNat + k ≤ 2 ^ 64) : ∀ a ∈ span p n, a ∉ span q k := by
  intro a ha ha'
  have hp : (a - p).toNat < n := ha
  have hq : (a - q).toNat < k := ha'
  have hlt := a.isLt
  rw [BitVec.toNat_sub] at hp hq
  omega

def lowBytes : ProcMem := fun a => a.setWidth 8

end VexLLVM
