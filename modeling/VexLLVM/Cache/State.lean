import VexLLVM.Cache.DirectCache
import VexLLVM.Emit.VexXlate
import VexLLVM.Lib.Triple
import Mathlib.Data.List.Sort

/-!
# The state of the caches

The objects the caches point to, and the state of a `VexJITCache`: its three maps
with their direct caches, the table of the JIT engine, the module the generator
fills, and what has been allocated and released so far. The guest code and the
results of `rand` are part of the state as well.

An object carries the number it was allocated under, and the numbers grow, so
they also say which of two objects is the older one. A released object can still
be read: that it should not be is a matter of `destroyed` and `released`.
-/

namespace VexLLVM

open LLVM

abbrev HostPtr := BitVec 64

structure VSB where
  uid : ℕ
  sb : VexSB

def VSB.guestAddr (v : VSB) : GuestPtr := v.sb.guestAddr

/-- A function name: `sb_<address>`, and the number the module's symbol table
appends when it knows the name already. -/
structure FnName where
  addr : GuestPtr
  copy : ℕ
  deriving DecidableEq, Repr

/-- An `llvm::Function`, with the module it was created in and the superblock it
was emitted from. -/
structure Function where
  uid : ℕ
  name : FnName
  mod : ℕ
  vsb : VSB
  body : Func

/-- A `vexfunc_t`: the compiled code of a function. -/
structure FPtr where
  fn : Function

structure Module where
  id : ℕ
  fns : List Function
  lastUnique : ℕ

/-- The name a new function is given, and the number last appended. -/
def Module.makeName (m : Module) (addr : GuestPtr) : FnName × ℕ :=
  if ⟨addr, 0⟩ ∈ m.fns.map Function.name then (⟨addr, m.lastUnique + 1⟩, m.lastUnique + 1)
  else (⟨addr, 0⟩, m.lastUnique)

/-- The module without a function that is deleted. -/
def Module.unlink (m : Module) (f : Function) : Module :=
  { m with fns := m.fns.filter fun g => g.uid ≠ f.uid }

structure CacheState where
  maxCacheEnts : ℕ
  vexsb : AddrCache VSB
  func : AddrCache Function
  jit : AddrCache FPtr
  funcAddrs : AList fun _ : FnName => FPtr
  genMod : Module
  next : ℕ
  destroyed : List ℕ
  /-- One entry for each `delete` and each `eraseFromParent`. -/
  released : List ℕ
  /-- The block the decoder makes of the bytes at a host address. -/
  code : HostPtr → GuestPtr → Option Vex.IRSB
  rand : ℕ → ℕ
  /-- When an address was last flushed or evicted, in allocation numbers. Nothing
  in the caches looks at it. -/
  flushed : GuestPtr → ℕ

def CacheState.init (code : HostPtr → GuestPtr → Option Vex.IRSB) (rand : ℕ → ℕ) : CacheState where
  maxCacheEnts := 2 ^ 32 - 1
  vexsb := .empty
  func := .empty
  jit := .empty
  funcAddrs := ∅
  genMod := ⟨0, [], 0⟩
  next := 1
  destroyed := []
  released := []
  code := code
  rand := rand
  flushed _ := 0

abbrev CacheM := StateT CacheState (Except EmitError)

/-- `selectVictimAddress`: the address of the block at a random place of the map. -/
def CacheState.selectVictimAddress (s : CacheState) : Option GuestPtr :=
  match s.vexsb.map.entries[s.rand 0 % s.vexsb.size]? with
  | some ⟨_, some v⟩ => if v.guestAddr = 0 then none else some v.guestAddr
  | _ => none

end VexLLVM
