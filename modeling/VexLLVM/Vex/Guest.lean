import VexLLVM.Vex.Callees
import Mathlib.Logic.Relation

/-!
# A guest that runs

What a guest does by itself: block after block of the code that is in its memory, and
the system calls between them. The decoder, the helpers and the system calls are
parameters. Nothing of the translator is in it.
-/

namespace Vex

open LLVM (Byte)

/-- The jump is a system call, which returns to the address the block goes to. -/
def IRJumpKind.isSysCall : IRJumpKind → Bool
  | .Sys_syscall | .Sys_int128 | .Sys_sysenter => true
  | _ => false

structure GuestState where
  regs : BitVec 64 → Byte
  mem : BitVec 64 → Byte
  pc : BitVec 64

structure Platform where
  /-- The block at an address of a memory. -/
  decode : (BitVec 64 → Byte) → BitVec 64 → Option IRSB
  callees : Callees
  /-- What a system call may do to the registers and to memory. -/
  sys : (BitVec 64 → Byte) × (BitVec 64 → Byte) → (BitVec 64 → Byte) × (BitVec 64 → Byte) → Prop

def Platform.Runs (pf : Platform) (g : GuestState) (r : Result) : Prop :=
  ∃ sb, pf.decode g.mem g.pc = some sb ∧ sb.runWith pf.callees g.regs g.mem = .ok r

theorem Platform.Runs.unique {pf : Platform} {g : GuestState} {r r' : Result} (h : pf.Runs g r)
    (h' : pf.Runs g r') : r = r' := by
  obtain ⟨sb, hd, hr⟩ := h
  obtain ⟨sb', hd', hr'⟩ := h'
  cases hd.symm.trans hd'
  cases hr.symm.trans hr'
  rfl

/-- One block of the guest, and the system call at its end where there is one. -/
inductive Platform.Step (pf : Platform) : GuestState → GuestState → Prop where
  | block {g : GuestState} {r : Result} (hr : pf.Runs g r) (hj : r.jk.isSysCall = false) :
      Step pf g ⟨r.guest, r.mem, r.next⟩
  | sysCall {g : GuestState} {r : Result} {regs mem : BitVec 64 → Byte} (hr : pf.Runs g r)
      (hj : r.jk.isSysCall = true) (hs : pf.sys (r.guest, r.mem) (regs, mem)) :
      Step pf g ⟨regs, mem, r.next⟩

abbrev Platform.Steps (pf : Platform) : GuestState → GuestState → Prop := Relation.ReflTransGen pf.Step

end Vex
