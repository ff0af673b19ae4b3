import VexLLVM.Emit.IntStmt
import VexLLVM.Emit.Acceptance

/-!
# What an emitted function comes to

A function returns what the guest comes to: the jump at the end of a block, in terms of the
reference semantics.
-/

namespace VexLLVM

open LLVM LLVM.Code Vex StateExcept

namespace GenLLVM

variable (gen : GenLLVM)

/-- The host copy of the system page is what is in the guest's memory. -/
def Copied (s : State) : Prop :=
  gen.fakeVsysReads = true → ∀ a v, gen.sysHostAddr a = some v → v.toNat = readBytes s.mem a 8

/-- The function returns what the guest comes to. -/
structure Ends (r : Result) (fr : Frame) (v : RVal) : Prop where
  next : v = .bits r.next.toNat
  ctx : fr.m.ctx = gen.marked r.jk r.guest
  mem : gen.guestMem fr.m.mem = r.mem

end GenLLVM

section Blocks

variable {gen : GenLLVM} {Γ Γ' : Widths} {s : State} {M : Machine} {total : Bool} {ext : Extern}
  {R : Frame → RVal → Prop} {types : List IRType} {sb : IRSB} {r : Result} {a : BitVec 64}

theorem Ready.of_copied (h64 : gen.is32Bit = false) (hM : gen.Shows M s) (hs : s.Typed Γ)
    (hc : gen.Copied s) : Ready gen Γ s M where
  is64 := h64
  shows := hM
  copies hf a v hv := by
    rw [hc hf a v hv, hM.mem, GenLLVM.readBytes_guestMem]
  typed := hs

theorem runs_showing {α : Type} {m : EmitM α} {Q : α → Assertion} (h : ∀ M, gen.Shows M s →
      Runs total ext (Stands (tmpValues s) [] M) m Q R) : Runs total ext (Showing gen s) m Q R :=
  fun σ a σ' G fr hm hok hG hl hat hp => h fr.m hp.1 σ a σ' G fr hm hok hG hl hat hp.2

theorem exitMark_jump {jk : IRJumpKind} {t : Option GuestExitType}
    (h : VexSB.jumpExit jk = some t) :
    exitMark jk = t := by
  cases jk <;> cases h <;> rfl

theorem loadJump_eq {jk : IRJumpKind} (hjk : jk ≠ .Sys_sysenter) {t : Option GuestExitType}
    (ht : VexSB.jumpExit jk = some t) (stmts : List VexStmt) (next : VexExpr) :
    VexSB.loadJump gen stmts jk next = next := by
  unfold VexSB.loadJump
  split
  · exact absurd rfl hjk
  · rw [ht]
    rfl

/-- The jump at the end, and the exit type. -/
theorem runs_jump (hr : Ready gen Γ s M) (hoff : gen.exitTypeOffset < 2 ^ 31)
    (hn : sb.next.width Γ = some 64) (hend : sb.runFrom s [] = .ok r) :
    Runs total ext (Stands (tmpValues s) [] M) (do
        let ret ← (VexExpr.create gen sb.next).emit gen
        VexSB.markJump gen (exitMark sb.jumpkind)
        pure ret)
      (fun ret _ fr => ∃ v, fr.eval ret = some v ∧ gen.Ends r fr v) R := by
  obtain ⟨next, hnext, hend⟩ := exists_of_bind_ok hend
  cases hend
  refine (emits_of_evalAs hr (hasWidth_of_width hn) hnext total ext [] R).got fun ret _ => ?_
  refine (runs_mark hoff sb.jumpkind).bind fun _ => (runs_pure ret).pre fun σ fr h => ?_
  obtain ⟨hctx, hmem, hs⟩ := h
  refine ⟨_, (hs.vals _ _ (List.mem_cons_self ..)).2, rfl, hr.shows.guest ▸ hctx, ?_⟩
  rw [hmem, hr.shows.mem]

end Blocks

end VexLLVM
