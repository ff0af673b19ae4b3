import VexLLVM.Cache.Emitted
import VexLLVM.Emit.CAS
import VexLLVM.Emit.Exits

/-!
# Exit types in the dispatcher

The dispatcher together with the machine its blocks run on. The exit type is reset
after each dispatch, so that a block starts with a plain one and leaves with that of
the exit it takes. Not all the types that can be left behind have a case in
`doNextSB`: the process ends at a yield, and at a side exit with a fault.
-/

namespace LLVM

/-- There is one place a function returns from. -/
theorem Func.Reach.done_unique {ext : Extern} {F : Func} {a b c : Frame} {v v' : RVal}
    {m m' : Machine} (hb : F.Reach ext a b) (hbs : F.step ext b = .done v m) (hc : F.Reach ext a c)
    (hcs : F.step ext c = .done v' m') : b = c := by
  induction hb using Relation.ReflTransGen.head_induction_on with
  | refl =>
      rcases Relation.ReflTransGen.cases_head hc with rfl | ⟨d, hd, -⟩
      · rfl
      · cases hbs.symm.trans hd
  | head hs _ ih =>
      rcases Relation.ReflTransGen.cases_head hc with rfl | ⟨d, hd, hc⟩
      · cases hcs.symm.trans hs
      · cases hs.symm.trans hd
        exact ih hc

def Func.returnFrame (ext : Extern) (F : Func) : ℕ → Frame → Option Frame
  | 0, _ => none
  | n + 1, fr =>
      match F.step ext fr with
      | .next fr' => returnFrame ext F n fr'
      | .done _ _ => some fr
      | .stuck => none

theorem Func.returnFrame_spec {ext : Extern} {F : Func} {n : ℕ} {a b : Frame}
    (h : F.returnFrame ext n a = some b) : F.Reach ext a b ∧ ∃ v m, F.step ext b = .done v m := by
  induction n generalizing a with
  | zero => cases h
  | succ n ih =>
      rw [returnFrame] at h
      cases hs : F.step ext a with
      | next c =>
          rw [hs] at h
          obtain ⟨hr, hb⟩ := ih h
          exact ⟨hr.head hs, hb⟩
      | done v m =>
          rw [hs] at h
          cases h
          exact ⟨.refl, v, m, hs⟩
      | stuck =>
          rw [hs] at h
          cases h

end LLVM

namespace VexLLVM

open LLVM

variable {M : Type} {gm : GuestMem M} {gen : GenLLVM} {ext : Extern}

/-- `setExitType(GE_IGNORE)`. -/
def GenLLVM.resetExitType (gen : GenLLVM) (m : Machine) : Machine :=
  { m with
    ctx := Function.update m.ctx (BitVec.ofNat 64 gen.exitTypeOffset)
      (BitVec.ofNat 8 GuestExitType.IGNORE.code) }

/-- A dispatch from `s` runs the code `p`, from `m` to the return at `fr`. The block it
was made of writes the guest state within its bounds, and memory at addresses. -/
structure BlockExec (gm : GuestMem M) (gen : GenLLVM) (ext : Extern) (s : ExecState M) (m : Machine)
    (p : FPtr) (fr : Frame) (v : RVal) (m' : Machine) : Prop where
  next : ∃ vsb u c, VexExec.nextSB gm gen s = .ok (some vsb, u) ∧
    VexJITCache.getCachedFPtr vsb.guestAddr u.cache = .ok (some p, c)
  within : p.fn.vsb.sb.within gen = true
  reach : p.fn.body.Reach ext (Func.start m) fr
  done : p.fn.body.step ext fr = .done v m'

/-- The states of the dispatcher, with the machine. A system call leaves any machine,
the other exits that of the block; the exit type is reset after both. -/
inductive DispatchRun (gm : GuestMem M) (gen : GenLLVM) (ext : Extern) : ExecState M → Machine → Prop where
  | start {code : HostPtr → GuestPtr → Option Vex.IRSB} {rand : ℕ → ℕ} {limit : Option ℕ}
      {cache : CacheState} (h : VexExec.limitCache limit (.init code rand) = .ok ((), cache))
      (mem : M) (entry : GuestPtr) {m : Machine}
      (hm : gen.exitByte m = BitVec.ofNat 8 GuestExitType.IGNORE.code) :
      DispatchRun gm gen ext (.start cache mem entry) m
  | step {s t : ExecState M} {m m' m₁ : Machine} {p : FPtr} {fr : Frame} {run : BlockRun M}
      (prev : DispatchRun gm gen ext s m)
      (exec : BlockExec gm gen ext s m p fr (.bits run.newIp.toNat) m')
      (exitType : gen.exitByte m' = BitVec.ofNat 8 run.exitType.code)
      (h : VexExec.doNextSB gm gen run s = .ok (true, t))
      (sys : run.exitType ≠ .INT → run.exitType ≠ .SYSCALL → m₁ = m') :
      DispatchRun gm gen ext t (gen.resetExitType m₁)

theorem DispatchRun.execRun {s : ExecState M} {m : Machine} (run : DispatchRun gm gen ext s m) :
    ExecRun gm gen AnyBlock s := by
  induction run with
  | start h mem entry hm => exact .start h mem entry
  | step prev exec exitType h sys ih => exact ih.step trivial h

/-- The exit type is reset on every way to the next block. -/
theorem DispatchRun.exitByte_eq {s : ExecState M} {m : Machine} (run : DispatchRun gm gen ext s m) :
    gen.exitByte m = BitVec.ofNat 8 GuestExitType.IGNORE.code := by
  cases run with
  | start h mem entry hm => exact hm
  | step prev exec exitType h sys => exact Function.update_self ..

/-- The code that runs was emitted from the superblock it belongs to. -/
theorem BlockExec.emitted {s : ExecState M} {m m' : Machine} {p : FPtr} {fr : Frame} {v : RVal}
    (exec : BlockExec gm gen ext s m p fr v m') (hs : s.cache.Reachable gen) :
    p.fn.Emitted gen := by
  obtain ⟨vsb, u, c, hn, hp⟩ := exec.next
  exact (VexExec.nextSB_reachable hs hn).emitted hp

/-- The switch of `doNextSB` has a case for the exit type. -/
def GuestExitType.Handled (M : Type) (t : GuestExitType) : Prop :=
  ∀ (run : BlockRun M) (u : ExecState M), run.exitType = t → ∃ w, VexExec.handleExit run u = .ok ((), w)

/-- The exits that `doNextSB` has no case for: a yield at the end of a block, and a
side exit with a fault. -/
def SBExit.Unhandled (x : SBExit) : Prop :=
  (x.dst = none ∧ x.kind = .Yield) ∨ x.dst ≠ none ∧ (x.kind = .MapFail ∨ x.kind = .SigSEGV)

instance (x : SBExit) : Decidable x.Unhandled := inferInstanceAs (Decidable (_ ∨ _))

/-- The types with no case, given some state to ask about. -/
theorem handled_iff (u : ExecState M) (t : GuestExitType) :
    t.Handled M ↔ t ≠ .SIGSEGV ∧ t ≠ .SIGBUS ∧ t ≠ .YIELD := by
  constructor
  · intro h
    obtain ⟨w, hw⟩ := h ⟨[], u.cache.code, 0, t, id, false⟩ u rfl
    refine ⟨?_, ?_, ?_⟩ <;> rintro rfl <;> cases hw
  · rintro ⟨h₁, h₂, h₃⟩ run u rfl
    unfold VexExec.handleExit
    cases ht : run.exitType <;> first | exact ⟨_, rfl⟩ | exact absurd ht ‹_›

theorem SBExit.handled_iff (u : ExecState M) {x : SBExit} {t : GuestExitType}
    (h : x.type = some t) :
    t.Handled M ↔ ¬x.Unhandled := by
  obtain ⟨k, kind, dst⟩ := x
  rw [VexLLVM.handled_iff u]
  cases dst with
  | none =>
      have h : (VexSB.jumpExit kind).map (fun t => t.getD .IGNORE) = some t := h
      cases kind <;> cases h <;> simp [Unhandled]
  | some d =>
      have h : VexStmt.exitTypeOf kind = some t := h
      cases kind <;> cases h <;> simp [Unhandled]

/-- In any run of the dispatcher. -/
theorem exitTypes_agree_iff (gm : GuestMem M) (gen : GenLLVM) (ext : Extern) (hext : gen.Spares ext)
    (hoff : gen.exitTypeOffset < 2 ^ 31) (s : ExecState M) (m : Machine)
    (run : DispatchRun gm gen ext s m) :
    gen.exitByte m = BitVec.ofNat 8 GuestExitType.IGNORE.code ∧
      ∀ p fr v m', BlockExec gm gen ext s m p fr v m' →
        ∃ x t, Leaving gen p.fn.vsb.sb fr.blk v m' x t ∧ (t.Handled M ↔ ¬x.Unhandled) := by
  refine ⟨run.exitByte_eq, fun p fr v m' exec => ?_⟩
  obtain ⟨⟨a, irsb, hc⟩, hbody⟩ := exec.emitted run.execRun.reachable
  have hk : ∀ stmt ∈ p.fn.vsb.sb.stmts, stmt.ExitKnown := by
    unfold VexSB.create at hc
    split at hc
    · cases hc
    · have hstmts : p.fn.vsb.sb.stmts = irsb.stmts.map (VexStmt.create gen) :=
        congrArg VexSB.stmts (Option.some.inj hc).symm
      rw [hstmts]
      intro stmt hstmt
      obtain ⟨i, -, rfl⟩ := List.mem_map.1 hstmt
      exact VexStmt.exitKnown_create gen i
  obtain ⟨n, hrun⟩ := exec.reach.run_eq exec.done
  obtain ⟨fr', x, t, hr, hs, hx⟩ :=
    exists_leaving hext hoff exec.within hk hbody run.exitByte_eq hrun
  cases exec.reach.done_unique exec.done hr hs
  exact ⟨x, t, hx, SBExit.handled_iff s hx.type⟩

/-- An executor whose guest code is one block, which ends with a jump of the kind. -/
def jumpExec (jk : Vex.IRJumpKind) : ExecState (List Mapping) :=
  .start (.init (fun _ a => some { jumpBlock a 0x2000 with jumpkind := jk }) fun _ => 0) [] 0x1000

theorem jumpExec_run (jk : Vex.IRJumpKind) :
    DispatchRun (listMem 0) plainGen (fun _ _ _ => none) (jumpExec jk) zeroMachine :=
  .start (show VexExec.limitCache none _ = _ from rfl) [] 0x1000 rfl

/-- What its first dispatch runs. -/
theorem exists_blockExec (jk : Vex.IRJumpKind) (P : FPtr → Frame → Bool)
    (h : (match VexExec.nextSB (listMem 0) plainGen (jumpExec jk) with
      | .ok (some vsb, u) => match VexJITCache.getCachedFPtr vsb.guestAddr u.cache with
        | .ok (some p, _) => p.fn.vsb.sb.within plainGen &&
          match p.fn.body.returnFrame (fun _ _ _ => none) 8 (Func.start zeroMachine) with
          | some fr => P p fr
          | none => false
        | _ => false
      | _ => false) = true) :
    ∃ p fr v m', BlockExec (listMem 0) plainGen (fun _ _ _ => none)
      (jumpExec jk) zeroMachine p fr v m' ∧
      P p fr = true := by
  split at h
  · next vsb u hn =>
      split at h
      · next p c hp =>
          rw [Bool.and_eq_true] at h
          obtain ⟨hw, h⟩ := h
          split at h
          · next fr hfr =>
              obtain ⟨hr, v, m', hs⟩ := Func.returnFrame_spec hfr
              exact ⟨p, fr, v, m', ⟨⟨vsb, u, c, hn, hp⟩, hw, hr, hs⟩, h⟩
          · cases h
      · cases h
  · cases h

/-- A block that ends with a call. -/
theorem exitTypes_agree_call : ∃ p fr v m' x t,
    BlockExec (listMem 0) plainGen (fun _ _ _ => none) (jumpExec .Call) zeroMachine p fr v m' ∧
      Leaving plainGen p.fn.vsb.sb fr.blk v m' x t ∧
      (t.Handled (List Mapping) ↔ ¬x.Unhandled) := by
  obtain ⟨p, fr, v, m', exec, -⟩ := exists_blockExec .Call (fun _ _ => true) (by decide +kernel)
  obtain ⟨-, h⟩ := exitTypes_agree_iff (listMem 0) plainGen (fun _ _ _ => none)
    (fun _ _ _ _ _ h => by cases h) (by decide) (jumpExec .Call) zeroMachine (jumpExec_run .Call)
  obtain ⟨x, t, hx, hiff⟩ := h p fr v m' exec
  exact ⟨p, fr, v, m', x, t, exec, hx, hiff⟩

/-- A block that ends with a yield leaves an exit type that no case is there for. -/
theorem exitTypes_not_agree : ¬∀ (M : Type) (gm : GuestMem M) (gen : GenLLVM) (ext : Extern),
    gen.Spares ext → gen.exitTypeOffset < 2 ^ 31 → ∀ (s : ExecState M) (m : Machine),
    DispatchRun gm gen ext s m → gen.exitByte m = BitVec.ofNat 8 GuestExitType.IGNORE.code ∧
      ∀ p fr v m', BlockExec gm gen ext s m p fr v m' →
        ∃ x t, Leaving gen p.fn.vsb.sb fr.blk v m' x t ∧ t.Handled M := by
  intro h
  obtain ⟨p, fr, v, m', exec, hP⟩ := exists_blockExec .Yield
    (fun p fr => (p.fn.vsb.sb.exitAt plainGen fr.blk).bind SBExit.type == some .YIELD) (by decide +kernel)
  obtain ⟨-, h⟩ := h _ (listMem 0) plainGen (fun _ _ _ => none) (fun _ _ _ _ _ h => by cases h)
    (by decide) (jumpExec .Yield) zeroMachine (jumpExec_run .Yield)
  obtain ⟨x, t, hx, ht⟩ := h p fr v m' exec
  have hP := eq_of_beq hP
  rw [hx.exit, Option.bind_some, hx.type] at hP
  exact ((handled_iff (jumpExec .Yield) t).1 ht).2.2 (Option.some.inj hP)

end VexLLVM
