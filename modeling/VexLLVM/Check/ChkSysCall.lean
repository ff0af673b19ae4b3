import VexLLVM.Check.VexExecChk
import VexLLVM.Emit.VexStmt

/-!
# System calls under the cross-checker

The dispatcher makes a system call where the superblock that just ran set the exit
type of one. The checker expects to have seen it coming: it notes a superblock that
ends in a system call when it steps the shadow process through its bounds, but only if
nothing was deferred then.
-/

namespace VexLLVM

/-- One turn of the dispatcher: the superblock with the number of instructions it runs,
how long the shadow process may step, the exit type the superblock sets, and what
fix-ups and the system call make of the guest and the shadow process. -/
structure ChkStep (S : Type) where
  sb : ChkBlock
  n : ℕ
  fuel : ℕ
  exitType : GuestExitType
  resync : S × S → S × S

inductive ChkError where
  | assertion
  | unknownExit
  | shadowLost
  deriving DecidableEq, Repr

namespace VexExecChk

variable {S : Type} (g : Guest S)

def resync (f : S × S → S × S) (s : ChkState S) : ChkState S :=
  { s with gs := (f (s.gs, s.shadow)).1, shadow := (f (s.gs, s.shadow)).2 }

/-- `VexExecChk::doSysCall`, up to what it does to the processes. -/
def doSysCall (s : ChkState S) : Except ChkError (ChkState S) :=
  if s.hitSyscall && !s.isDeferred then .ok { s with hitSyscall := false } else .error .assertion

def handleExit (exitType : GuestExitType) (s : ChkState S) : Except ChkError (ChkState S) :=
  match exitType with
  | .IGNORE | .CALL | .RETURN | .SIGTRAP | .EMWARN => .ok s
  | .INT | .SYSCALL => doSysCall s
  | _ => .error .unknownExit

def doNextSB (x : ChkStep S) (s : ChkState S) : Except ChkError (ChkState S) :=
  match doVexSB g x.fuel x.sb x.n s with
  | some t => (handleExit x.exitType t).map (resync x.resync)
  | none => .error .shadowLost

def doSBs : List (ChkStep S) → ChkState S → Except ChkError (ChkState S)
  | [], s => .ok s
  | x :: xs, s => (doNextSB g x s).bind (doSBs xs)

def Calls (x : ChkStep S) (s : ChkState S) : Prop :=
  (x.exitType = .INT ∨ x.exitType = .SYSCALL) ∧ (doVexSB g x.fuel x.sb x.n s).isSome = true

/-- The superblock ends outside of its bounds, and its system call is noted, or one still
is: nothing is deferred, and it ends in one, or an earlier one that was noted was not made. -/
def Expected (x : ChkStep S) (s : ChkState S) : Prop :=
  x.sb.inBounds (g.pc (g.step^[x.n] s.gs)) = false ∧
    (s.hitSyscall = true ∨ s.isDeferred = false ∧ x.sb.isSyscall = true)

variable {g} {s t u : ChkState S} {x : ChkStep S} {sb : ChkBlock} {n fuel : ℕ}

theorem stepThroughBounds_flags {a b : BitVec 64} (h : stepThroughBounds g fuel a b s = some t) :
    t.hitSyscall = s.hitSyscall ∧ t.isDeferred = s.isDeferred := by
  obtain ⟨k, -, rfl⟩ := stepThroughBounds_spec h
  exact ⟨rfl, rfl⟩

/-- What a superblock run does to the two flags. -/
theorem doVexSB_flags (h : doVexSB g fuel sb n s = some t) :
    (t.isDeferred = true ↔ sb.inBounds (g.pc (g.step^[n] s.gs)) = true) ∧
      (sb.inBounds (g.pc (g.step^[n] s.gs)) = false →
        (t.hitSyscall = true ↔ s.hitSyscall = true ∨ s.isDeferred = false ∧
          sb.isSyscall = true)) := by
  unfold doVexSB at h
  have hd : (runBlock g n s).isDeferred = s.isDeferred := rfl
  have hgs : (runBlock g n s).gs = g.step^[n] s.gs := rfl
  have hhit : (runBlock g n s).hitSyscall = s.hitSyscall := rfl
  simp only [hd, hgs] at h
  cases hdef : s.isDeferred <;> cases hin : sb.inBounds (g.pc (g.step^[n] s.gs)) <;>
    simp only [hdef, hin, Bool.and_true, Bool.and_false, Bool.not_true, Bool.not_false, if_true,
      Bool.false_eq_true, if_false, Option.map_eq_some_iff, Option.some.injEq] at h
  · obtain ⟨v, hv, ht⟩ := h
    obtain ⟨h₁, h₂⟩ := stepThroughBounds_flags hv
    rw [hhit] at h₁
    rw [hd, hdef] at h₂
    cases hsys : sb.isSyscall <;> rw [hsys] at ht <;> subst ht <;> simp [h₁, h₂]
  · subst h
    simp
  · obtain ⟨v, hv, rfl⟩ := h
    obtain ⟨h₁, -⟩ := stepThroughBounds_flags hv
    rw [hhit] at h₁
    simp [h₁]
  · subst h
    simp [hd, hdef]

/-- The assertion of a system call, from the state before the superblock. -/
theorem doNextSB_assertion_iff :
    doNextSB g x s = .error .assertion ↔ Calls g x s ∧ ¬Expected g x s := by
  unfold doNextSB Calls Expected
  cases h : doVexSB g x.fuel x.sb x.n s with
  | none => simp
  | some t =>
      obtain ⟨hdef, hhit⟩ := doVexSB_flags h
      have hasserted : (t.hitSyscall && !t.isDeferred) = true ↔
          x.sb.inBounds (g.pc (g.step^[x.n] s.gs)) = false ∧
            (s.hitSyscall = true ∨ s.isDeferred = false ∧ x.sb.isSyscall = true) := by
        rw [Bool.and_eq_true, Bool.not_eq_true', ← Bool.not_eq_true, hdef, Bool.not_eq_true,
          and_comm]
        exact and_congr_right hhit
      have hcall : (doSysCall t).map (resync x.resync) = .error .assertion ↔
          ¬(t.hitSyscall && !t.isDeferred) = true := by
        unfold doSysCall
        split
        · next hc => simp [hc, Except.map]
        · next hc => simp [hc, Except.map]
      cases hx : x.exitType with
      | INT | SYSCALL =>
          simp only [handleExit, hcall, hasserted, Option.isSome_some, true_and, reduceCtorEq,
            or_true, true_or]
      | _ => simp [handleExit, Except.map]

/-- A run gets to a failed assertion exactly if some turn does. -/
theorem doSBs_assertion_iff {xs : List (ChkStep S)} :
    doSBs g xs s = .error .assertion ↔ ∃ pre x post t, xs = pre ++ x :: post ∧
      doSBs g pre s = .ok t ∧ Calls g x t ∧ ¬Expected g x t := by
  induction xs generalizing s with
  | nil => simp [doSBs]
  | cons y ys ih =>
      rw [doSBs]
      constructor
      · intro h
        cases hy : doNextSB g y s with
        | error e =>
            rw [hy] at h
            cases h
            exact ⟨[], y, ys, s, rfl, rfl, doNextSB_assertion_iff.1 hy⟩
        | ok u =>
            rw [hy] at h
            obtain ⟨pre, x, post, t, rfl, hpre, hx⟩ := ih.1 h
            exact ⟨y :: pre, x, post, t, rfl, by rw [doSBs, hy]; exact hpre, hx⟩
      · rintro ⟨pre, x, post, t, heq, hpre, hx⟩
        cases pre with
        | nil =>
            cases heq
            cases hpre
            rw [doNextSB_assertion_iff.2 hx]
            rfl
        | cons z pre =>
            cases heq
            rw [doSBs] at hpre
            cases hy : doNextSB g y s with
            | error e =>
                rw [hy] at hpre
                cases hpre
            | ok u =>
                rw [hy] at hpre
                exact ih.2 ⟨pre, x, post, t, rfl, hpre, hx⟩

end VexExecChk

/-- No system call of a run fails the assertion exactly if each one was expected: the
superblock ended outside of its bounds, and it was noted, or an earlier one still was. -/
theorem ChkRun.doSysCall_asserted_iff {S : Type} (g : Guest S) (xs : List (ChkStep S)) (x₀ : S) :
    VexExecChk.doSBs g xs (.start x₀) ≠ .error .assertion ↔
      ∀ pre x post s, xs = pre ++ x :: post → VexExecChk.doSBs g pre (.start x₀) = .ok s →
        VexExecChk.Calls g x s → VexExecChk.Expected g x s := by
  rw [Ne, VexExecChk.doSBs_assertion_iff]
  constructor
  · intro h pre x post s hxs hpre hx
    by_contra hno
    exact h ⟨pre, x, post, s, hxs, hpre, hx, hno⟩
  · rintro h ⟨pre, x, post, s, hxs, hpre, hx, hno⟩
    exact hno (h pre x post s hxs hpre hx)

/-- A superblock with a jump back to its start, which ends in a system call. -/
def loopThenCall : List (BitVec 64) := [0x100, 0x100, 0x104]

/-- The jump is taken once, and the superblock runs to its end the next time. -/
def loopThenCallSteps : List (ChkStep ℕ) :=
  [⟨⟨0x100, 0x104, true⟩, 1, 9, .IGNORE, id⟩, ⟨⟨0x100, 0x104, true⟩, 1, 9, .SYSCALL, id⟩]

theorem ChkRun.not_doSysCall_asserted : ¬∀ (S : Type) (g : Guest S) (xs : List (ChkStep S)) (x₀ : S),
    VexExecChk.doSBs g xs (.start x₀) ≠ .error .assertion := fun h =>
  h ℕ (traceGuest loopThenCall) loopThenCallSteps 0 rfl

end VexLLVM
