import VexLLVM.Lib.StepWhile
import Mathlib.Data.BitVec

/-!
# The cross-checker

`VexExecChk` runs each superblock, and has a shadow process single-step through
the same instructions. A superblock that ends inside its own bounds is not
checked: the checker defers, and resumes once a superblock ends outside of its
bounds. It resumes with the bounds of the superblock that it deferred at, so it
stays in lockstep as long as these bounds and those of the superblocks run since
agree on where control is.

The guest is a deterministic machine. A superblock is taken to run correctly: it
makes some steps of the guest, all from addresses in its bounds.
-/

namespace VexLLVM

open Loop

/-- A guest program without system calls: its states, their program counters, and
the step one instruction makes. -/
structure Guest (S : Type) where
  pc : S → BitVec 64
  step : S → S

/-- What the checker asks of a superblock: `getGuestAddr`, `getEndAddr` and
`isSyscall`. -/
structure ChkBlock where
  guestAddr : BitVec 64
  endAddr : BitVec 64
  isSyscall : Bool

/-- The state of the checker with its two processes. The counts of instructions,
and whether the last superblock was checked, are a record; nothing in the checker
looks at them. -/
structure ChkState (S : Type) where
  gs : S
  shadow : S
  hitSyscall : Bool
  isDeferred : Bool
  deferredBoundStart : BitVec 64
  deferredBoundEnd : BitVec 64
  executed : ℕ
  shadowExecuted : ℕ
  verified : Bool

def inBounds (a b ip : BitVec 64) : Bool := decide (a ≤ ip ∧ ip < b)

namespace ChkBlock

def inBounds (sb : ChkBlock) (ip : BitVec 64) : Bool := VexLLVM.inBounds sb.guestAddr sb.endAddr ip

end ChkBlock

namespace VexExecChk

variable {S : Type} (g : Guest S)

/-- `stepThroughBounds`: the shadow process steps until its program counter leaves
the bounds. -/
def stepThroughBounds (fuel : ℕ) (a b : BitVec 64) (s : ChkState S) : Option (ChkState S) :=
  (stepWhile g.step (fun x => inBounds a b (g.pc x)) fuel s.shadow).map fun r =>
    { s with shadow := r.1, shadowExecuted := s.shadowExecuted + r.2 }

/-- `VexExec::doVexSB`, for a superblock that runs correctly: `n` instructions. -/
def runBlock (n : ℕ) (s : ChkState S) : ChkState S :=
  { s with gs := g.step^[n] s.gs, executed := s.executed + n, verified := false }

/-- `VexExecChk::doVexSB`, for a superblock that runs `n` instructions; without a
result while the shadow process steps for longer than `fuel`. -/
def doVexSB (fuel : ℕ) (sb : ChkBlock) (n : ℕ) (s : ChkState S) : Option (ChkState S) :=
  let s := runBlock g n s
  let newIpInBounds := sb.inBounds (g.pc s.gs)
  if s.isDeferred && newIpInBounds then some s
  else if !s.isDeferred && !newIpInBounds then
    (stepThroughBounds g fuel sb.guestAddr sb.endAddr s).map fun s =>
      if sb.isSyscall then { s with hitSyscall := true } else { s with verified := true }
  else if s.isDeferred then
    (stepThroughBounds g fuel s.deferredBoundStart s.deferredBoundEnd s).map fun s =>
      { s with
        isDeferred := false
        deferredBoundStart := 0
        deferredBoundEnd := 0
        verified := true }
  else
    some { s with
      isDeferred := true
      deferredBoundStart := sb.guestAddr
      deferredBoundEnd := sb.endAddr }

end VexExecChk

/-- The superblock starts where the guest is, and its `n` instructions lie in its
bounds. -/
structure Guest.Executes {S : Type} (g : Guest S) (sb : ChkBlock) (n : ℕ) (x : S) : Prop where
  pos : 0 < n
  entry : g.pc x = sb.guestAddr
  inside : ∀ j < n, sb.inBounds (g.pc (g.step^[j] x)) = true

def ChkState.start {S : Type} (x : S) : ChkState S := ⟨x, x, false, false, 0, 0, 0, 0, false⟩

/-- The states the checker goes through, where each superblock run so far meets the
condition. -/
inductive ChkRun {S : Type} (g : Guest S) (C : ChkBlock → ℕ → ChkState S → Prop) :
    ChkState S → Prop
  | start (x : S) : ChkRun g C (.start x)
  | step {s t : ChkState S} (sb : ChkBlock) (n fuel : ℕ) (prev : ChkRun g C s)
      (hx : g.Executes sb n s.gs) (hsys : sb.isSyscall = false) (hc : C sb n s)
      (h : VexExecChk.doVexSB g fuel sb n s = some t) : ChkRun g C t

/-- While the checker defers, the superblock runs inside the bounds it deferred at,
and ends outside of its own bounds exactly if it ends outside of those. -/
def VexExecChk.Agrees {S : Type} (g : Guest S) (sb : ChkBlock) (n : ℕ) (s : ChkState S) : Prop :=
  s.isDeferred = true →
    (∀ j < n, inBounds s.deferredBoundStart s.deferredBoundEnd (g.pc (g.step^[j] s.gs)) = true) ∧
      inBounds s.deferredBoundStart s.deferredBoundEnd (g.pc (g.step^[n] s.gs)) =
        sb.inBounds (g.pc (g.step^[n] s.gs))

/-- The checker is in step: the same state where nothing is deferred, and else a
shadow process that is behind by instructions of the bounds deferred at. -/
structure ChkState.InStep {S : Type} (g : Guest S) (s : ChkState S) : Prop where
  synced : s.isDeferred = false → s.shadowExecuted = s.executed ∧ s.shadow = s.gs
  behind : s.isDeferred = true → ∃ k, s.executed = s.shadowExecuted + k ∧
    s.gs = g.step^[k] s.shadow ∧ ∀ j < k,
      inBounds s.deferredBoundStart s.deferredBoundEnd (g.pc (g.step^[j] s.shadow)) = true
  checked : s.verified = true → s.isDeferred = false

namespace VexExecChk

variable {S : Type} {g : Guest S} {s t : ChkState S} {sb : ChkBlock} {n fuel : ℕ}

theorem stepThroughBounds_spec {a b : BitVec 64} (h : stepThroughBounds g fuel a b s = some t) :
    ∃ k, FirstFail g.step (fun x => inBounds a b (g.pc x)) s.shadow k ∧
      t = { s with shadow := g.step^[k] s.shadow, shadowExecuted := s.shadowExecuted + k } := by
  unfold stepThroughBounds at h
  rw [Option.map_eq_some_iff] at h
  obtain ⟨⟨x, k⟩, hrun, rfl⟩ := h
  obtain ⟨rfl, hk⟩ := stepWhile_eq_some hrun
  exact ⟨k, hk, rfl⟩

/-- What a superblock run does, case by case. -/
theorem doVexSB_cases (hsys : sb.isSyscall = false) (h : doVexSB g fuel sb n s = some t) :
    (s.isDeferred = true ∧ sb.inBounds (g.pc (g.step^[n] s.gs)) = true ∧ t = runBlock g n s) ∨
    (s.isDeferred = false ∧ sb.inBounds (g.pc (g.step^[n] s.gs)) = false ∧
      ∃ k, FirstFail g.step (fun x => sb.inBounds (g.pc x)) s.shadow k ∧
        t = { runBlock g n s with
          shadow := g.step^[k] s.shadow, shadowExecuted := s.shadowExecuted + k,
          verified := true }) ∨
    (s.isDeferred = true ∧ sb.inBounds (g.pc (g.step^[n] s.gs)) = false ∧
      ∃ k, FirstFail g.step
          (fun x => inBounds s.deferredBoundStart s.deferredBoundEnd (g.pc x)) s.shadow k ∧
        t = { runBlock g n s with
          shadow := g.step^[k] s.shadow, shadowExecuted := s.shadowExecuted + k,
          isDeferred := false, deferredBoundStart := 0, deferredBoundEnd := 0,
          verified := true }) ∨
    (s.isDeferred = false ∧ sb.inBounds (g.pc (g.step^[n] s.gs)) = true ∧
      t = { runBlock g n s with
        isDeferred := true, deferredBoundStart := sb.guestAddr,
        deferredBoundEnd := sb.endAddr }) := by
  unfold doVexSB at h
  have hd : (runBlock g n s).isDeferred = s.isDeferred := rfl
  have hgs : (runBlock g n s).gs = g.step^[n] s.gs := rfl
  simp only [hd, hgs] at h
  cases hdef : s.isDeferred <;> cases hin : sb.inBounds (g.pc (g.step^[n] s.gs)) <;>
    simp only [hdef, hin, Bool.and_true, Bool.and_false, Bool.not_true, Bool.not_false, if_true,
      Bool.false_eq_true, if_false, Option.map_eq_some_iff, hsys] at h
  · obtain ⟨u, hu, rfl⟩ := h
    obtain ⟨k, hk, rfl⟩ := stepThroughBounds_spec hu
    exact .inr (.inl ⟨rfl, rfl, k, hk, rfl⟩)
  · cases h
    exact .inr (.inr (.inr ⟨rfl, rfl, rfl⟩))
  · obtain ⟨u, hu, rfl⟩ := h
    obtain ⟨k, hk, rfl⟩ := stepThroughBounds_spec hu
    exact .inr (.inr (.inl ⟨rfl, rfl, k, hk, rfl⟩))
  · cases h
    exact .inl ⟨rfl, rfl, rfl⟩

/-- Where the deferred superblocks have run inside the bounds deferred at, the shadow
process steps to where the guest is exactly if the last one agrees on them too. -/
theorem resume_iff (hout : sb.inBounds (g.pc (g.step^[n] s.gs)) = false) {k m : ℕ}
    (hd : s.isDeferred = true) (hgs : s.gs = g.step^[k] s.shadow)
    (hk : ∀ j < k, inBounds s.deferredBoundStart s.deferredBoundEnd
      (g.pc (g.step^[j] s.shadow)) = true)
    (hm : FirstFail g.step
      (fun x => inBounds s.deferredBoundStart s.deferredBoundEnd (g.pc x)) s.shadow m) :
    m = k + n ↔ Agrees g sb n s := by
  have hfirst : m = k + n ↔ FirstFail g.step
      (fun x => inBounds s.deferredBoundStart s.deferredBoundEnd (g.pc x)) s.gs n := by
    rw [hgs, ← FirstFail.add_iff hk]
    exact ⟨fun h => h ▸ hm, fun h => hm.unique h⟩
  rw [hfirst, Agrees, hout]
  exact ⟨fun h _ => ⟨h.before, h.fails⟩, fun h => ⟨(h hd).1, (h hd).2⟩⟩

/-- A superblock run keeps the checker in step. -/
theorem doVexSB_inStep (hs : s.InStep g) (hx : g.Executes sb n s.gs)
    (hsys : sb.isSyscall = false) (ha : Agrees g sb n s) (h : doVexSB g fuel sb n s = some t) :
    t.InStep g := by
  rcases doVexSB_cases hsys h with ⟨hd, hin, rfl⟩ | ⟨hd, hout, m, hm, rfl⟩ |
    ⟨hd, hout, m, hm, rfl⟩ | ⟨hd, hin, rfl⟩
  · -- still deferred: the bounds deferred at hold the instructions of this run too
    obtain ⟨k, he, hgs, hk⟩ := hs.behind hd
    refine ⟨fun hf => ?_, fun _ => ⟨k + n, ?_, ?_, fun j hj => ?_⟩, fun hv => by cases hv⟩
    · change s.isDeferred = false at hf
      rw [hd] at hf
      cases hf
    · change s.executed + n = s.shadowExecuted + (k + n)
      omega
    · change g.step^[n] s.gs = g.step^[k + n] s.shadow
      rw [hgs, ← Function.iterate_add_apply, Nat.add_comm]
    · by_cases hjk : j < k
      · exact hk j hjk
      · obtain ⟨i, rfl⟩ : ∃ i, j = k + i := ⟨j - k, by omega⟩
        have hi := (ha hd).1 i (by omega)
        rwa [hgs, ← Function.iterate_add_apply, Nat.add_comm] at hi
  · -- not deferred: the bounds are those of the superblock, which just left them
    obtain ⟨he, hsh⟩ := hs.synced hd
    have hmn : m = n := by
      rw [hsh] at hm
      exact hm.unique ⟨hx.inside, hout⟩
    subst hmn
    refine ⟨fun _ => ⟨?_, ?_⟩, fun hf => ?_, fun _ => hd⟩
    · change s.shadowExecuted + m = s.executed + m
      rw [he]
    · change g.step^[m] s.shadow = g.step^[m] s.gs
      rw [hsh]
    · change s.isDeferred = true at hf
      rw [hd] at hf
      cases hf
  · -- resumed: the shadow process makes up for all superblocks since
    obtain ⟨k, he, hgs, hk⟩ := hs.behind hd
    obtain rfl := (resume_iff hout hd hgs hk hm).2 ha
    refine ⟨fun _ => ⟨?_, ?_⟩, fun hf => (by cases hf), fun _ => rfl⟩
    · change s.shadowExecuted + (k + n) = s.executed + n
      omega
    · change g.step^[k + n] s.shadow = g.step^[n] s.gs
      rw [hgs, ← Function.iterate_add_apply, Nat.add_comm]
  · -- deferred from here on
    obtain ⟨he, hsh⟩ := hs.synced hd
    refine ⟨fun hf => (by cases hf), fun _ => ⟨n, ?_, ?_, fun j hj => ?_⟩, fun hv => (by cases hv)⟩
    · change s.executed + n = s.shadowExecuted + n
      rw [he]
    · change g.step^[n] s.gs = g.step^[n] s.shadow
      rw [hsh]
    · change inBounds sb.guestAddr sb.endAddr (g.pc (g.step^[j] s.shadow)) = true
      rw [hsh]
      exact hx.inside j hj

end VexExecChk

namespace ChkRun

variable {S : Type} {g : Guest S} {s : ChkState S}

theorem inStep (run : ChkRun g (VexExecChk.Agrees g) s) : s.InStep g := by
  induction run with
  | start x => exact ⟨fun _ => ⟨rfl, rfl⟩, fun h => (by cases h), fun h => by cases h⟩
  | step sb n fuel prev hx hsys hc h ih => exact VexExecChk.doVexSB_inStep ih hx hsys hc h

/-- Where the superblocks agree with the bounds deferred at, the shadow process has
executed the same instructions whenever the checker compares, and no more than those
while it defers. -/
theorem lockstep (run : ChkRun g (VexExecChk.Agrees g) s) :
    (s.verified = true → s.shadowExecuted = s.executed ∧ s.shadow = s.gs) ∧
      (s.isDeferred = true → s.shadowExecuted ≤ s.executed) := by
  refine ⟨fun hv => run.inStep.synced (run.inStep.checked hv), fun hd => ?_⟩
  obtain ⟨k, he, -⟩ := run.inStep.behind hd
  omega

def traceGuest (l : List (BitVec 64)) : Guest ℕ := ⟨fun i => l.getD i 0x200, Nat.succ⟩

/-- A loop of two instructions that is entered at the instruction before it. -/
def innerLoop : List (BitVec 64) := [0x100, 0x102, 0x104, 0x102, 0x104]

def entryBlock : ChkBlock := ⟨0x100, 0x106, false⟩

def loopBlock : ChkBlock := ⟨0x102, 0x106, false⟩

theorem lockstep_innerLoop :
    ∃ s, ChkRun (traceGuest innerLoop) (VexExecChk.Agrees (traceGuest innerLoop)) s ∧
      s.verified = true ∧ s.shadowExecuted = 5 ∧ s.executed = 5 := by
  have h₁ : ChkRun (traceGuest innerLoop) (VexExecChk.Agrees (traceGuest innerLoop)) _ :=
    .step entryBlock 3 0 (.start 0) ⟨by decide, rfl, by decide⟩ rfl (fun h => by cases h) rfl
  have h₂ := h₁.step loopBlock 2 9 ⟨by decide, rfl, by decide⟩ rfl (fun _ => by decide) rfl
  exact ⟨_, h₂, rfl, (h₂.lockstep.1 rfl).1.trans rfl, rfl⟩

/-- The loop jumps back to its entry, which lies in the bounds deferred at but not in
those of the loop. -/
def outerLoop : List (BitVec 64) := [0x100, 0x102, 0x104, 0x102, 0x104, 0x100, 0x102, 0x104]

theorem not_lockstep_outerLoop :
    ∃ s, ChkRun (traceGuest outerLoop) (fun _ _ _ => True) s ∧
      s.verified = true ∧ s.executed = 5 ∧ s.shadowExecuted = 8 := by
  have h₁ : ChkRun (traceGuest outerLoop) (fun _ _ _ => True) _ :=
    .step entryBlock 3 0 (.start 0) ⟨by decide, rfl, by decide⟩ rfl trivial rfl
  have h₂ := h₁.step loopBlock 2 9 ⟨by decide, rfl, by decide⟩ rfl trivial rfl
  exact ⟨_, h₂, rfl, rfl, rfl⟩

end ChkRun

end VexLLVM
