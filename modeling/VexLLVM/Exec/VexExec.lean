import VexLLVM.Cache.Invariant
import VexLLVM.Exec.GuestMem

/-!
# The dispatcher

`VexExec`: the loop that looks up the superblock of the next address, compiles it
and runs it, and the handler of the write faults that are raised while it runs.

What a block does when it runs is not decided here. A `BlockRun` tells which faults
it raises, what the guest code and the mappings are afterwards, and how it exits.
The state holds the mappings that were reported since the last dispatch; nothing
in the dispatcher looks at them.
-/

namespace VexLLVM

open StateExcept

def MAX_CODE_BYTES : GuestPtr := 1024

def VSB.endAddr (x : VSB) : GuestPtr := (VexSB.endAddr? x.sb.stmts).getD 0

variable {M : Type}

structure ExecState (M : Type) where
  cache : CacheState
  mem : M
  nextAddr : GuestPtr
  toFlush : GuestPtr × GuestPtr
  exited : Bool
  reported : List Mapping

/-- One run of a superblock: the faulting addresses, in guest memory, the code after
it, where and how it exits, and what the system call at its end does. -/
structure BlockRun (M : Type) where
  faults : List GuestPtr
  code : HostPtr → GuestPtr → Option Vex.IRSB
  newIp : GuestPtr
  exitType : GuestExitType
  sysMem : M → M
  sysExit : Bool

abbrev ExecM (M : Type) := StateT (ExecState M) (Except EmitError)

namespace VexExec

variable (gm : GuestMem M) (gen : GenLLVM)

def onCache {α : Type} (m : CacheM α) : ExecM M α := fun s =>
  match m s.cache with
  | .ok (a, c) => .ok (a, { s with cache := c })
  | .error e => .error e

def hostPtr (a : GuestPtr) : HostPtr := gm.base + a

/-- The flush at the head of `doNextSB`. -/
def flushPending : ExecM M Unit := do
  let s ← get
  if s.toFlush.1 ≠ 0 then
    onCache (VexJITCache.flushRange (s.toFlush.1 - MAX_CODE_BYTES) (s.toFlush.2 + MAX_CODE_BYTES))
    modify fun s => { s with toFlush := (0, 0), reported := [] }
  else modify fun s => { s with reported := [] }

/-- The mapping of a block that is about to run loses its write permission. -/
def protectMapping (m : Mapping) : ExecM M Unit :=
  if m.curProt.write then
    modify fun s => { s with
      mem := gm.recordMapping s.mem (m.withProt { m.reqProt with write := false }) }
  else pure ()

/-- The second half of `getSBFromGuestAddr`: the superblock is translated and
compiled. -/
def compileSB (a : GuestPtr) (found : Option Mapping) : ExecM M (Option VSB) := do
  match ← onCache (VexJITCache.getVSB gen (hostPtr gm a) a) with
  | none => pure none
  | some vsb => do
      let _ ← onCache (VexJITCache.getFPtr gen (hostPtr gm a) a)
      if ∀ m ∈ found, vsb.endAddr < m.endPtr then pure (some vsb)
      else throw (.assertion "code spanned known page mappings")

def getSBFromGuestAddr (a : GuestPtr) : ExecM M (Option VSB) := do
  let s ← get
  match gm.lookupMapping s.mem a with
  | none => compileSB gm gen a none
  | some m =>
      if m.reqProt.exec then do
        protectMapping gm m
        compileSB gm gen a (some m)
      else pure none

/-- `signalHandler`, for a fault at a guest address. A fault it does not accept ends
the process. -/
def signalHandler (addr : GuestPtr) : ExecM M Unit := do
  let s ← get
  match gm.lookupMapping s.mem addr with
  | none => throw (.assertion "couldn't find a mapping to tweak")
  | some m =>
      if m.reqProt.exec && !m.curProt.write then
        set { s with
          mem := gm.recordMapping s.mem (m.withProt { m.reqProt with exec := false })
          toFlush := (m.offset, m.endPtr)
          reported := m :: s.reported }
      else throw (.assertion "the mapping was a normal one")

def doVexSB (run : BlockRun M) (vsb : VSB) : ExecM M GuestPtr := do
  match ← onCache (VexJITCache.getCachedFPtr vsb.guestAddr) with
  | none => throw (.assertion "func_ptr != NULL")
  | some _ => do
      run.faults.forM (signalHandler gm)
      modify fun s => { s with cache := { s.cache with code := run.code } }
      pure run.newIp

def doSysCall (run : BlockRun M) : ExecM M Unit :=
  modify fun s => { s with mem := run.sysMem s.mem, exited := run.sysExit }

def handleExit (run : BlockRun M) : ExecM M Unit :=
  match run.exitType with
  | .IGNORE | .CALL | .RETURN | .SIGTRAP | .EMWARN => pure ()
  | .INT | .SYSCALL => doSysCall run
  | _ => throw (.assertion "SPECIAL EXIT TYPE")

/-- The superblock runs. The answer is whether there is more to do. -/
def runSB (run : BlockRun M) (vsb : VSB) : ExecM M Bool := do
  let newIp ← doVexSB gm run vsb
  handleExit run
  let s ← get
  if s.exited then pure false
  else do
    modify fun s => { s with nextAddr := newIp }
    pure true

/-- `doNextSB` up to the point at which the superblock is about to run. -/
def nextSB : ExecM M (Option VSB) := do
  flushPending
  let s ← get
  if s.nextAddr = 0 then pure none else getSBFromGuestAddr gm gen s.nextAddr

def doNextSB (run : BlockRun M) : ExecM M Bool := do
  match ← nextSB gm gen with
  | none => pure false
  | some vsb => runSB gm run vsb

end VexExec

def VexExec.limitCache : Option ℕ → CacheM Unit
  | none => pure ()
  | some n => VexJITCache.setMaxCache n

def ExecState.start (cache : CacheState) (mem : M) (entry : GuestPtr) : ExecState M :=
  ⟨cache, mem, entry, (0, 0), false, []⟩

/-- The states the loop of `run` dispatches from, where every dispatch so far meets
the condition. -/
inductive ExecRun (gm : GuestMem M) (gen : GenLLVM) (C : ExecState M → BlockRun M → Prop) :
    ExecState M → Prop where
  | start {code : HostPtr → GuestPtr → Option Vex.IRSB} {rand : ℕ → ℕ} {limit : Option ℕ}
      {cache : CacheState} (h : VexExec.limitCache limit (.init code rand) = .ok ((), cache))
      (mem : M) (entry : GuestPtr) : ExecRun gm gen C (.start cache mem entry)
  | step {s t : ExecState M} {run : BlockRun M} (prev : ExecRun gm gen C s) (hc : C s run)
      (h : VexExec.doNextSB gm gen run s = .ok (true, t)) : ExecRun gm gen C t

abbrev AnyBlock : ExecState M → BlockRun M → Prop := fun _ _ => True

/-- The dispatches of a list of block runs, where all of them go on. -/
def VexExec.execAll (gm : GuestMem M) (gen : GenLLVM) : List (BlockRun M) → ExecM M Unit
  | [] => pure ()
  | run :: runs => do
      if ← VexExec.doNextSB gm gen run then execAll gm gen runs
      else throw (.assertion "nothing to run")

theorem ExecRun.of_execAll {gm : GuestMem M} {gen : GenLLVM} {s t : ExecState M}
    {runs : List (BlockRun M)} (run : ExecRun gm gen AnyBlock s)
    (h : VexExec.execAll gm gen runs s = .ok ((), t)) : ExecRun gm gen AnyBlock t := by
  induction runs generalizing s with
  | nil =>
      cases h
      exact run
  | cons r runs ih =>
      obtain ⟨more, u, h₁, h₂⟩ := bind_eq_ok h
      cases more with
      | false => cases h₂
      | true => exact ih (run.step trivial h₁) h₂

/-- A state a run ends in, found by running it. -/
theorem ExecRun.exists_of_check (gm : GuestMem M) (gen : GenLLVM)
    (code : HostPtr → GuestPtr → Option Vex.IRSB) (mem : M) (entry : GuestPtr)
    (runs : List (BlockRun M)) (P : ExecState M → Bool)
    (h : (match VexExec.execAll gm gen runs (.start (.init code fun _ => 0) mem entry) with
      | .ok (_, s) => P s
      | .error _ => false) = true) :
    ∃ s, ExecRun gm gen AnyBlock s ∧ P s = true := by
  have hs : ExecRun gm gen AnyBlock (.start (.init code fun _ => 0) mem entry) :=
    .start (show VexExec.limitCache none _ = _ from rfl) mem entry
  cases he : VexExec.execAll gm gen runs (.start (.init code fun _ => 0) mem entry) with
  | error e => rw [he] at h; cases h
  | ok p => rw [he] at h; exact ⟨p.2, hs.of_execAll he, h⟩

def CacheState.Reachable (gen : GenLLVM) (c : CacheState) : Prop :=
  ∃ code rand ops, CacheRun gen AnyOp (.init code rand) ops c

theorem CacheState.Reachable.exec {gen : GenLLVM} {c d : CacheState} {r : Option FPtr}
    (hc : c.Reachable gen) (op : CacheOp) (h : op.exec gen c = .ok (r, d)) : d.Reachable gen := by
  obtain ⟨code, rand, ops, run⟩ := hc
  exact ⟨code, rand, ops ++ [op], run.step trivial h⟩

namespace VexExec

variable {gm : GuestMem M} {gen : GenLLVM} {s t : ExecState M}

theorem onCache_eq_ok {α : Type} {m : CacheM α} {a : α} (h : onCache m s = .ok (a, t)) :
    ∃ c, m s.cache = .ok (a, c) ∧ t = { s with cache := c } := by
  unfold onCache at h
  cases hm : m s.cache with
  | error e => rw [hm] at h; cases h
  | ok p => rw [hm] at h; cases h; exact ⟨p.2, rfl, rfl⟩

theorem flushPending_spec (h : flushPending s = .ok ((), t)) :
    (s.toFlush.1 = 0 ∧ t = { s with reported := [] }) ∨
      s.toFlush.1 ≠ 0 ∧ ∃ c, VexJITCache.flushRange (s.toFlush.1 - MAX_CODE_BYTES)
        (s.toFlush.2 + MAX_CODE_BYTES) s.cache = .ok ((), c) ∧
        t = { s with cache := c, toFlush := (0, 0), reported := [] } := by
  unfold flushPending at h
  rw [get_bind] at h
  by_cases h0 : s.toFlush.1 = 0
  · rw [if_neg (not_not.2 h0)] at h
    cases h
    exact .inl ⟨h0, rfl⟩
  · rw [if_pos h0] at h
    obtain ⟨_, u, h₁, h₂⟩ := bind_eq_ok h
    obtain ⟨c, hc, rfl⟩ := onCache_eq_ok h₁
    cases h₂
    exact .inr ⟨h0, c, hc, rfl⟩

theorem compileSB_spec {a : GuestPtr} {found : Option Mapping} {r : Option VSB}
    (h : compileSB gm gen a found s = .ok (r, t)) :
    ∃ c, VexJITCache.getVSB gen (hostPtr gm a) a s.cache = .ok (r, c) ∧
      ((r = none ∧ t = { s with cache := c }) ∨ ∃ p c',
        VexJITCache.getFPtr gen (hostPtr gm a) a c = .ok (p, c') ∧ t = { s with cache := c' }) := by
  obtain ⟨o, u, h₁, k₁⟩ := bind_eq_ok h
  obtain ⟨c, hc, hu⟩ := onCache_eq_ok h₁
  subst hu
  cases o with
  | none =>
      cases k₁
      exact ⟨c, hc, .inl ⟨rfl, rfl⟩⟩
  | some vsb =>
      obtain ⟨p, u, h₂, k₂⟩ := bind_eq_ok k₁
      obtain ⟨c', hc', hu⟩ := onCache_eq_ok h₂
      subst hu
      split at k₂
      · cases k₂
        exact ⟨c, hc, .inr ⟨p, c', hc', rfl⟩⟩
      · cases k₂

def protectedMem (gm : GuestMem M) (mem : M) (m : Mapping) : M :=
  if m.curProt.write then gm.recordMapping mem (m.withProt { m.reqProt with write := false })
  else mem

theorem protectMapping_eq (m : Mapping) :
    protectMapping gm m s = .ok ((), { s with mem := protectedMem gm s.mem m }) := by
  unfold protectMapping protectedMem
  split <;> rfl

/-- The mapping of the block is protected, and the block is translated and compiled. -/
theorem getSBFromGuestAddr_spec {a : GuestPtr} {r : Option VSB}
    (h : getSBFromGuestAddr gm gen a s = .ok (r, t)) :
    (r = none ∧ t = s) ∨
      (gm.lookupMapping s.mem a = none ∧ compileSB gm gen a none s = .ok (r, t)) ∨
      ∃ m, gm.lookupMapping s.mem a = some m ∧
        compileSB gm gen a (some m) { s with mem := protectedMem gm s.mem m } = .ok (r, t) := by
  unfold getSBFromGuestAddr at h
  rw [get_bind] at h
  cases hm : gm.lookupMapping s.mem a with
  | none =>
      rw [hm] at h
      exact .inr (.inl ⟨rfl, h⟩)
  | some m =>
      rw [hm] at h
      dsimp only at h
      split at h
      · rw [bind_ok (protectMapping_eq m)] at h
        exact .inr (.inr ⟨m, rfl, h⟩)
      · cases h
        exact .inl ⟨rfl, rfl⟩

/-- An accepted fault: the mapping becomes writable, and its extent is noted. -/
theorem signalHandler_spec {addr : GuestPtr} {r : Unit} (h : signalHandler gm addr s = .ok (r, t)) :
    ∃ m, gm.lookupMapping s.mem addr = some m ∧ t = { s with
      mem := gm.recordMapping s.mem (m.withProt { m.reqProt with exec := false })
      toFlush := (m.offset, m.endPtr)
      reported := m :: s.reported } := by
  unfold signalHandler at h
  rw [get_bind] at h
  cases hm : gm.lookupMapping s.mem addr with
  | none => rw [hm] at h; cases h
  | some m =>
      rw [hm] at h
      dsimp only at h
      split at h
      · cases h
        exact ⟨m, rfl, rfl⟩
      · cases h

theorem doVexSB_spec {run : BlockRun M} {vsb : VSB} {ip : GuestPtr}
    (h : doVexSB gm run vsb s = .ok (ip, t)) :
    ∃ p c u, VexJITCache.getCachedFPtr vsb.guestAddr s.cache = .ok (some p, c) ∧
      run.faults.forM (signalHandler gm) { s with cache := c } = .ok ((), u) ∧
      t = { u with cache := { u.cache with code := run.code } } := by
  obtain ⟨o, u, h₁, k₁⟩ := bind_eq_ok h
  obtain ⟨c, hc, hu⟩ := onCache_eq_ok h₁
  subst hu
  cases o with
  | none => cases k₁
  | some p =>
      obtain ⟨_, u, h₂, k₂⟩ := bind_eq_ok k₁
      cases k₂
      exact ⟨p, c, u, hc, h₂, rfl⟩

/-- What an accepted fault keeps, the faults of a block keep. -/
theorem faults_keep {fs : List GuestPtr} {r : Unit} (I : ExecState M → Prop) (hs : I s)
    (hI : ∀ {s m addr}, I s → gm.lookupMapping s.mem addr = some m → I { s with
      mem := gm.recordMapping s.mem (m.withProt { m.reqProt with exec := false })
      toFlush := (m.offset, m.endPtr)
      reported := m :: s.reported })
    (h : fs.forM (signalHandler gm) s = .ok (r, t)) : I t := by
  induction fs generalizing s with
  | nil =>
      cases h
      exact hs
  | cons f fs ih =>
      obtain ⟨_, u, h₁, h₂⟩ := bind_eq_ok h
      obtain ⟨m, hm, rfl⟩ := signalHandler_spec h₁
      exact ih (hI hs hm) h₂

/-- Faults leave the caches alone. -/
theorem faults_cache {fs : List GuestPtr} {r : Unit}
    (h : fs.forM (signalHandler gm) s = .ok (r, t)) : t.cache = s.cache :=
  faults_keep (fun u => u.cache = s.cache) rfl (fun hu _ => hu) h

theorem runSB_spec {run : BlockRun M} {vsb : VSB} (h : runSB gm run vsb s = .ok (true, t)) :
    ∃ ip u, doVexSB gm run vsb s = .ok (ip, u) ∧
      (t = { u with nextAddr := ip } ∨ (run.exitType = .INT ∨ run.exitType = .SYSCALL) ∧
        t = { u with nextAddr := ip, mem := run.sysMem u.mem, exited := run.sysExit }) := by
  obtain ⟨ip, u, h₁, k₁⟩ := bind_eq_ok h
  obtain ⟨_, v, h₂, k₂⟩ := bind_eq_ok k₁
  refine ⟨ip, u, h₁, ?_⟩
  rw [get_bind] at k₂
  split at k₂
  · cases k₂
  · cases k₂
    unfold handleExit at h₂
    cases hx : run.exitType <;> rw [hx] at h₂ <;> cases h₂
    all_goals first | exact .inl rfl | exact .inr ⟨by simp, rfl⟩

/-- What has happened when a superblock is about to run. -/
theorem nextSB_spec {vsb : VSB} (h : nextSB gm gen s = .ok (some vsb, t)) :
    ∃ u c c' p mem, flushPending s = .ok ((), u) ∧
      VexJITCache.getVSB gen (hostPtr gm u.nextAddr) u.nextAddr u.cache = .ok (some vsb, c) ∧
      VexJITCache.getFPtr gen (hostPtr gm u.nextAddr) u.nextAddr c = .ok (p, c') ∧
      t = { u with cache := c', mem := mem } ∧
      ((gm.lookupMapping u.mem u.nextAddr = none ∧ mem = u.mem) ∨
        ∃ m, gm.lookupMapping u.mem u.nextAddr = some m ∧ mem = protectedMem gm u.mem m) := by
  obtain ⟨_, u, h₁, k₁⟩ := bind_eq_ok h
  rw [get_bind] at k₁
  split at k₁
  · cases k₁
  · rcases getSBFromGuestAddr_spec k₁ with ⟨hn, -⟩ | ⟨hm, h₂⟩ | ⟨m, hm, h₂⟩
    · cases hn
    all_goals
      obtain ⟨c, hc, ⟨hn, -⟩ | ⟨p, c', hp, ht⟩⟩ := compileSB_spec h₂
      · cases hn
    · exact ⟨u, c, c', p, u.mem, h₁, hc, hp, ht, .inl ⟨hm, rfl⟩⟩
    · exact ⟨u, c, c', p, _, h₁, hc, hp, ht, .inr ⟨m, hm, rfl⟩⟩

/-- The caches of the executor go through a run of cache operations. -/
theorem flushPending_reachable {r : Unit} (hs : s.cache.Reachable gen)
    (h : flushPending s = .ok (r, t)) : t.cache.Reachable gen := by
  rcases flushPending_spec h with ⟨-, rfl⟩ | ⟨-, c, hc, rfl⟩
  · exact hs
  · exact hs.exec (.flushRange _ _) (map_ok hc)

theorem compileSB_reachable {a : GuestPtr} {found : Option Mapping} {r : Option VSB}
    (hs : s.cache.Reachable gen) (h : compileSB gm gen a found s = .ok (r, t)) :
    t.cache.Reachable gen := by
  obtain ⟨c, h₁, ⟨-, rfl⟩ | ⟨p, c', h₂, rfl⟩⟩ := compileSB_spec h
  · exact hs.exec (.getVSB _ _) (map_ok h₁)
  · exact (hs.exec (.getVSB _ _) (map_ok h₁)).exec (.getFPtr _ _) (map_ok h₂)

theorem nextSB_reachable {r : Option VSB} (hs : s.cache.Reachable gen)
    (h : nextSB gm gen s = .ok (r, t)) : t.cache.Reachable gen := by
  obtain ⟨_, u, h₁, k₁⟩ := bind_eq_ok h
  have hu := flushPending_reachable hs h₁
  rw [get_bind] at k₁
  split at k₁
  · cases k₁
    exact hu
  · rcases getSBFromGuestAddr_spec k₁ with ⟨-, rfl⟩ | ⟨-, h₂⟩ | ⟨m, -, h₂⟩
    · exact hu
    · exact compileSB_reachable hu h₂
    · have hu : ({ u with mem := protectedMem gm u.mem m } : ExecState M).cache.Reachable gen := hu
      exact compileSB_reachable hu h₂

theorem runSB_reachable {run : BlockRun M} {vsb : VSB} (hs : s.cache.Reachable gen)
    (h : runSB gm run vsb s = .ok (true, t)) : t.cache.Reachable gen := by
  obtain ⟨ip, u, h₁, ht⟩ := runSB_spec h
  obtain ⟨p, c, v, hc, hf, rfl⟩ := doVexSB_spec h₁
  have hv : v.cache.Reachable gen := by
    rw [faults_cache hf]
    exact hs.exec (.getCachedFPtr _) hc
  have hu := hv.exec (.guestCode run.code) rfl
  rcases ht with rfl | ⟨-, rfl⟩
  · exact hu
  · exact hu

/-- A dispatch that goes on: the superblock is found, and it runs. -/
theorem doNextSB_spec {run : BlockRun M} (h : doNextSB gm gen run s = .ok (true, t)) :
    ∃ vsb u, nextSB gm gen s = .ok (some vsb, u) ∧ runSB gm run vsb u = .ok (true, t) := by
  obtain ⟨o, u, h₁, k₁⟩ := bind_eq_ok h
  cases o with
  | none => cases k₁
  | some vsb => exact ⟨vsb, u, h₁, k₁⟩

end VexExec

namespace ExecRun

variable {gm : GuestMem M} {gen : GenLLVM} {C : ExecState M → BlockRun M → Prop} {s : ExecState M}

theorem reachable (run : ExecRun gm gen C s) : s.cache.Reachable gen := by
  induction run with
  | @start code rand limit cache h mem entry =>
      cases limit with
      | none =>
          cases h
          exact ⟨code, rand, [], .nil⟩
      | some n =>
          have h : (CacheOp.setMaxCache n).exec gen (.init code rand) = .ok (none, cache) :=
            map_ok h
          exact ⟨code, rand, [.setMaxCache n], CacheRun.nil.step trivial h⟩
  | step prev hc h ih =>
      obtain ⟨vsb, u, h₁, h₂⟩ := VexExec.doNextSB_spec h
      exact VexExec.runSB_reachable (VexExec.nextSB_reachable ih h₁) h₂

end ExecRun

namespace CacheState.Reachable

variable {gen : GenLLVM} {c : CacheState}

theorem ok (h : c.Reachable gen) : c.OK :=
  let ⟨_, _, _, run⟩ := h
  run.inv.1

theorem inv (h : c.Reachable gen) : c.view.Inv :=
  let ⟨_, _, _, run⟩ := h
  run.inv.2

theorem addressed (h : c.Reachable gen) : c.view.Addressed :=
  let ⟨_, _, _, run⟩ := h
  run.addressed

end CacheState.Reachable

end VexLLVM
