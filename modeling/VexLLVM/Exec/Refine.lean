import VexLLVM.Cache.Current
import VexLLVM.Emit.CallBlocks
import VexLLVM.Exec.Dispatch
import VexLLVM.Vex.Guest

/-!
# The dispatcher runs the guest

The states of the dispatcher, with the machine the compiled code runs on, go through the
states of the guest: every dispatch is one block of it. What the dispatcher holds is a
translation of the code that is there, as long as no translated code is changed.
-/

namespace VexLLVM

open LLVM StateExcept Vex

variable {M : Type} {gm : GuestMem M} {gen : GenLLVM} {ext : Extern} {pf : Platform}

/-! ## What is dispatched -/

namespace VexExec

variable {s t : ExecState M}

theorem flushPending_current {r : Unit} (hs : s.cache.Reachable gen)
    (hc : s.cache.Current gen gm.base) (h : flushPending s = .ok (r, t)) :
    t.cache.Current gen gm.base ∧ t.cache.code = s.cache.code ∧ t.nextAddr = s.nextAddr := by
  rcases flushPending_spec h with ⟨-, rfl⟩ | ⟨-, c, hfl, rfl⟩
  · exact ⟨hc, rfl, rfl⟩
  · exact ⟨flushRange_current hs.ok hc hfl, (keepsCode_flushRange _ _).code_eq _ _ _ hfl, rfl⟩

/-- What is held when a block is about to run is a translation of the code. -/
theorem nextSB_current {vsb : VSB} (hs : s.cache.Reachable gen) (hc : s.cache.Current gen gm.base)
    (h : nextSB gm gen s = .ok (some vsb, t)) :
    t.cache.Current gen gm.base ∧ t.cache.code = s.cache.code ∧ vsb.guestAddr = s.nextAddr := by
  obtain ⟨u, c, c', p, mem, hf, hv, hg, rfl, -⟩ := nextSB_spec h
  have hu := flushPending_reachable hs hf
  obtain ⟨hcu, hcode, hnext⟩ := flushPending_current hs hc hf
  have hc₁ := hu.exec (.getVSB _ _) (map_ok hv)
  have hcc := getVSB_current hu.ok hcu hv
  refine ⟨getFPtr_current hc₁.ok hc₁.inv hcc hg, ?_, ?_⟩
  · exact (((keepsCode_getFPtr gen _ _).code_eq _ _ _ hg).trans
      ((keepsCode_getVSB gen _ _).code_eq _ _ _ hv)).trans hcode
  · obtain ⟨-, g⟩ := VexJITCache.getVSB_spec hu.ok hv
    rw [← hnext]
    exact (g.cached hu.inv).1

/-- What runs was emitted from the block that is at the next address. -/
theorem dispatched_block {vsb : VSB} {p : FPtr} {c : CacheState} (hs : s.cache.Reachable gen)
    (hc : s.cache.Current gen gm.base) (hn : nextSB gm gen s = .ok (some vsb, t))
    (hp : VexJITCache.getCachedFPtr vsb.guestAddr t.cache = .ok (some p, c)) :
    ∃ sb, s.cache.codeAt gm.base s.nextAddr = some sb ∧
      (VexSB.ofIRSB gen s.nextAddr sb).emit gen = .ok p.fn.body := by
  have ht := nextSB_reachable hs hn
  obtain ⟨hct, hcode, hvsb⟩ := nextSB_current hs hc hn
  have hjit := (getCachedFPtr_spec ht.ok _ hp).1.symm
  have haddr : p.fn.vsb.sb.guestAddr = s.nextAddr := (ht.addressed _ _ hjit).trans hvsb
  obtain ⟨sb, hsb, hx⟩ := hct _ (.jit hjit)
  rw [haddr] at hsb hx
  refine ⟨sb, by rw [← codeAt_congr hcode, hsb], ?_⟩
  rw [← VexXlate.xlate_eq_some hx]
  exact (ht.emitted hp).body

/-- A block that has run leaves what is held alone. -/
theorem runSB_cache {run : BlockRun M} {vsb : VSB} (hs : s.cache.OK)
    (h : runSB gm run vsb s = .ok (true, t)) :
    t.cache.view = s.cache.view ∧ t.cache.code = run.code ∧ t.nextAddr = run.newIp := by
  obtain ⟨ip, u, h₁, ht⟩ := runSB_spec h
  have hip : ip = run.newIp := by
    obtain ⟨o, v, -, k₁⟩ := bind_eq_ok h₁
    cases o with
    | none => cases k₁
    | some p =>
        obtain ⟨_, w, -, k₂⟩ := bind_eq_ok k₁
        cases k₂
        rfl
  obtain ⟨p, c, v, hp, hf, rfl⟩ := doVexSB_spec h₁
  have hv : v.cache.view = s.cache.view := by
    rw [faults_cache hf]
    exact (getCachedFPtr_spec hs _ hp).2.1
  rcases ht with rfl | ⟨-, rfl⟩
  · exact ⟨hv, rfl, hip⟩
  · exact ⟨hv, rfl, hip⟩

theorem limitCache_current {limit : Option ℕ} {code : HostPtr → GuestPtr → Option IRSB} {rand : ℕ → ℕ}
    {cache : CacheState} (base : BitVec 64) (h : limitCache limit (.init code rand) = .ok ((), cache)) :
    cache.Current gen base ∧ cache.code = code := by
  cases limit with
  | none =>
      cases h
      exact ⟨current_init code rand, rfl⟩
  | some n =>
      exact ⟨setMaxCache_current (.init code rand) (current_init code rand) h,
        (keepsCode_setMaxCache n).code_eq _ _ _ h⟩

end VexExec

/-! ## Runs -/

def GenLLVM.guest (gen : GenLLVM) (m : Machine) (pc : GuestPtr) : GuestState :=
  ⟨m.ctx, gen.guestMem m.mem, pc⟩

/-- The block is one over the integers, with its calls. It shifts by less than a width,
leaves the byte of the exit type alone, and finds in the guest what the host copy of the
system page has. -/
structure Covers (gen : GenLLVM) (pf : Platform) (g : GuestState) (sb : IRSB) : Prop where
  typed : sb.wellTypedWith gen.sigs = true
  copied : ThroughoutWith pf.callees sb.types gen.Copied ⟨g.regs, g.mem, fun _ => none⟩ sb.stmts
  shifts : sb.runWith pf.callees g.regs g.mem ≠ .error .wideShift
  spares : ∀ r, sb.runWith pf.callees g.regs g.mem = .ok r →
    r.guest (BitVec.ofNat 64 gen.exitTypeOffset) = g.regs (BitVec.ofNat 64 gen.exitTypeOffset)

def GuestExitType.IsSysCall (t : GuestExitType) : Prop := t = .INT ∨ t = .SYSCALL

instance (t : GuestExitType) : Decidable t.IsSysCall := inferInstanceAs (Decidable (_ ∨ _))

/-- The dispatcher and the machine, from a guest on. The code is decoded from the memory
of the guest; a dispatch runs the code of a block that is covered, and then changes
nothing that has been translated. -/
inductive GuestRun (gm : GuestMem M) (gen : GenLLVM) (ext : Extern) (pf : Platform) :
    GuestState → ExecState M → Machine → Prop where
  | start {code : HostPtr → GuestPtr → Option IRSB} {rand : ℕ → ℕ} {limit : Option ℕ}
      {cache : CacheState} (h : VexExec.limitCache limit (.init code rand) = .ok ((), cache))
      (mem : M) (entry : GuestPtr) {m : Machine}
      (hm : gen.exitByte m = BitVec.ofNat 8 GuestExitType.IGNORE.code)
      (hcode : ∀ a, code (gm.base + a) a = pf.decode (gen.guestMem m.mem) a) :
      GuestRun gm gen ext pf (gen.guest m entry) (.start cache mem entry) m
  | step {g : GuestState} {s t u : ExecState M} {m m' m₁ : Machine} {vsb : VSB} {p : FPtr}
      {c : CacheState} {fr : Frame} {run : BlockRun M} (prev : GuestRun gm gen ext pf g s m)
      (next : VexExec.nextSB gm gen s = .ok (some vsb, u))
      (ptr : VexJITCache.getCachedFPtr vsb.guestAddr u.cache = .ok (some p, c))
      (reach : p.fn.body.Reach ext (Func.start m) fr)
      (done : p.fn.body.step ext fr = .done (.bits run.newIp.toNat) m')
      (exitType : gen.exitByte m' = BitVec.ofNat 8 run.exitType.code)
      (h : VexExec.doNextSB gm gen run s = .ok (true, t))
      (covers : ∀ sb, pf.decode (gen.guestMem m.mem) s.nextAddr = some sb →
        Covers gen pf (gen.guest m s.nextAddr) sb)
      (stays : ¬ run.exitType.IsSysCall → m₁ = m')
      (sys : run.exitType.IsSysCall → pf.sys ((gen.resetExitType m').ctx, gen.guestMem m'.mem)
        ((gen.resetExitType m₁).ctx, gen.guestMem m₁.mem))
      (code : ∀ a, run.code (gm.base + a) a = pf.decode (gen.guestMem m₁.mem) a)
      (stable : ∀ sb, t.cache.view.Contains sb → pf.decode (gen.guestMem m₁.mem) sb.guestAddr =
        pf.decode (gen.guestMem m.mem) sb.guestAddr) :
      GuestRun gm gen ext pf g t (gen.resetExitType m₁)

namespace GuestRun

variable {g : GuestState} {s : ExecState M} {m : Machine}

theorem execRun (run : GuestRun gm gen ext pf g s m) : ExecRun gm gen AnyBlock s := by
  induction run with
  | start h mem entry hm hcode => exact .start h mem entry
  | step prev next ptr reach done exitType h covers stays sys code stable ih => exact ih.step trivial h

theorem exitByte_eq (run : GuestRun gm gen ext pf g s m) :
    gen.exitByte m = BitVec.ofNat 8 GuestExitType.IGNORE.code := by
  cases run with
  | start h mem entry hm hcode => exact hm
  | step prev next ptr reach done exitType h covers stays sys code stable =>
      exact Function.update_self ..

/-- The code is that of the memory, and what is held is translated from it. -/
theorem current (run : GuestRun gm gen ext pf g s m) :
    s.cache.Current gen gm.base ∧ ∀ a, s.cache.codeAt gm.base a = pf.decode (gen.guestMem m.mem) a := by
  induction run with
  | start h mem entry hm hcode =>
      obtain ⟨hc, rfl⟩ := VexExec.limitCache_current gm.base h
      exact ⟨hc, hcode⟩
  | step prev next ptr reach done exitType h covers stays sys code stable ih =>
      have hs := prev.execRun.reachable
      obtain ⟨vsb, u, hn, hr⟩ := VexExec.doNextSB_spec h
      obtain ⟨hcu, hcodeu, -⟩ := VexExec.nextSB_current hs ih.1 hn
      obtain ⟨hv, hrun, -⟩ := VexExec.runSB_cache (VexExec.nextSB_reachable hs hn).ok hr
      have hat : ∀ a, CacheState.codeAt _ gm.base a = _ := fun a => (congrFun₂ hrun _ _).trans (code a)
      refine ⟨fun sb hsb => ?_, hat⟩
      obtain ⟨irsb, hirsb, hx⟩ := hcu sb (hv ▸ hsb)
      refine ⟨irsb, ?_, hx⟩
      rw [hat, stable sb hsb, ← ih.2, ← codeAt_congr hcodeu]
      exact hirsb

end GuestRun

/-! ## Every dispatch is a block of the guest -/

section Step

variable {a : GuestPtr} {m m' m₁ : Machine} {r : Result} {F : Func} {sb : IRSB}

theorem code_injective {t t' : GuestExitType} (h : BitVec.ofNat 8 t.code = BitVec.ofNat 8 t'.code) :
    t = t' := by
  revert h
  cases t <;> cases t' <;> decide

/-- The code of a block that is covered returns as the block does. -/
theorem Covers.leaves (hI : Implements gen ext pf.callees) (h64 : gen.is32Bit = false)
    (hoff : gen.exitTypeOffset < 2 ^ 31) (hc : Covers gen pf (gen.guest m a) sb)
    (he : (VexSB.ofIRSB gen a sb).emit gen = .ok F) :
    ∃ r, sb.runWith pf.callees m.ctx (gen.guestMem m.mem) = .ok r ∧
      F.Leaves ext (Func.start m) (gen.Ends r) := by
  obtain ⟨r, hr⟩ := (IRSB.fine_runWith hI.signed hc.typed m.ctx (gen.guestMem m.mem)).exists_ok hc.shifts
  obtain ⟨σ, hm⟩ := VexSB.exists_of_emit he
  exact ⟨r, hr, block_leavesWith hI h64 hoff hc.typed hm hc.copied hr⟩

/-- The exit type tells the jump kind. -/
theorem exitByte_ends (hctx : m'.ctx = gen.marked r.jk r.guest)
    (h0 : r.guest (BitVec.ofNat 64 gen.exitTypeOffset) = BitVec.ofNat 8 GuestExitType.IGNORE.code) :
    gen.exitByte m' = BitVec.ofNat 8 ((exitMark r.jk).getD .IGNORE).code := by
  rw [GenLLVM.exitByte, hctx, GenLLVM.marked]
  cases exitMark r.jk with
  | none => exact h0
  | some t' => exact Function.update_self ..

theorem isSysCall_iff (jk : IRJumpKind) :
    ((exitMark jk).getD .IGNORE).IsSysCall ↔ jk.isSysCall = true := by
  cases jk <;> simp [exitMark, IRJumpKind.isSysCall, GuestExitType.IsSysCall]

/-- Without the exit type, the registers are those the block left. -/
theorem resetExitType_ctx (hctx : m'.ctx = gen.marked r.jk r.guest)
    (h0 : r.guest (BitVec.ofNat 64 gen.exitTypeOffset) = BitVec.ofNat 8 GuestExitType.IGNORE.code) :
    (gen.resetExitType m').ctx = r.guest := by
  rw [GenLLVM.resetExitType, hctx, GenLLVM.marked, ← h0]
  cases exitMark r.jk with
  | none => exact Function.update_eq_self ..
  | some t =>
      change Function.update (Function.update r.guest _ _) _ _ = _
      rw [Function.update_idem, Function.update_eq_self]

end Step

namespace GuestRun

variable {g : GuestState} {s : ExecState M} {m : Machine}

/-- What a dispatch of a state of a run runs, and what it comes to. -/
theorem dispatch (hI : Implements gen ext pf.callees) (h64 : gen.is32Bit = false)
    (hoff : gen.exitTypeOffset < 2 ^ 31) (run : GuestRun gm gen ext pf g s m) {vsb : VSB}
    {u : ExecState M} {p : FPtr} {c : CacheState} (hn : VexExec.nextSB gm gen s = .ok (some vsb, u))
    (hp : VexJITCache.getCachedFPtr vsb.guestAddr u.cache = .ok (some p, c))
    (hc : ∀ sb, pf.decode (gen.guestMem m.mem) s.nextAddr = some sb →
      Covers gen pf (gen.guest m s.nextAddr) sb) :
    ∃ r, pf.Runs (gen.guest m s.nextAddr) r ∧
      r.guest (BitVec.ofNat 64 gen.exitTypeOffset) = BitVec.ofNat 8 GuestExitType.IGNORE.code ∧
        p.fn.body.Leaves ext (Func.start m) (gen.Ends r) := by
  obtain ⟨hcur, hcode⟩ := run.current
  obtain ⟨sb, hsb, he⟩ := VexExec.dispatched_block run.execRun.reachable hcur hn hp
  rw [hcode] at hsb
  obtain ⟨r, hr, hl⟩ := (hc sb hsb).leaves hI h64 hoff he
  exact ⟨r, ⟨sb, hsb, hr⟩, ((hc sb hsb).spares r hr).trans run.exitByte_eq, hl⟩

/-- The states of the dispatcher are states of the guest. -/
theorem steps (hI : Implements gen ext pf.callees) (h64 : gen.is32Bit = false)
    (hoff : gen.exitTypeOffset < 2 ^ 31) (run : GuestRun gm gen ext pf g s m) :
    pf.Steps g (gen.guest m s.nextAddr) := by
  induction run with
  | start h mem entry hm hcode => exact .refl
  | @step g s t u m m' m₁ vsb p c fr run prev next ptr reach done exitType h covers stays sys code
      stable ih =>
      refine ih.tail ?_
      obtain ⟨r, hr, h0, fr', v, hreach, hdone, hends⟩ := prev.dispatch hI h64 hoff next ptr covers
      cases reach.done_unique done hreach hdone
      cases done.symm.trans hdone
      obtain ⟨vsb', u', hn, hrun⟩ := VexExec.doNextSB_spec h
      have hnext := (VexExec.runSB_cache (VexExec.nextSB_reachable prev.execRun.reachable hn).ok hrun).2.2
      have hip : run.newIp = r.next := by
        injection hends.next with hv
        exact BitVec.eq_of_toNat_eq hv
      have ht := code_injective (exitType.symm.trans (exitByte_ends hends.ctx h0))
      have hiff := isSysCall_iff r.jk
      rw [← ht] at hiff
      have hregs := resetExitType_ctx hends.ctx h0
      rw [hnext, hip]
      by_cases hsys : run.exitType.IsSysCall
      · refine .sysCall hr (hiff.1 hsys) ?_
        rw [← hregs, ← hends.mem]
        exact sys hsys
      · obtain rfl := stays hsys
        have hg : gen.guest (gen.resetExitType fr.m) r.next = ⟨r.guest, r.mem, r.next⟩ := by
          rw [← hregs, ← hends.mem]
          rfl
        rw [hg]
        exact .block hr (Bool.eq_false_iff.2 fun h => hsys (hiff.2 h))

end GuestRun

/-! ## Every block of the guest is a dispatch -/

/-- A block that runs without a fault; a system call at its end leaves the mappings alone. -/
def BlockRun.quiet (code : HostPtr → GuestPtr → Option IRSB) (newIp : GuestPtr) (t : GuestExitType) :
    BlockRun M :=
  ⟨[], code, newIp, t, id, false⟩

theorem handleExit_quiet {u : ExecState M} (hu : u.exited = false)
    (code : HostPtr → GuestPtr → Option IRSB) (ip : GuestPtr) {t : GuestExitType} (ht : t.Handled M) :
    VexExec.handleExit (.quiet code ip t) u = .ok ((), u) := by
  obtain ⟨h₁, h₂, h₃⟩ := (handled_iff u t).1 ht
  have hsys : VexExec.doSysCall (.quiet code ip t) u = .ok ((), u) := by
    obtain ⟨cache, mem, nextAddr, toFlush, exited, reported⟩ := u
    cases hu
    rfl
  unfold VexExec.handleExit
  cases t <;> first | rfl | exact hsys | contradiction

/-- Such a block is dispatched to its end, if there is a case for its exit type. -/
theorem doNextSB_quiet {s u : ExecState M} {vsb : VSB} {p : FPtr} {c : CacheState}
    (hn : VexExec.nextSB gm gen s = .ok (some vsb, u))
    (hp : VexJITCache.getCachedFPtr vsb.guestAddr u.cache = .ok (some p, c)) (hu : u.exited = false)
    (code : HostPtr → GuestPtr → Option IRSB) (ip : GuestPtr) {t : GuestExitType}
    (ht : t.Handled M) : ∃ v, VexExec.doNextSB gm gen (.quiet code ip t) s = .ok (true, v) := by
  have hptr : VexExec.onCache (VexJITCache.getCachedFPtr vsb.guestAddr) u =
      .ok (some p, { u with cache := c }) := by
    unfold VexExec.onCache
    rw [hp]
  have hvex : VexExec.doVexSB gm (.quiet code ip t) vsb u =
      .ok (ip, { u with cache := { c with code := code } }) := by
    unfold VexExec.doVexSB
    rw [bind_ok hptr]
    rfl
  have hexit : VexExec.handleExit (.quiet code ip t) { u with cache := { c with code := code } } =
      .ok ((), { u with cache := { c with code := code } }) :=
    handleExit_quiet (u := { u with cache := { c with code := code } }) hu code ip ht
  refine ⟨{ u with cache := { c with code := code }, nextAddr := ip }, ?_⟩
  unfold VexExec.doNextSB
  rw [bind_ok hn]
  change VexExec.runSB gm _ vsb u = _
  unfold VexExec.runSB
  rw [bind_ok hvex, bind_ok hexit, get_bind, hu]
  rfl

/-- A run that goes on has not exited. -/
theorem ExecRun.exited_eq {C : ExecState M → BlockRun M → Prop} {s : ExecState M}
    (run : ExecRun gm gen C s) : s.exited = false := by
  cases run with
  | start h mem entry => rfl
  | step prev hc h =>
      obtain ⟨vsb, u, -, hr⟩ := VexExec.doNextSB_spec h
      obtain ⟨ip, v, -, k₁⟩ := bind_eq_ok hr
      obtain ⟨_, w, -, k₂⟩ := bind_eq_ok k₁
      rw [get_bind] at k₂
      split at k₂
      · cases k₂
      · next hw =>
          cases k₂
          exact Bool.eq_false_iff.2 hw

theorem nextSB_exited {s u : ExecState M} {vsb : VSB} (h : VexExec.nextSB gm gen s = .ok (some vsb, u)) :
    u.exited = s.exited := by
  obtain ⟨v, c, c', p, mem, hf, -, -, rfl, -⟩ := VexExec.nextSB_spec h
  rcases VexExec.flushPending_spec hf with ⟨-, rfl⟩ | ⟨-, c, -, rfl⟩
  · rfl
  · rfl

/-- Some machine has the memory. -/
theorem exists_guestMem (gen : GenLLVM) (mem : BitVec 64 → LLVM.Byte) : ∃ host, gen.guestMem host = mem := by
  refine ⟨fun q => mem (q - if gen.relocates then gen.base else 0), ?_⟩
  funext a
  rw [GenLLVM.guestMem, GenLLVM.hostAt_toNat, BitVec.add_sub_cancel]

/-- The step of the guest that the next dispatch takes. -/
theorem GuestRun.follow {g g' : GuestState} {s u : ExecState M} {m : Machine} {vsb : VSB} {p : FPtr}
    {c : CacheState} (hI : Implements gen ext pf.callees) (h64 : gen.is32Bit = false)
    (hoff : gen.exitTypeOffset < 2 ^ 31)
    (hsys : ∀ x y, pf.sys x y → y.1 (BitVec.ofNat 64 gen.exitTypeOffset) =
      x.1 (BitVec.ofNat 64 gen.exitTypeOffset))
    (run : GuestRun gm gen ext pf g s m) (hn : VexExec.nextSB gm gen s = .ok (some vsb, u))
    (hp : VexJITCache.getCachedFPtr vsb.guestAddr u.cache = .ok (some p, c))
    (hc : ∀ sb, pf.decode (gen.guestMem m.mem) s.nextAddr = some sb →
      Covers gen pf (gen.guest m s.nextAddr) sb)
    (hk : ∀ r, pf.Runs (gen.guest m s.nextAddr) r → ((exitMark r.jk).getD .IGNORE).Handled M)
    (hstep : pf.Step (gen.guest m s.nextAddr) g')
    (hstable : ∀ sb, u.cache.view.Contains sb →
      pf.decode g'.mem sb.guestAddr = pf.decode (gen.guestMem m.mem) sb.guestAddr) :
    ∃ r t m', pf.Runs (gen.guest m s.nextAddr) r ∧
      VexExec.doNextSB gm gen (.quiet (fun _ a => pf.decode g'.mem a) r.next
        ((exitMark r.jk).getD .IGNORE)) s = .ok (true, t) ∧
        GuestRun gm gen ext pf g t m' ∧ gen.guest m' t.nextAddr = g' := by
  obtain ⟨r, hr, h0, fr, v, hreach, hdone, hends⟩ := run.dispatch hI h64 hoff hn hp hc
  have hs := run.execRun.reachable
  have hu := (nextSB_exited hn).trans run.execRun.exited_eq
  have hbyte := exitByte_ends hends.ctx h0
  have hregs := resetExitType_ctx hends.ctx h0
  obtain ⟨t, ht⟩ := doNextSB_quiet hn hp hu (fun _ a => pf.decode g'.mem a) r.next (hk r hr)
  obtain ⟨vsb', u', hn', hrun⟩ := VexExec.doNextSB_spec ht
  cases hn.symm.trans hn'
  obtain ⟨hview, -, hnext⟩ := VexExec.runSB_cache (VexExec.nextSB_reachable hs hn).ok hrun
  cases hends.next
  -- whatever machine has the guest after the step
  have go : ∀ m₁ : Machine, gen.guestMem m₁.mem = g'.mem →
      (¬ ((exitMark r.jk).getD .IGNORE).IsSysCall → m₁ = fr.m) →
        (((exitMark r.jk).getD .IGNORE).IsSysCall → pf.sys ((gen.resetExitType fr.m).ctx,
          gen.guestMem fr.m.mem) ((gen.resetExitType m₁).ctx, gen.guestMem m₁.mem)) →
          GuestRun gm gen ext pf g t (gen.resetExitType m₁) := fun m₁ hmem hstays hsys =>
    run.step hn hp hreach hdone hbyte ht hc hstays hsys (fun a => by rw [hmem]; rfl) fun sb hsb => by
      rw [hmem]
      exact hstable sb (hview ▸ hsb)
  cases hstep with
  | block hr' hj =>
      obtain rfl := hr.unique hr'
      have hno : ¬ ((exitMark r.jk).getD .IGNORE).IsSysCall := fun h =>
        Bool.eq_false_iff.1 hj ((isSysCall_iff r.jk).1 h)
      refine ⟨r, t, gen.resetExitType fr.m, hr, ht, go fr.m hends.mem (fun _ => rfl) fun h => absurd h hno, ?_⟩
      rw [hnext, ← hregs, ← hends.mem]
      rfl
  | @sysCall r' regs mem hr' hj hsc =>
      obtain rfl := hr.unique hr'
      obtain ⟨host, rfl⟩ := exists_guestMem gen mem
      have hreset : (gen.resetExitType { fr.m with ctx := regs, mem := host }).ctx = regs := by
        have h1 : regs (BitVec.ofNat 64 gen.exitTypeOffset) = _ := (hsys _ _ hsc).trans h0
        rw [GenLLVM.resetExitType, ← h1]
        exact Function.update_eq_self ..
      refine ⟨r, t, _, hr, ht, go { fr.m with ctx := regs, mem := host } rfl
        (fun h => absurd ((isSysCall_iff r.jk).2 hj) h) fun _ => ?_, ?_⟩
      · rw [hreset, hregs, hends.mem]
        exact hsc
      · rw [hnext, GenLLVM.guest, hreset]
        rfl

/-! ## Both directions -/

/-- In any run of the dispatcher over blocks that are covered, in which no translated code
is changed: the guest has come, by itself, from where the run started to what is on the
machine now. What the next dispatch finds compiled returns, where the block at the next
address is covered, with the next address, the registers and the memory that the block
leaves. -/
theorem dispatcher_refines (gm : GuestMem M) (gen : GenLLVM) (ext : Extern) (pf : Platform)
    (h64 : gen.is32Bit = false) (hoff : gen.exitTypeOffset < 2 ^ 31) (hI : Implements gen ext pf.callees)
    (g : GuestState) (s : ExecState M) (m : Machine) (run : GuestRun gm gen ext pf g s m) :
    pf.Steps g (gen.guest m s.nextAddr) ∧
      ∀ vsb u p c, VexExec.nextSB gm gen s = .ok (some vsb, u) →
        VexJITCache.getCachedFPtr vsb.guestAddr u.cache = .ok (some p, c) →
          (∀ sb, pf.decode (gen.guestMem m.mem) s.nextAddr = some sb →
            Covers gen pf (gen.guest m s.nextAddr) sb) →
            ∃ r n m', pf.Runs (gen.guest m s.nextAddr) r ∧
              p.fn.body.run ext n (Func.start m) = some (.bits r.next.toNat, m') ∧
                (gen.resetExitType m').ctx = r.guest ∧ gen.guestMem m'.mem = r.mem := by
  refine ⟨run.steps hI h64 hoff, fun vsb u p c hn hp hc => ?_⟩
  obtain ⟨r, hr, h0, fr, v, hreach, hdone, hends⟩ := run.dispatch hI h64 hoff hn hp hc
  obtain ⟨n, hrun⟩ := hreach.run_eq hdone
  cases hends.next
  exact ⟨r, n, fr.m, hr, hrun, resetExitType_ctx hends.ctx h0, hends.mem⟩

/-! ## A guest that counts -/

def VexExec.dispatchedPtr (gm : GuestMem M) (gen : GenLLVM) (s : ExecState M) : Option FPtr :=
  match VexExec.nextSB gm gen s with
  | .ok (some vsb, u) =>
      match VexJITCache.getCachedFPtr vsb.guestAddr u.cache with
      | .ok (p, _) => p
      | .error _ => none
  | _ => none

theorem VexExec.exists_of_dispatchedPtr {s : ExecState M} (h : (dispatchedPtr gm gen s).isSome = true) :
    ∃ vsb u p c, nextSB gm gen s = .ok (some vsb, u) ∧
      VexJITCache.getCachedFPtr vsb.guestAddr u.cache = .ok (some p, c) := by
  unfold dispatchedPtr at h
  split at h
  · next vsb u hn =>
      split at h
      · next p c hp =>
          obtain ⟨p, rfl⟩ := Option.isSome_iff_exists.1 h
          exact ⟨vsb, u, p, c, hn, hp⟩
      · cases h
  · cases h

def advancePlatform : Platform := ⟨fun _ _ => some advanceBlock, advanceCounter, fun _ _ => False⟩

def advanceExec : ExecState (List Mapping) :=
  .start (.init (fun _ _ => some advanceBlock) fun _ => 0) [] 0x1000

theorem advanceExec_run : GuestRun (listMem 0x10000) advanceGen advanceExtern advancePlatform
    (advanceGen.guest sevenMachine 0x1000) advanceExec sevenMachine :=
  .start (show VexExec.limitCache none _ = _ from rfl) [] 0x1000 rfl fun _ => rfl

theorem eq_ok_of_toOption {ε α : Type} {x : Except ε α} {a : α} (h : x.toOption = some a) : x = .ok a := by
  cases x with
  | error e => cases h
  | ok b =>
      cases h
      rfl

/-- A block that is run twice counts twice. -/
theorem advanceBlock_runs : ∃ r r', advancePlatform.Runs (advanceGen.guest sevenMachine 0x1000) r ∧
    advancePlatform.Runs ⟨r.guest, r.mem, r.next⟩ r' ∧
      (r.next = 0x1004 ∧ r.jk = .Call ∧ r.guest 16 = 12 ∧ r.guest 904 = 0 ∧ r.mem 0x2000 = 7) ∧
        r'.next = 0x1004 ∧ r'.guest 16 = 17 ∧ r'.guest 904 = 0 ∧ r'.mem 0x2000 = 7 := by
  have hend : ((advanceBlock.runWith advanceCounter sevenMachine.ctx
      (advanceGen.guestMem sevenMachine.mem)).toOption.bind fun r =>
        (advanceBlock.runWith advanceCounter r.guest r.mem).toOption.map fun r' =>
          ((r.next, r.jk, r.guest 16, r.guest 904, r.mem 0x2000),
            (r'.next, r'.guest 16, r'.guest 904, r'.mem 0x2000))) =
        some ((0x1004, .Call, 12, 0, 7), (0x1004, 17, 0, 7)) := by
    decide +kernel
  obtain ⟨r, hr, h⟩ := Option.bind_eq_some_iff.1 hend
  obtain ⟨r', hr', h⟩ := Option.map_eq_some_iff.1 h
  simp only [Prod.mk.injEq] at h
  exact ⟨r, r', ⟨advanceBlock, rfl, eq_ok_of_toOption hr⟩, ⟨advanceBlock, rfl, eq_ok_of_toOption hr'⟩, h⟩

theorem covers_advance {g : GuestState} {r : Result} {sb : IRSB} (hr : advancePlatform.Runs g r)
    (h904 : r.guest 904 = g.regs 904) (h : advancePlatform.decode g.mem g.pc = some sb) :
    Covers advanceGen advancePlatform g sb := by
  cases h
  obtain ⟨sb, hsb, hr⟩ := hr
  cases hsb
  refine ⟨by decide +kernel, throughoutWith_of_forall fun s hf => (by cases hf), fun h => ?_, fun r' hr' => ?_⟩
  · cases hr.symm.trans h
  · cases hr.symm.trans hr'
    exact h904

theorem advanceExec_follow : ∃ r t m, advancePlatform.Runs (advanceGen.guest sevenMachine 0x1000) r ∧
    VexExec.doNextSB (listMem 0x10000) advanceGen (.quiet (fun _ _ => some advanceBlock) 0x1004 .CALL)
      advanceExec = .ok (true, t) ∧
    GuestRun (listMem 0x10000) advanceGen advanceExtern advancePlatform
      (advanceGen.guest sevenMachine 0x1000) t m ∧
    advanceGen.guest m t.nextAddr = ⟨r.guest, r.mem, r.next⟩ := by
  obtain ⟨vsb, u, p, c, hn, hp⟩ := VexExec.exists_of_dispatchedPtr
    (show (VexExec.dispatchedPtr (listMem 0x10000) advanceGen advanceExec).isSome = true by decide +kernel)
  obtain ⟨r, -, hr, -, ⟨hnext, hjk, -, h904, -⟩, -⟩ := advanceBlock_runs
  obtain ⟨r', t, m, hr', ht, hrun, hg⟩ := advanceExec_run.follow implements_advance rfl (by decide)
    (fun _ _ h => False.elim h) hn hp (fun sb => covers_advance hr h904) (fun r' hr' => by
      cases hr.unique hr'
      rw [hjk]
      exact (handled_iff advanceExec _).2 (by decide))
    (.block hr (by rw [hjk]; rfl)) fun _ _ => rfl
  cases hr.unique hr'
  rw [hnext, hjk] at ht
  exact ⟨r, t, m, hr, ht, hrun, hg⟩

/-- The first dispatch counts, and so does what the second one finds compiled. -/
theorem dispatcher_refines_advance : ∃ t m,
    advancePlatform.Steps (advanceGen.guest sevenMachine 0x1000) (advanceGen.guest m t.nextAddr) ∧
      m.ctx 16 = 12 ∧ ∃ vsb u p c n m',
        VexExec.nextSB (listMem 0x10000) advanceGen t = .ok (some vsb, u) ∧
          VexJITCache.getCachedFPtr vsb.guestAddr u.cache = .ok (some p, c) ∧
            p.fn.body.run advanceExtern n (Func.start m) = some (.bits 0x1004, m') ∧
              (advanceGen.resetExitType m').ctx 16 = 17 ∧ advanceGen.guestMem m'.mem 0x2000 = 7 := by
  obtain ⟨r, t, m, hr, ht, hrun, hg⟩ := advanceExec_follow
  obtain ⟨r₁, r₂, hr₁, hr₂, ⟨-, -, h16, h904, -⟩, hnext₂, h16₂, h904₂, h2000₂⟩ := advanceBlock_runs
  cases hr.unique hr₁
  obtain ⟨hsteps, hdisp⟩ := dispatcher_refines (listMem 0x10000) advanceGen advanceExtern
    advancePlatform rfl (by decide) implements_advance _ t m hrun
  have hptr : (VexExec.dispatchedPtr (listMem 0x10000) advanceGen t).isSome = true := by
    have h : ((VexExec.doNextSB (listMem 0x10000) advanceGen
        (.quiet (fun _ _ => some advanceBlock) 0x1004 .CALL) advanceExec).toOption.all fun t =>
          (VexExec.dispatchedPtr (listMem 0x10000) advanceGen t.2).isSome) = true := by
      decide +kernel
    rwa [ht] at h
  obtain ⟨vsb, u, p, c, hn, hp⟩ := VexExec.exists_of_dispatchedPtr hptr
  rw [← hg] at hr₂
  obtain ⟨r', n, m', hr', hret, hctx, hmem⟩ := hdisp vsb u p c hn hp fun sb =>
    covers_advance hr₂ (by rw [hg]; exact h904₂.trans h904.symm)
  cases hr₂.unique hr'
  rw [hnext₂] at hret
  have hm : m.ctx 16 = 12 := (congrFun (congrArg GuestState.regs hg) 16).trans h16
  exact ⟨t, m, hsteps, hm, vsb, u, p, c, n, m', hn, hp, hret, hctx ▸ h16₂, hmem ▸ h2000₂⟩

/-- From a state of a run: what the guest can do next, the dispatcher can, where it finds
the block compiled, the block is covered and ends with a jump that there is a case for,
and the guest changes no translated code. System calls leave the byte of the exit type
alone. -/
theorem dispatcher_follows (gm : GuestMem M) (gen : GenLLVM) (ext : Extern) (pf : Platform)
    (h64 : gen.is32Bit = false) (hoff : gen.exitTypeOffset < 2 ^ 31) (hI : Implements gen ext pf.callees)
    (hsys : ∀ x y, pf.sys x y → y.1 (BitVec.ofNat 64 gen.exitTypeOffset) =
      x.1 (BitVec.ofNat 64 gen.exitTypeOffset))
    (g : GuestState) (s u : ExecState M) (m : Machine) (run : GuestRun gm gen ext pf g s m) (vsb : VSB)
    (p : FPtr) (c : CacheState) (hn : VexExec.nextSB gm gen s = .ok (some vsb, u))
    (hp : VexJITCache.getCachedFPtr vsb.guestAddr u.cache = .ok (some p, c))
    (hc : ∀ sb, pf.decode (gen.guestMem m.mem) s.nextAddr = some sb →
      Covers gen pf (gen.guest m s.nextAddr) sb)
    (hk : ∀ r, pf.Runs (gen.guest m s.nextAddr) r → ((exitMark r.jk).getD .IGNORE).Handled M)
    (g' : GuestState) (hstep : pf.Step (gen.guest m s.nextAddr) g')
    (hstable : ∀ sb, u.cache.view.Contains sb →
      pf.decode g'.mem sb.guestAddr = pf.decode (gen.guestMem m.mem) sb.guestAddr) :
    ∃ t m', GuestRun gm gen ext pf g t m' ∧ gen.guest m' t.nextAddr = g' := by
  obtain ⟨r, t, m', -, -, hrun, hg⟩ := run.follow hI h64 hoff hsys hn hp hc hk hstep hstable
  exact ⟨t, m', hrun, hg⟩

theorem dispatcher_follows_advance : ∃ t m',
    GuestRun (listMem 0x10000) advanceGen advanceExtern advancePlatform
      (advanceGen.guest sevenMachine 0x1000) t m' ∧
        t.nextAddr = 0x1004 ∧ m'.ctx 16 = 12 ∧ advanceGen.guestMem m'.mem 0x2000 = 7 := by
  obtain ⟨vsb, u, p, c, hn, hp⟩ := VexExec.exists_of_dispatchedPtr
    (show (VexExec.dispatchedPtr (listMem 0x10000) advanceGen advanceExec).isSome = true by decide +kernel)
  obtain ⟨r, -, hr, -, ⟨hnext, hjk, h16, h904, h2000⟩, -⟩ := advanceBlock_runs
  obtain ⟨t, m', hrun, hg⟩ := dispatcher_follows (listMem 0x10000) advanceGen advanceExtern
    advancePlatform rfl (by decide) implements_advance (fun _ _ h => h.elim) _ advanceExec u sevenMachine
    advanceExec_run vsb p c hn hp (fun sb => covers_advance hr h904) (fun r' hr' => by
      cases hr.unique hr'
      rw [hjk]
      exact (handled_iff advanceExec _).2 (by decide)) ⟨r.guest, r.mem, r.next⟩
    (.block hr (by rw [hjk]; rfl)) fun _ _ => rfl
  refine ⟨t, m', hrun, (congrArg GuestState.pc hg).trans hnext, ?_, ?_⟩
  · exact (congrFun (congrArg GuestState.regs hg) 16).trans h16
  · exact (congrFun (congrArg GuestState.mem hg) 0x2000).trans h2000

end VexLLVM
