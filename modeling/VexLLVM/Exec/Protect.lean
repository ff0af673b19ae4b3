import VexLLVM.Cache.Visits
import VexLLVM.Exec.Tamper

/-!
# Write protection of code

The mapping of a dispatched block loses its write permission, and a write fault gives
it back. The fault handler gives it back only where it was requested. A translation is
write-protected when its block runs as long as the prefetch stays away from writable
mappings, the flush at the head of the dispatch reaches what was tampered with, and
system calls leave the code alone.
-/

namespace VexLLVM

open StateExcept VexJITCache

variable {M : Type} {gm : GuestMem M} {gen : GenLLVM} {s t : ExecState M}

/-- The handler ends the process, or the mapping is writable afterwards. -/
def ExecState.FaultProgress (gm : GuestMem M) (s : ExecState M) (addr : GuestPtr) (m : Mapping) :
    Prop :=
  (∃ e, VexExec.signalHandler gm addr s = .error e) ∨
    ∃ t, VexExec.signalHandler gm addr s = .ok ((), t) ∧
      ∀ b, m.Contains b → ∃ m', gm.lookupMapping t.mem b = some m' ∧ m'.offset = m.offset ∧
        m'.length = m.length ∧ m'.curProt.write = true

theorem signalHandler_eq (addr : GuestPtr) {m : Mapping}
    (hm : gm.lookupMapping s.mem addr = some m) :
    VexExec.signalHandler gm addr s =
      if m.reqProt.exec && !m.curProt.write then
        .ok ((), { s with
          mem := gm.recordMapping s.mem (m.withProt { m.reqProt with exec := false })
          toFlush := (m.offset, m.endPtr)
          reported := m :: s.reported })
      else .error (.assertion "the mapping was a normal one") := by
  unfold VexExec.signalHandler
  rw [get_bind, hm]
  dsimp only
  split <;> rfl

/-- Fault handling. -/
theorem signalHandler_progress_iff (gm : GuestMem M) (s : ExecState M) (addr : GuestPtr)
    (m : Mapping) (hm : gm.lookupMapping s.mem addr = some m) :
    s.FaultProgress gm addr m ↔
      (m.reqProt.exec = true → m.curProt.write = false → m.reqProt.write = true) := by
  unfold ExecState.FaultProgress
  rw [signalHandler_eq addr hm]
  by_cases hacc : (m.reqProt.exec && !m.curProt.write) = true
  · rw [if_pos hacc]
    rw [Bool.and_eq_true, Bool.not_eq_true'] at hacc
    constructor
    · rintro (⟨e, he⟩ | ⟨t, ht, hw⟩) - -
      · cases he
      · cases ht
        obtain ⟨m', hm', -, -, hwr⟩ := hw addr (gm.lookup_contains _ _ _ hm)
        rw [gm.lookup_record _ _ _ _ hm _ (gm.lookup_contains _ _ _ hm)] at hm'
        cases hm'
        exact hwr
    · intro h
      refine .inr ⟨_, rfl, fun b hb => ?_⟩
      exact ⟨_, gm.lookup_record _ _ _ _ hm b hb, rfl, rfl, h hacc.1 hacc.2⟩
  · rw [if_neg hacc]
    refine ⟨fun _ he hw => absurd ?_ hacc, fun _ => .inl ⟨_, rfl⟩⟩
    simp [he, hw]

theorem signalHandler_progress_rwx : ExecState.FaultProgress (listMem 0)
    (.start (.init twoBlocks fun _ => 0) [(rwxMapping 0x1000 0x1000).withProt ⟨true, false, true⟩]
      0x1000) 0x1800 ((rwxMapping 0x1000 0x1000).withProt ⟨true, false, true⟩) :=
  (signalHandler_progress_iff (listMem 0) _ 0x1800 _ (by decide)).2 fun _ _ => rfl

def rxMapping (offset : GuestPtr) (length : BitVec 64) : Mapping :=
  ⟨offset, length, ⟨true, false, true⟩, ⟨true, false, true⟩⟩

/-- A write to code that was never writable faults for ever. -/
theorem signalHandler_no_progress : ¬∀ (M : Type) (gm : GuestMem M) (s : ExecState M)
    (addr : GuestPtr) (m : Mapping), gm.lookupMapping s.mem addr = some m →
      s.FaultProgress gm addr m := by
  intro h
  have hm : (listMem 0).lookupMapping [rxMapping 0x1000 0x1000] 0x1800 =
      some (rxMapping 0x1000 0x1000) := by decide
  have hp := h _ (listMem 0) (.start (.init twoBlocks fun _ => 0) [rxMapping 0x1000 0x1000] 0x1000)
    0x1800 _ hm
  unfold ExecState.FaultProgress at hp
  rw [signalHandler_eq 0x1800 hm] at hp
  rcases hp with ⟨e, he⟩ | ⟨t, ht, hw⟩
  · cases he
  · cases ht
    obtain ⟨m', hm', -, -, hwr⟩ := hw 0x1800 (by decide)
    have hl := (listMem 0).lookup_record _ _ _ ⟨true, false, false⟩ hm 0x1800 (by decide)
    cases hm'.symm.trans hl
    cases hwr

def CacheView.CachedAt (v : CacheView) (a : GuestPtr) : Prop :=
  v.vexsb a ≠ none ∨ v.func a ≠ none ∨ v.jit a ≠ none

/-- A mapping at the address, if there is one, is not writable. -/
def GuestMem.NotWritable (gm : GuestMem M) (mem : M) (a : GuestPtr) : Prop :=
  ∀ m, gm.lookupMapping mem a = some m → m.curProt.write = false

def ExecState.Protected (gm : GuestMem M) (s : ExecState M) : Prop :=
  ∀ x, s.cache.HasBlock x → gm.NotWritable s.mem x.guestAddr

/-- The table of mappings once the mapping of the dispatched block is protected. -/
def VexExec.dispatchedMem (gm : GuestMem M) (s : ExecState M) : M :=
  match gm.lookupMapping s.mem s.nextAddr with
  | none => s.mem
  | some m => VexExec.protectedMem gm s.mem m

def CacheState.Translates (gen : GenLLVM) (u : CacheState) (e : GuestPtr) : Prop :=
  u.cachedFunc e = none ∧ u.cachedVSB e = none ∧ ∃ sb, u.translate gen e e = .ok (some sb)

/-- A dispatch translates the exit `e` ahead of time. -/
def ExecState.Prefetches (gm : GuestMem M) (gen : GenLLVM) (s : ExecState M) (e : GuestPtr) : Prop :=
  ∃ u c vsb w, VexExec.flushPending s = .ok ((), u) ∧
    getVSB gen (VexExec.hostPtr gm u.nextAddr) u.nextAddr u.cache = .ok (some vsb, c) ∧
    AsksFPtr gen (VexExec.hostPtr gm u.nextAddr) u.nextAddr c e w ∧ w.Translates gen e

/-- What a dispatch must keep to: the flush at its head reaches the translations that
start in a reported mapping, and of the constant exits of the block, and of those of
its exits, it translates none ahead of time that a writable mapping has. -/
structure ExecState.DispatchSafe (gm : GuestMem M) (gen : GenLLVM) (s : ExecState M) : Prop where
  flush : s.Reaches fun x => ∃ m ∈ s.reported, m.Contains x.guestAddr
  exits : ∀ e ∈ s.cache.near gen (VexExec.hostPtr gm s.nextAddr) s.nextAddr,
    s.Prefetches gm gen e → gm.NotWritable (VexExec.dispatchedMem gm s) e

/-- What a system call must keep to: it makes no translated memory writable. -/
def SysSafe (gm : GuestMem M) (gen : GenLLVM) (s : ExecState M) (run : BlockRun M) : Prop :=
  run.exitType = .INT ∨ run.exitType = .SYSCALL → ∀ vsb u v ip, VexExec.nextSB gm gen s = .ok (some vsb, u) →
    VexExec.doVexSB gm run vsb u = .ok (ip, v) →
    ∀ x, v.cache.HasBlock x → ¬gm.NotWritable (run.sysMem v.mem) x.guestAddr →
      ¬gm.NotWritable v.mem x.guestAddr

/-- Between dispatches: a translation in a writable mapping is in a reported one. -/
def ExecState.Pending (gm : GuestMem M) (s : ExecState M) : Prop :=
  ∀ x, s.cache.HasBlock x → ¬gm.NotWritable s.mem x.guestAddr →
    ∃ r ∈ s.reported, r.Contains x.guestAddr

/-- Every translation is at a cached address. -/
theorem CacheState.Reachable.hasBlock_iff {c : CacheState} (h : c.Reachable gen)
    {P : GuestPtr → Prop} :
    (∀ x, c.HasBlock x → P x.guestAddr) ↔ ∀ a, c.view.CachedAt a → P a := by
  have haddr := h.guestAddr
  constructor
  · intro hP a ha
    rcases ha with ha | ha | ha
    · obtain ⟨x, hx⟩ := Option.ne_none_iff_exists'.1 ha
      rw [← h.ok.cachedVSB] at hx
      rw [← (haddr a).1 x hx]
      exact hP x ⟨a, .inl hx⟩
    · obtain ⟨f, hf⟩ := Option.ne_none_iff_exists'.1 ha
      rw [← h.ok.cachedFunc] at hf
      rw [← (haddr a).2.1 f hf]
      exact hP _ ⟨a, .inr (.inl ⟨f, hf, rfl⟩)⟩
    · obtain ⟨p, hp⟩ := Option.ne_none_iff_exists'.1 ha
      rw [← h.ok.cachedFPtr] at hp
      rw [← (haddr a).2.2 p hp]
      exact hP _ ⟨a, .inr (.inr ⟨p, hp, rfl⟩)⟩
  · rintro hP x ⟨a, hx | ⟨f, hf, rfl⟩ | ⟨p, hp, rfl⟩⟩
    · rw [(haddr a).1 x hx]
      rw [h.ok.cachedVSB] at hx
      exact hP a (.inl (by simp [hx]))
    · rw [(haddr a).2.1 f hf]
      rw [h.ok.cachedFunc] at hf
      exact hP a (.inr (.inl (by simp [hf])))
    · rw [(haddr a).2.2 p hp]
      rw [h.ok.cachedFPtr] at hp
      exact hP a (.inr (.inr (by simp [hp])))

section Compile

variable {S : GuestPtr → Prop} {a e : GuestPtr} {host : HostPtr} {u v : CacheState}

/-- A lookup of a superblock caches nothing but its address. -/
theorem GotVSB.cachedAt {r : Option VSB} {w : CacheView} (h : GotVSB gen host e u r w)
    (hS : ∀ q, u.view.CachedAt q → S q)
    (he : u.view.vexsb e = none → (∃ sb, u.translate gen host e = .ok (some sb)) → S e) :
    ∀ q, w.CachedAt q → S q := by
  cases h with
  | found h => exact hS
  | untranslated h ht => exact hS
  | @allocated sb h ht ha =>
      intro q hq
      by_cases hqe : q = e
      · subst hqe
        exact he h ⟨sb, ht⟩
      · refine hS q ?_
        have := hq
        cases hv : u.victim? with
        | none => simpa [CacheView.CachedAt, CacheView.alloc, hv, hqe] using hq
        | some c =>
            rw [hv] at hq
            by_cases hqc : q = c
            · subst hqc
              simp [CacheView.CachedAt, CacheView.alloc, CacheView.evict, hqe] at hq
            · cases hf : u.view.func c <;>
                simpa [CacheView.CachedAt, CacheView.alloc, CacheView.evict, CacheView.release, hqe,
                  hqc, hf] using hq

theorem GotFunc.cachedAt {r : Option Function} {w : CacheView} (h : GotFunc gen host e u r w)
    (hv : u.view.Inv) (hS : ∀ q, u.view.CachedAt q → S q)
    (he : u.view.func e = none → u.view.vexsb e = none →
      (∃ sb, u.translate gen host e = .ok (some sb)) → S e) :
    ∀ q, w.CachedAt q → S q := by
  cases h with
  | found h => exact hS
  | untranslated h hg => exact GotVSB.cachedAt hg hS (he h)
  | @emitted w x body h hg hb =>
      have hw := GotVSB.cachedAt hg hS (he h)
      obtain ⟨rfl, hc⟩ := hg.cached hv
      intro q hq
      by_cases hqx : q = x.guestAddr
      · subst hqx
        exact hw _ (.inl (by rw [hc]; simp))
      · exact hw q (by simpa [CacheView.CachedAt, CacheView.emit, hqx] using hq)

/-- What `getFPtr` caches is safe, where the address and the exits it translates are. -/
theorem getFPtr_cachedAt {p : FPtr} (hu : u.OK) (hv : u.view.Inv)
    (hS : ∀ q, u.view.CachedAt q → S q) (ha : S a)
    (hexit : ∀ e w, AsksFPtr gen host a u e w → w.Translates gen e → S e)
    (h : getFPtr gen host a u = .ok (p, v)) : ∀ q, v.view.CachedAt q → S q := by
  have hJ : KeptByGet gen fun _ => True := ⟨fun _ _ _ _ => trivial, fun _ _ _ _ _ => trivial⟩
  obtain ⟨ok, ⟨-, he⟩ | ⟨-, r, w, hf, -, hc⟩⟩ :=
    getFPtr_spec (fetchInv_reached hJ) (fun q v hq => hq.jit) hu ⟨hv, trivial⟩ h
  · rw [he]
    exact hS
  · have hw : (w.OK ∧ w.view.Inv ∧ ∀ q, w.view.CachedAt q → S q) ∧ ∀ n ∈ r.2, S n.1 := by
      refine fetch_along (fun w => w.OK ∧ w.view.Inv ∧ ∀ q, w.view.CachedAt q → S q)
        (fun n => S n.1) hf (fun s₁ s₂ h₁ h₂ => ?_) fun e x q y hasks hx hg => ?_
      · obtain ⟨-, hv₁, ok₁⟩ := getCachedFPtr_spec hu a h₁
        obtain ⟨ok₂, g⟩ := getFunc_spec ok₁ h₂
        rw [← hv₁] at hv hS
        exact ⟨ok₂, g.inv hv, GotFunc.cachedAt g hv hS fun _ _ _ => ha⟩
      · obtain ⟨okx, hvx, hSx⟩ := hx
        obtain ⟨oky, g⟩ := getFunc_spec okx hg
        have hy : ∀ q, y.view.CachedAt q → S q := GotFunc.cachedAt g hvx hSx fun h₁ h₂ h₃ =>
          hexit e x hasks ⟨(okx.cachedFunc e).trans h₁, (okx.cachedVSB e).trans h₂, h₃⟩
        refine ⟨⟨oky, g.inv hvx, hy⟩, ?_⟩
        rintro f rfl
        exact hy e (.inr (.inl (by rw [g.cached hvx]; simp)))
    obtain ⟨⟨-, -, hSw⟩, hL⟩ := hw
    rintro q (hq | hq | hq)
    · exact hSw q (.inl (hc.vexsb ▸ hq))
    · exact hSw q (.inr (.inl (hc.func ▸ hq)))
    · obtain ⟨x, hx⟩ := Option.ne_none_iff_exists'.1 hq
      rcases hc.entered hx with ⟨n, hn, -⟩ | hx
      · rcases List.mem_cons.1 hn with hn | hn
        · cases hn
          exact ha
        · exact hL _ hn
      · exact hSw q (.inr (.inr (by simp [hx])))

end Compile

section Mem

variable {mem : M} {m : Mapping} {a b : GuestPtr}

theorem notWritable_record {p : Prot} (hm : gm.lookupMapping mem a = some m)
    (hp : p.write = false) (h : ¬m.Contains b → gm.NotWritable mem b) :
    gm.NotWritable (gm.recordMapping mem (m.withProt p)) b := by
  intro m' hm'
  by_cases hb : m.Contains b
  · rw [gm.lookup_record _ _ _ _ hm b hb] at hm'
    cases hm'
    exact hp
  · rw [gm.lookup_record_ne _ _ _ _ hm b hb] at hm'
    exact h hb m' hm'

/-- The dispatched block is protected. -/
theorem dispatchedMem_self (s : ExecState M) :
    gm.NotWritable (VexExec.dispatchedMem gm s) s.nextAddr := by
  unfold VexExec.dispatchedMem
  cases hm : gm.lookupMapping s.mem s.nextAddr with
  | none =>
      intro m hm'
      cases hm.symm.trans hm'
  | some m =>
      dsimp only
      unfold VexExec.protectedMem
      split
      · exact notWritable_record hm rfl fun hn => absurd (gm.lookup_contains _ _ _ hm) hn
      · next hw =>
          intro m' hm'
          cases hm.symm.trans hm'
          simpa using hw

/-- What is not writable stays so. -/
theorem dispatchedMem_notWritable {s : ExecState M} (h : gm.NotWritable s.mem b) :
    gm.NotWritable (VexExec.dispatchedMem gm s) b := by
  unfold VexExec.dispatchedMem
  cases hm : gm.lookupMapping s.mem s.nextAddr with
  | none => exact h
  | some m =>
      dsimp only
      unfold VexExec.protectedMem
      split
      · exact notWritable_record hm rfl fun _ => h
      · exact h

end Mem

/-- What is cached can be told from the view. -/
theorem hasBlock_congr {c d : CacheState} (hc : c.OK) (hd : d.OK) (hv : d.view = c.view) (x : VSB) :
    d.HasBlock x ↔ c.HasBlock x := by
  simp only [CacheState.HasBlock, hc.cachedVSB, hd.cachedVSB, hc.cachedFunc, hd.cachedFunc,
    hc.cachedFPtr, hd.cachedFPtr, hv]

/-- A flush only drops. -/
theorem flushPending_drops {r : Unit} (hs : s.cache.OK) (h : VexExec.flushPending s = .ok (r, t)) :
    (∀ a x, t.cache.view.vexsb a = some x → s.cache.view.vexsb a = some x) ∧
      (∀ a f, t.cache.view.func a = some f → s.cache.view.func a = some f) ∧
        ∀ a p, t.cache.view.jit a = some p → s.cache.view.jit a = some p := by
  rcases VexExec.flushPending_spec h with ⟨-, rfl⟩ | ⟨-, c, hc, rfl⟩
  · exact ⟨fun _ _ => id, fun _ _ => id, fun _ _ => id⟩
  · obtain ⟨-, ks, -, -, hv⟩ := flushRange_spec hs hc
    have drop : ∀ {α : Type} {P : Prop} [Decidable P] {o : Option α} {y : α},
        (if P then none else o) = some y → o = some y := by
      intro α P _ o y h
      split at h
      · cases h
      · exact h
    rw [hv]
    exact ⟨fun _ _ => drop, fun _ _ => drop, fun _ _ => drop⟩

theorem flushPending_hasBlock {r : Unit} {x : VSB} (hs : s.cache.Reachable gen)
    (h : VexExec.flushPending s = .ok (r, t)) (hx : t.cache.HasBlock x) : s.cache.HasBlock x := by
  obtain ⟨hvexsb, hfunc, hjit⟩ := flushPending_drops hs.ok h
  have ok := (VexExec.flushPending_reachable hs h).ok
  obtain ⟨a, hx | ⟨f, hf, rfl⟩ | ⟨p, hp, rfl⟩⟩ := hx
  · rw [ok.cachedVSB] at hx
    exact ⟨a, .inl ((hs.ok.cachedVSB a).trans (hvexsb a x hx))⟩
  · rw [ok.cachedFunc] at hf
    exact ⟨a, .inr (.inl ⟨f, (hs.ok.cachedFunc a).trans (hfunc a f hf), rfl⟩)⟩
  · rw [ok.cachedFPtr] at hp
    exact ⟨a, .inr (.inr ⟨p, (hs.ok.cachedFPtr a).trans (hjit a p hp), rfl⟩)⟩

theorem flushPending_drawn {r : Unit} (hs : s.cache.Reachable gen)
    (h : VexExec.flushPending s = .ok (r, t)) :
    Drawn gen s.cache t.cache ∧ t.mem = s.mem ∧ t.nextAddr = s.nextAddr := by
  obtain ⟨hvexsb, hfunc, -⟩ := flushPending_drops hs.ok h
  have ht := VexExec.flushPending_reachable hs h
  have hcode : t.cache.code = s.cache.code ∧ t.mem = s.mem ∧ t.nextAddr = s.nextAddr := by
    rcases VexExec.flushPending_spec h with ⟨-, rfl⟩ | ⟨-, c, hc, rfl⟩
    · exact ⟨rfl, rfl, rfl⟩
    · exact ⟨(keepsCode_flushRange _ _).code_eq _ _ _ hc, rfl, rfl⟩
  exact ⟨.of_le hs.ok ht.ok ht.inv hcode.1 hfunc hvexsb, hcode.2⟩

/-- What a dispatch translates ahead of time is a constant exit of the block, or of one
of its exits. -/
theorem ExecState.Prefetches.near {e : GuestPtr} (hs : s.cache.Reachable gen)
    (h : s.Prefetches gm gen e) :
    e ∈ s.cache.near gen (VexExec.hostPtr gm s.nextAddr) s.nextAddr := by
  obtain ⟨u, c, vsb, w, hf, hv, hasks, -⟩ := h
  obtain ⟨hd, -, hnext⟩ := flushPending_drawn hs hf
  rw [hasks.1] at hv
  have hdc : Drawn gen s.cache c := hd.gotVSB hv
  rw [← hnext]
  exact hasks.near hdc

/-- A dispatch protects what is cached when its block runs. -/
theorem nextSB_protected {vsb : VSB} (hs : s.cache.Reachable gen) (hp : s.Pending gm)
    (hd : s.DispatchSafe gm gen) (h : VexExec.nextSB gm gen s = .ok (some vsb, t)) :
    t.Protected gm := by
  have ht := VexExec.nextSB_reachable hs h
  obtain ⟨u, c, c', p, mem, hf, hv, hg, rfl, hmem⟩ := VexExec.nextSB_spec h
  obtain rfl : mem = VexExec.dispatchedMem gm u := by
    unfold VexExec.dispatchedMem
    rcases hmem with ⟨hn, rfl⟩ | ⟨m, hm, rfl⟩
    · rw [hn]
    · rw [hm]
  have hu := VexExec.flushPending_reachable hs hf
  obtain ⟨-, hmem', hnext⟩ := flushPending_drawn hs hf
  have cached : ∀ q, u.cache.view.CachedAt q → gm.NotWritable (VexExec.dispatchedMem gm u) q := by
    refine hu.hasBlock_iff.1 fun x hx => dispatchedMem_notWritable ?_
    by_contra hw
    rw [hmem'] at hw
    obtain ⟨u', hf', hdrop⟩ := (ExecState.drops_iff hs.ok).2 hd.flush
    cases hf.symm.trans hf'
    exact hdrop x hx (hp x (flushPending_hasBlock hs hf hx) hw)
  obtain ⟨okc, g⟩ := getVSB_spec hu.ok hv
  have cachedc := GotVSB.cachedAt g cached fun _ _ => dispatchedMem_self u
  have exits : ∀ e w, AsksFPtr gen (VexExec.hostPtr gm u.nextAddr) u.nextAddr c e w →
      w.Translates gen e → gm.NotWritable (VexExec.dispatchedMem gm u) e := by
    intro e w hasks htr
    have hpre : s.Prefetches gm gen e := ⟨u, c, vsb, w, hf, hv, hasks, htr⟩
    have := hd.exits e (hpre.near hs) hpre
    unfold VexExec.dispatchedMem at this ⊢
    rwa [hmem', hnext]
  exact ht.hasBlock_iff.2
    (getFPtr_cachedAt okc (g.inv hu.inv) cachedc (dispatchedMem_self u) exits hg)

/-- A block whose translations are protected runs, and its faults are noted. -/
theorem doVexSB_pending {run : BlockRun M} {vsb : VSB} {ip : GuestPtr} (hs : s.cache.Reachable gen)
    (hp : s.Protected gm) (h : VexExec.doVexSB gm run vsb s = .ok (ip, t)) : t.Pending gm := by
  obtain ⟨p, d, u, hd, hf, rfl⟩ := VexExec.doVexSB_spec h
  obtain ⟨-, hv, okd⟩ := getCachedFPtr_spec hs.ok _ hd
  have start : ExecState.Pending gm { s with cache := d } := fun x hx hw =>
    absurd (hp x ((hasBlock_congr hs.ok okd hv x).1 hx)) hw
  have hu : u.Pending gm := by
    refine VexExec.faults_keep (ExecState.Pending gm) start (fun {s m addr} hI hm x hx hw => ?_) hf
    by_cases hc : m.Contains x.guestAddr
    · exact ⟨m, by simp, hc⟩
    · have hw' : ¬gm.NotWritable s.mem x.guestAddr := by
        refine fun hn => hw fun m' hm' => ?_
        rw [gm.lookup_record_ne _ _ _ _ hm _ hc] at hm'
        exact hn m' hm'
      obtain ⟨r, hr, hrc⟩ := hI x hx hw'
      exact ⟨r, by simp [hr], hrc⟩
  exact hu

/-- In a run of safe dispatches and system calls, what is writable is noted. -/
theorem ExecRun.pending
    (run : ExecRun gm gen (fun s r => s.DispatchSafe gm gen ∧ SysSafe gm gen s r) s) :
    s.Pending gm := by
  induction run with
  | @start code rand limit cache h mem entry =>
      have run : ExecRun gm gen AnyBlock (.start cache mem entry) := .start h mem entry
      have hempty : ∀ q, ¬cache.view.CachedAt q := by
        have h0 : ∀ q, ¬(CacheState.init code rand).view.CachedAt q := fun q hq => by
          simp [CacheView.CachedAt, CacheState.init, CacheState.view] at hq
        have hflush : ∀ q, ¬(CacheState.init code rand).view.flush.CachedAt q := fun q hq => by
          simp [CacheView.CachedAt, CacheView.flush] at hq
        cases limit with
        | none =>
            cases h
            exact h0
        | some n =>
            obtain ⟨-, hv | hv⟩ := setMaxCache_spec (.init code rand) h
            · rw [hv]
              exact h0
            · rw [hv]
              exact hflush
      intro x hx
      have hno : ∀ x, cache.HasBlock x → (fun _ : GuestPtr => False) x.guestAddr :=
        run.reachable.hasBlock_iff.2 hempty
      exact absurd hx (hno x)
  | @step s t r prev hc h ih =>
      have hs := prev.reachable
      obtain ⟨vsb, u, h₁, h₂⟩ := VexExec.doNextSB_spec h
      have hu := nextSB_protected hs ih hc.1 h₁
      obtain ⟨ip, v, h₃, ht⟩ := VexExec.runSB_spec h₂
      have hv := doVexSB_pending (VexExec.nextSB_reachable hs h₁) hu h₃
      rcases ht with rfl | ⟨hx, rfl⟩
      · exact hv
      · exact fun x hb hw => hv x hb (hc.2 hx vsb u v ip h₁ h₃ x hb hw)

/-- Write protection of translated code. -/
theorem translations_protected (gm : GuestMem M) (gen : GenLLVM) (s t : ExecState M) (vsb : VSB)
    (run : ExecRun gm gen (fun s r => s.DispatchSafe gm gen ∧ SysSafe gm gen s r) s)
    (hd : s.DispatchSafe gm gen) (h : VexExec.nextSB gm gen s = .ok (some vsb, t)) :
    t.Protected gm :=
  nextSB_protected run.reachable run.pending hd h

/-- A first dispatch, and what it leaves behind. -/
theorem exists_nextSB (mem : List Mapping) (P : ExecState (List Mapping) → Bool)
    (h : (match VexExec.nextSB (listMem 0) plainGen
        (.start (.init twoBlocks fun _ => 0) mem 0x1000) with
      | .ok (some _, t) => P t
      | _ => false) = true) :
    ∃ t vsb, VexExec.nextSB (listMem 0) plainGen (.start (.init twoBlocks fun _ => 0) mem 0x1000) =
      .ok (some vsb, t) ∧ P t = true := by
  split at h
  · next vsb t ht => exact ⟨t, vsb, ht, h⟩
  · cases h

theorem start_run (mem : List Mapping)
    (C : ExecState (List Mapping) → BlockRun (List Mapping) → Prop) :
    ExecRun (listMem 0) plainGen C (.start (.init twoBlocks fun _ => 0) mem 0x1000) :=
  .start (show VexExec.limitCache none _ = _ from rfl) mem 0x1000

/-- The only mapping is that of the dispatched block. -/
theorem start_dispatchSafe : ExecState.DispatchSafe (listMem 0) plainGen
    (.start (.init twoBlocks fun _ => 0) [rwxMapping 0x1000 0x1000] 0x1000) := by
  refine ⟨⟨fun h0 => absurd rfl h0, ?_, ?_, ?_⟩, fun e _ _ m hm => ?_⟩
  iterate 3
    rintro _ _ _ ⟨m, hm, -⟩
    cases hm
  have hm : (listMem 0).lookupMapping [(rwxMapping 0x1000 0x1000).withProt ⟨true, false, true⟩,
      rwxMapping 0x1000 0x1000] e = some m := hm
  by_cases hc : (rwxMapping 0x1000 0x1000).Contains e
  · simp only [listMem, List.find?_cons, Mapping.withProt_contains, hc, decide_true] at hm
    cases hm
    rfl
  · simp only [listMem, List.find?_cons, Mapping.withProt_contains, hc, decide_false,
      List.find?_nil] at hm
    cases hm

theorem translations_protected_block : ∃ (t : ExecState (List Mapping)) (vsb : VSB),
    VexExec.nextSB (listMem 0) plainGen
      (.start (.init twoBlocks fun _ => 0) [rwxMapping 0x1000 0x1000] 0x1000) = .ok (some vsb, t) ∧
      (t.cache.cachedVSB 0x2000).isSome ∧ t.Protected (listMem 0) := by
  obtain ⟨t, vsb, h, hP⟩ := exists_nextSB [rwxMapping 0x1000 0x1000]
    (fun t => (t.cache.cachedVSB 0x2000).isSome) (by decide +kernel)
  exact ⟨t, vsb, h, hP, translations_protected _ _ _ t vsb (start_run _ _) start_dispatchSafe h⟩

def ExecState.OneTampered (s : ExecState M) : Prop :=
  ∀ m ∈ s.reported, ∀ m' ∈ s.reported, m.offset = m'.offset ∧ m.length = m'.length

/-- An exit in another writable mapping is translated without protection. -/
theorem translations_not_protected : ¬∀ (M : Type) (gm : GuestMem M) (gen : GenLLVM)
    (s t : ExecState M) (vsb : VSB), gm.base = 0 →
    ExecRun gm gen (fun s _ => s.OneTampered) s → s.OneTampered →
    VexExec.nextSB gm gen s = .ok (some vsb, t) → t.Protected gm := by
  intro hall
  obtain ⟨t, vsb, h, hP⟩ := exists_nextSB [rwxMapping 0x1000 0x1000, rwxMapping 0x2000 0x1000]
    (fun t => (t.cache.cachedVSB 0x2000).any (fun x : VSB => x.guestAddr == 0x2000) &&
      ((listMem 0).lookupMapping t.mem 0x2000).any fun m : Mapping => m.curProt.write)
    (by decide +kernel)
  have hp := hall _ _ _ _ t vsb rfl (start_run _ _) (fun m hm => by cases hm) h
  rw [Bool.and_eq_true, Option.any_eq_true, Option.any_eq_true] at hP
  obtain ⟨⟨x, hx, ha⟩, m, hm, hw⟩ := hP
  have := hp x ⟨0x2000, .inl hx⟩ m (by rw [eq_of_beq ha]; exact hm)
  rw [hw] at this
  cases this

end VexLLVM
