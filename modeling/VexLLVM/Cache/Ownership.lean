import VexLLVM.Cache.Fresh

/-!
# Ownership of functions

A function is owned by its module, and the generator hands the module to the JIT
engine, which destroys it. The caches hold raw pointers. They hold no function of a
destroyed module, and no function is released twice, exactly in the runs that
compile nothing and evict no block that has a function.
-/

namespace VexLLVM

open StateExcept VexJITCache

namespace CacheState

def Holds (s : CacheState) (f : Function) : Prop :=
  (∃ a, s.func.map.lookup a = some (some f)) ∨ ∃ a, s.func.dc.get a = some f

/-- Every function held is one of a module that exists, and each is released at most
once. -/
def Owned (s : CacheState) : Prop :=
  (∀ f, s.Holds f → f.mod ∉ s.destroyed) ∧ s.released.Nodup

theorem OK.holds_iff {s : CacheState} (hs : s.OK) (f : Function) :
    s.Holds f ↔ ∃ a, s.view.func a = some f := by
  constructor
  · rintro (⟨a, ha⟩ | ⟨a, ha⟩)
    · exact ⟨a, by simp [view, AddrCache.find, ha]⟩
    · exact ⟨a, hs.func a f ha⟩
  · rintro ⟨a, ha⟩
    refine .inl ⟨a, ?_⟩
    cases hl : s.func.map.lookup a with
    | none => simp [view, AddrCache.find, hl] at ha
    | some o => simpa [view, AddrCache.find, hl] using ha

/-- A request for the superblock of the address evicts a block that has a function. -/
def EvictsFunc (gen : GenLLVM) (host : HostPtr) (a : GuestPtr) (s : CacheState) : Prop :=
  s.cachedVSB a = none ∧ (∃ sb, s.translate gen host a = .ok (some sb)) ∧
    ∃ c ∈ s.victim?, s.cachedFunc c ≠ none

end CacheState

/-- What a run must keep to: it compiles nothing, and evicts no block that has a
function. -/
def KeepsOwned (gen : GenLLVM) (s : CacheState) : CacheOp → Prop
  | .getVSB host a => ¬s.EvictsFunc gen host a
  | .getFunc host a => s.cachedFunc a ≠ none ∨ ¬s.EvictsFunc gen host a
  | .getFPtr _ a => s.cachedFPtr a ≠ none
  | .evict a => s.cachedFunc a = none
  | _ => True

namespace CacheView

/-- The cached functions belong to the open module, none is released, and no two
entries share one. -/
structure Owning (v : CacheView) : Prop extends v.Distinct where
  released : v.released.Nodup
  released_lt : ∀ u ∈ v.released, u < v.next
  func : ∀ a f, v.func a = some f → f.uid ∉ v.released ∧ f.mod = v.genMod.id
  destroyed : v.destroyed = []

namespace Owning

variable {v : CacheView}

theorem of_none (h : v.Owning) {w : CacheView} (hf : ∀ a f, w.func a = some f → v.func a = some f)
    (hr : w.released = v.released) (hn : v.next ≤ w.next) (hm : w.genMod.id = v.genMod.id)
    (hd : w.destroyed = v.destroyed) : w.Owning where
  toDistinct := h.mono hf hn
  released := hr ▸ h.released
  released_lt u hu := (h.released_lt u (hr ▸ hu)).trans_le hn
  func a f ha := by
    obtain ⟨h₁, h₂⟩ := h.func a f (hf a f ha)
    exact ⟨hr ▸ h₁, h₂.trans hm.symm⟩
  destroyed := hd ▸ h.destroyed

theorem evict_none (h : v.Owning) {a : GuestPtr} (ha : v.func a = none) : (v.evict a).Owning := by
  refine h.of_none (fun _ _ hb => update_none_eq_some hb) ?_ ?_ ?_ ?_
  all_goals simp [CacheView.evict, ha]

theorem alloc (h : v.Owning) {victim : Option GuestPtr} {a : GuestPtr} {sb : VexSB}
    (hv : ∀ c ∈ victim, v.func c = none) : (v.alloc victim a sb).Owning := by
  have ht : Owning { v with next := v.next + 1 } :=
    h.of_none (fun _ _ => id) rfl (Nat.le_succ _) rfl rfl
  cases victim with
  | none => exact ht.of_none (fun _ _ => id) rfl le_rfl rfl rfl
  | some c => exact (ht.evict_none (hv c rfl)).of_none (fun _ _ => id) rfl le_rfl rfl rfl

theorem emit (h : v.Owning) (x : VSB) (body : LLVM.Func) : (v.emit x body).Owning where
  toDistinct := h.toDistinct.emit x body
  released := h.released
  released_lt u hu := Nat.lt_succ_of_lt (h.released_lt u hu)
  func a f ha := by
    simp only [CacheView.emit, Function.update_apply] at ha
    split at ha
    · cases ha
      exact ⟨fun hm => absurd (h.released_lt _ hm) (lt_irrefl _), rfl⟩
    · exact h.func a f ha
  destroyed := h.destroyed

theorem flush (h : v.Owning) : v.flush.Owning :=
  h.of_none (fun a f ha => by cases ha) rfl le_rfl rfl rfl

/-- A released function that is cached nowhere. -/
theorem release (h : v.Owning) {f : Function} (hf : f.uid ∉ v.released) (hn : f.uid < v.next)
    (hc : ∀ a g, v.func a = some g → g.uid ≠ f.uid) : (v.release f).Owning where
  toDistinct := ⟨h.old, h.inj⟩
  released := List.nodup_cons.2 ⟨hf, h.released⟩
  released_lt u hu := by
    rcases List.mem_cons.1 hu with rfl | hu
    · exact hn
    · exact h.released_lt u hu
  func a g ha := by
    obtain ⟨h₁, h₂⟩ := h.func a g ha
    exact ⟨List.not_mem_cons_of_ne_of_not_mem (hc a g ha) h₁, h₂⟩
  destroyed := h.destroyed

theorem foldl_release {fs : List Function} (h : v.Owning) (hn : (fs.map Function.uid).Nodup)
    (hf : ∀ f ∈ fs, f.uid ∉ v.released ∧ f.uid < v.next ∧
      ∀ a g, v.func a = some g → g.uid ≠ f.uid) : (fs.foldl CacheView.release v).Owning := by
  induction fs generalizing v with
  | nil => exact h
  | cons f fs ih =>
      obtain ⟨h₁, h₂, h₃⟩ := hf f (by simp)
      rw [List.map_cons, List.nodup_cons] at hn
      refine ih (h.release h₁ h₂ h₃) hn.2 fun g hg => ?_
      obtain ⟨k₁, k₂, k₃⟩ := hf g (by simp [hg])
      have hne : g.uid ≠ f.uid := fun he => hn.1 (he ▸ List.mem_map_of_mem hg)
      exact ⟨List.not_mem_cons_of_ne_of_not_mem hne k₁, k₂, k₃⟩

theorem foldl_release_eq (fs : List Function) (v : CacheView) :
    (fs.foldl CacheView.release v).released = (fs.map Function.uid).reverse ++ v.released ∧
      (fs.foldl CacheView.release v).genMod.id = v.genMod.id ∧
      (fs.foldl CacheView.release v).destroyed = v.destroyed := by
  induction fs generalizing v with
  | nil => simp
  | cons f fs ih =>
      obtain ⟨h₁, h₂, h₃⟩ := ih (v.release f)
      simp only [List.foldl_cons, h₁, h₂, h₃]
      simp [CacheView.release, Module.unlink]

/-- Each function of the range is released once. -/
theorem flushRange (h : v.Owning) {b e : GuestPtr} {ks : List GuestPtr} (hn : ks.Nodup)
    (hks : ∀ p, p ∈ ks ↔ v.func p ≠ none ∧ b ≤ p ∧ p ≤ e) : (v.flushRange b e ks).Owning := by
  let w : CacheView := { v with func := fun p => if b ≤ p ∧ p ≤ e then none else v.func p }
  have hout : ∀ a f, w.func a = some f → ¬(b ≤ a ∧ a ≤ e) ∧ v.func a = some f := by
    intro a f ha
    by_cases hr : b ≤ a ∧ a ≤ e
    · simp [w, hr] at ha
    · exact ⟨hr, by simpa [w, hr] using ha⟩
  have hw : w.Owning := h.of_none (fun a f ha => (hout a f ha).2) rfl le_rfl rfl rfl
  have hnd : ((ks.filterMap v.func).map Function.uid).Nodup := by
    rw [List.map_filterMap]
    refine hn.filterMap fun a c u hu hu' => ?_
    obtain ⟨f, hf, rfl⟩ := Option.mem_map.1 hu
    obtain ⟨g, hg, he⟩ := Option.mem_map.1 hu'
    exact h.inj a c f g hf hg he.symm
  have hfold : ((ks.filterMap v.func).foldl CacheView.release w).Owning := by
    refine hw.foldl_release hnd fun f hf => ?_
    obtain ⟨k, hk, hf⟩ := List.mem_filterMap.1 hf
    refine ⟨(h.func k f hf).1, h.old k f hf, fun a g ha he => ?_⟩
    obtain ⟨hr, ha⟩ := hout a g ha
    exact hr (h.inj a k g f ha hf he ▸ ((hks k).1 hk).2)
  obtain ⟨r₁, m₁, d₁⟩ := foldl_release_eq (ks.filterMap v.func) w
  obtain ⟨r₂, m₂, d₂⟩ := foldl_release_eq (ks.filterMap v.func) v
  obtain ⟨-, f₁, -, -, n₁⟩ := CacheView.foldl_release (ks.filterMap v.func) w
  obtain ⟨-, -, -, -, n₂⟩ := CacheView.foldl_release (ks.filterMap v.func) v
  refine hfold.of_none (fun a f ha => ?_) (r₂.trans r₁.symm) (n₁.trans n₂.symm).le
    (m₂.trans m₁.symm) (d₂.trans d₁.symm)
  rw [f₁]
  exact ha

end Owning

end CacheView

/-- A state with the invariant is owned. -/
theorem CacheState.owned_of_owning {s : CacheState} (h : s.view.Owning) : s.Owned :=
  ⟨fun f _ => by rw [show s.destroyed = [] from h.destroyed]; exact List.not_mem_nil, h.released⟩

section Steps

variable {gen : GenLLVM} {s t : CacheState} {op : CacheOp} {r : Option FPtr} {host : HostPtr}
  {a : GuestPtr} {w : CacheView}

theorem CacheView.evict_released {v : CacheView} {f : Function} (h : v.func a = some f) :
    ¬(v.evict a).released.Nodup := by
  simp [CacheView.evict, CacheView.release, h]

/-- An allocation keeps ownership, or evicts a function and breaks it. -/
theorem VexJITCache.GotVSB.owning {x : Option VSB} (hs : s.OK) (hg : GotVSB gen host a s x w)
    (h : s.view.Owning) :
    (¬s.EvictsFunc gen host a ∧ w.Owning) ∨ (s.EvictsFunc gen host a ∧ ¬w.released.Nodup) := by
  cases hg with
  | found hf =>
      refine .inl ⟨fun he => ?_, h⟩
      rw [CacheState.EvictsFunc, hs.cachedVSB, hf] at he
      exact absurd he.1 (by simp)
  | untranslated hf ht =>
      refine .inl ⟨fun he => ?_, h⟩
      obtain ⟨-, ⟨sb, hsb⟩, -⟩ := he
      rw [ht] at hsb
      cases hsb
  | @allocated sb hf ht ha =>
      by_cases hc : ∃ c ∈ s.victim?, s.cachedFunc c ≠ none
      · refine .inr ⟨⟨by rw [hs.cachedVSB]; exact hf, ⟨sb, ht⟩, hc⟩, ?_⟩
        obtain ⟨c, hv, hc⟩ := hc
        rw [hs.cachedFunc] at hc
        obtain ⟨f, hf⟩ := Option.ne_none_iff_exists'.1 hc
        rw [show s.victim? = some c from hv]
        let v : CacheView := { s.view with next := s.view.next + 1 }
        have hr : ¬(v.evict c).released.Nodup := CacheView.evict_released hf
        exact hr
      · refine .inl ⟨fun he => hc he.2.2, h.alloc fun c hv => ?_⟩
        by_contra hne
        exact hc ⟨c, hv, by rwa [hs.cachedFunc]⟩

/-- A request for a function, likewise. -/
theorem VexJITCache.GotFunc.owning {x : Option Function} (hs : s.OK)
    (hg : GotFunc gen host a s x w) (h : s.view.Owning) :
    (KeepsOwned gen s (.getFunc host a) ∧ w.Owning) ∨
      (¬KeepsOwned gen s (.getFunc host a) ∧ ¬w.released.Nodup) := by
  rw [KeepsOwned, hs.cachedFunc]
  cases hg with
  | found hf => exact .inl ⟨.inl (by simp [hf]), h⟩
  | untranslated hf hg =>
      simp only [hf, ne_eq, not_true, false_or, not_not]
      exact hg.owning hs h
  | emitted hf hg hb =>
      simp only [hf, ne_eq, not_true, false_or, not_not]
      rcases hg.owning hs h with ⟨hk, ho⟩ | hk
      · exact .inl ⟨hk, ho.emit _ _⟩
      · exact .inr hk

theorem kept_mods (gen : GenLLVM) :
    KeptByGet gen fun v => ∀ a f, v.func a = some f → f.mod = v.genMod.id where
  alloc {v victim a sb} _ h _ _ := by
    cases victim with
    | none => exact h
    | some c =>
        intro b f hb
        have hm : (CacheView.evict { v with next := v.next + 1 } c).genMod.id = v.genMod.id := by
          cases hf : v.func c <;> simp [CacheView.evict, CacheView.release, Module.unlink, hf]
        refine Eq.trans (h b f ?_) hm.symm
        simp only [CacheView.alloc, CacheView.evict, Option.elim, Function.update_apply] at hb
        split at hb
        · cases hb
        · exact hb
  emit {v x body} _ h _ _ _ := by
    intro b f hb
    simp only [CacheView.emit, Function.update_apply] at hb
    split at hb
    · cases hb; rfl
    · exact h b f hb

/-- The function of the address is lost to a second release, or is one of the module
that is about to be destroyed. -/
def Doomed (q : GuestPtr × FnName) (v : CacheView) : Prop :=
  ¬v.released.Nodup ∨ ∃ f, v.func q.1 = some f ∧ f.mod = v.genMod.id

theorem Doomed.evict {q : GuestPtr × FnName} {v : CacheView} (h : Doomed q v) (c : GuestPtr) :
    Doomed q (v.evict c) := by
  cases hf : v.func c with
  | some f => exact .inl (CacheView.evict_released hf)
  | none =>
      rcases h with h | ⟨f, hq, hm⟩
      · exact .inl (by simpa [CacheView.evict, hf] using h)
      · have hne : q.1 ≠ c := by
          rintro rfl
          rw [hf] at hq
          cases hq
        exact .inr ⟨f, by simpa [CacheView.evict, Function.update_of_ne hne] using hq,
          by simpa [CacheView.evict, hf] using hm⟩

theorem kept_doomed (gen : GenLLVM) (q : GuestPtr × FnName) : KeptByGet gen (Doomed q) where
  alloc {v victim a sb} _ h _ _ := by
    cases victim with
    | none => exact h
    | some c =>
        have ht : Doomed q { v with next := v.next + 1 } := h
        exact ht.evict c
  emit {v x body} _ h _ _ _ := by
    rcases h with h | ⟨f, hf, hm⟩
    · exact .inl h
    · by_cases hq : q.1 = x.guestAddr
      · exact .inr ⟨v.newFunc x body, by simp only [CacheView.emit, hq, Function.update_self], rfl⟩
      · exact .inr ⟨f, by simpa only [CacheView.emit, Function.update_of_ne hq] using hf, hm⟩

theorem fetchInv_doomed : FetchInv gen
    (fun v => v.Inv ∧ ∀ a f, v.func a = some f → f.mod = v.genMod.id)
    fun q v => Reached q v ∧ Doomed q v where
  step ok h hg := (fetchInv_reached (kept_mods gen)).step ok h hg
  keep {_ _ _ _ _ q} ok h hg hq :=
    ⟨(fetchInv_reached (kept_mods gen)).keep ok h hg hq.1, hg.kept (kept_doomed gen q) h.1 hq.2⟩
  add ok h hj hg := ⟨(fetchInv_reached (kept_mods gen)).add ok h hj hg,
    .inr ⟨_, hg.cached h.1, hg.kept (kept_mods gen) h.1 h.2 _ _ (hg.cached h.1)⟩⟩

/-- One operation keeps ownership and its condition, or breaks both. -/
theorem exec_owning (hs : s.OK) (hv : s.view.Inv) (h : s.view.Owning)
    (hx : op.exec gen s = .ok (r, t)) :
    (KeepsOwned gen s op ∧ t.view.Owning) ∨ (¬KeepsOwned gen s op ∧ ¬t.Owned) := by
  cases op with
  | getVSB host a =>
      obtain ⟨x, hx, -⟩ := map_eq_ok hx
      obtain ⟨ok, hg⟩ := getVSB_spec hs hx
      rcases hg.owning hs h with ⟨hk, ho⟩ | ⟨hk, hr⟩
      · exact .inl ⟨hk, ho⟩
      · exact .inr ⟨fun hc => hc hk, fun ho => hr ho.2⟩
  | getFunc host a =>
      obtain ⟨x, hx, -⟩ := map_eq_ok hx
      obtain ⟨ok, hg⟩ := getFunc_spec hs hx
      rcases hg.owning hs h with ⟨hk, ho⟩ | ⟨hk, hr⟩
      · exact .inl ⟨hk, ho⟩
      · exact .inr ⟨hk, fun ho => hr ho.2⟩
  | getFPtr host a =>
      obtain ⟨p, hx, -⟩ := map_eq_ok hx
      have hm : ∀ a f, s.view.func a = some f → f.mod = s.view.genMod.id :=
        fun a f hf => (h.func a f hf).2
      obtain ⟨ok, ⟨hp, he⟩ | ⟨hp, q, u, -, ⟨-, -, hd⟩, hc⟩⟩ :=
        getFPtr_spec fetchInv_doomed (fun q v hq => hq.1.jit) hs ⟨hv, hm⟩ hx
      · refine .inl ⟨?_, he ▸ h⟩
        rw [KeepsOwned, hs.cachedFPtr, hp]
        simp
      · refine .inr ⟨?_, fun ho => ?_⟩
        · rw [KeepsOwned, hs.cachedFPtr]
          exact not_not.2 hp
        · rcases (hd (a, q.1.name) List.mem_cons_self).2 with hd | ⟨f, hf, hm⟩
          · exact hd (hc.released ▸ ho.2)
          · refine ho.1 f ((ok.holds_iff f).2 ⟨a, hc.func ▸ hf⟩) ?_
            rw [show t.destroyed = u.view.genMod.id :: u.view.destroyed from hc.destroyed, hm]
            exact List.mem_cons_self
  | getCachedFPtr a =>
      obtain ⟨-, he, -⟩ := getCachedFPtr_spec hs a hx
      exact .inl ⟨trivial, he ▸ h⟩
  | evict a =>
      obtain ⟨x, hx, -⟩ := map_eq_ok hx
      obtain ⟨ok, he⟩ := evict_spec hs hx
      rw [KeepsOwned, hs.cachedFunc]
      cases hf : s.view.func a with
      | none => exact .inl ⟨rfl, he ▸ h.evict_none hf⟩
      | some f => exact .inr ⟨by simp, fun ho => CacheView.evict_released hf (he ▸ ho.2)⟩
  | flush =>
      obtain ⟨x, hx, -⟩ := map_eq_ok hx
      exact .inl ⟨trivial, (flush_spec hx).2 ▸ h.flush⟩
  | flushRange b e =>
      obtain ⟨x, hx, -⟩ := map_eq_ok hx
      obtain ⟨ok, ks, hn, hks, he⟩ := flushRange_spec hs hx
      exact .inl ⟨trivial, he ▸ h.flushRange hn hks⟩
  | setMaxCache x =>
      obtain ⟨_, hx, -⟩ := map_eq_ok hx
      obtain ⟨ok, he | he⟩ := setMaxCache_spec hs hx
      · exact .inl ⟨trivial, he ▸ h⟩
      · exact .inl ⟨trivial, he ▸ h.flush⟩
  | guestCode code =>
      cases hx
      exact .inl ⟨trivial, h⟩

end Steps

theorem CacheView.Owning.init (code : HostPtr → GuestPtr → Option Vex.IRSB) (rand : ℕ → ℕ) :
    (CacheState.init code rand).view.Owning := by
  refine ⟨.init code rand, ?_, ?_, ?_, rfl⟩ <;> simp [CacheState.init, CacheState.view]

/-- A state that a run over part of the list ends in is owning, as long as no
operation breaks the condition and ownership together. -/
theorem CacheRun.owning {gen : GenLLVM} {code : HostPtr → GuestPtr → Option Vex.IRSB}
    {rand : ℕ → ℕ} {ops pre : List CacheOp} {s : CacheState}
    (run : CacheRun gen AnyOp (.init code rand) pre s) (hpre : pre <+: ops)
    (H : ∀ pre op s t r, pre ++ [op] <+: ops → CacheRun gen AnyOp (.init code rand) pre s →
      op.exec gen s = .ok (r, t) → KeepsOwned gen s op ∨ t.Owned) : s.view.Owning := by
  induction run with
  | nil => exact .init code rand
  | @step pre s t op r run _ hx ih =>
      have hs := ih ((List.prefix_append _ _).trans hpre)
      rcases exec_owning run.inv.1 run.inv.2 hs hx with ⟨-, ho⟩ | ⟨hk, ho⟩
      · exact ho
      · exact absurd (H _ _ _ _ _ hpre run hx) (not_or.2 ⟨hk, ho⟩)

/-- The states that runs of parts of the list end in are owned exactly when every
operation that is completed meets the condition. -/
theorem owned_iff (gen : GenLLVM) (code : HostPtr → GuestPtr → Option Vex.IRSB) (rand : ℕ → ℕ)
    (ops : List CacheOp) :
    (∀ pre s, pre <+: ops → CacheRun gen AnyOp (.init code rand) pre s → s.Owned) ↔
      ∀ pre op s t r, pre ++ [op] <+: ops → CacheRun gen AnyOp (.init code rand) pre s →
        op.exec gen s = .ok (r, t) → KeepsOwned gen s op := by
  constructor
  · intro hO pre op s t r hpre run hx
    have hs := run.owning ((List.prefix_append _ _).trans hpre)
      fun pre op s t r hpre run hx => .inr (hO _ t hpre (run.step trivial hx))
    rcases exec_owning run.inv.1 run.inv.2 hs hx with ⟨hk, -⟩ | ⟨-, ho⟩
    · exact hk
    · exact absurd (hO _ t hpre (run.step trivial hx)) ho
  · intro hK pre s hpre run
    refine CacheState.owned_of_owning (run.owning hpre fun pre op s t r hpre run hx => ?_)
    exact .inl (hK pre op s t r hpre run hx)

/-- A block that is compiled is held after its module is gone. -/
theorem owned_not_always : ¬∀ (gen : GenLLVM) (code : HostPtr → GuestPtr → Option Vex.IRSB)
    (rand : ℕ → ℕ) (ops : List CacheOp) (s : CacheState),
    CacheRun gen AnyOp (.init code rand) ops s → s.Owned := by
  intro hall
  obtain ⟨s, run, hs⟩ := CacheRun.exists_of_check plainGen AnyOp (.init twoBlocks fun _ => 0)
    [.getFPtr 1 0x1000]
    (fun s => (s.func.dc.get 0x1000).any fun f : Function => s.destroyed.contains f.mod)
    (fun _ _ _ => trivial) (by decide +kernel)
  obtain ⟨f, h, hf⟩ := (Option.any_eq_true _ _).1 hs
  exact (hall _ _ _ _ s run).1 f (.inr ⟨_, h⟩) (by simpa using hf)

end VexLLVM
