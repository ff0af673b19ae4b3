import VexLLVM.Cache.Fetch

/-!
# The invariant of the caches

`CacheView.Inv` holds in every state of every run: entries are filed under their
own address and are younger than its last flush, the functions of the open module
have names of their own, and what is neither flushed nor evicted is still cached.
-/

namespace VexLLVM

open StateExcept

namespace CacheView

structure Inv (v : CacheView) : Prop where
  vexsb : ∀ a x, v.vexsb a = some x → x.guestAddr = a ∧ v.flushed a ≤ x.uid ∧ x.uid < v.next
  func : ∀ a f, v.func a = some f →
    f.name.addr = a ∧ f.vsb.guestAddr = a ∧ v.flushed a ≤ f.vsb.uid ∧ f.vsb.uid < v.next
  /-- A name belongs to one function of the open module. -/
  linked : ∀ a f, v.func a = some f → ∀ g ∈ v.genMod.fns, g.name = f.name → g = f
  fns : ∀ g ∈ v.genMod.fns, g.name.addr = g.vsb.guestAddr ∧
    g.name.copy ≤ v.genMod.lastUnique ∧ g.vsb.uid < v.next
  fnsCached : ∀ g ∈ v.genMod.fns,
    v.flushed g.name.addr ≤ g.vsb.uid → v.func g.name.addr ≠ none
  engine : ∀ n p, v.funcAddrs.lookup n = some p →
    p.fn.name = n ∧ p.fn.vsb.guestAddr = n.addr ∧ p.fn.vsb.uid < v.next
  engineCached : ∀ n p, v.funcAddrs.lookup n = some p →
    v.flushed n.addr ≤ p.fn.vsb.uid → v.func n.addr ≠ none
  flushed : ∀ a, v.flushed a ≤ v.next

variable {v : CacheView}

theorem mem_unlink {m : Module} {f g : Function} :
    g ∈ (m.unlink f).fns ↔ g ∈ m.fns ∧ g.uid ≠ f.uid := by
  simp [Module.unlink]

theorem Inv.release (h : v.Inv) (f : Function) : (v.release f).Inv :=
  ⟨h.vexsb, h.func, fun a g hg k hk => h.linked a g hg k (mem_unlink.1 hk).1,
    fun g hg => h.fns g (mem_unlink.1 hg).1, fun g hg => h.fnsCached g (mem_unlink.1 hg).1,
    h.engine, h.engineCached, h.flushed⟩

/-- Addresses that lose their entries, and are flushed. -/
theorem Inv.drop (h : v.Inv) (S : GuestPtr → Prop) [DecidablePred S] (j : GuestPtr → Option FPtr) :
    Inv { v with
      vexsb := fun a => if S a then none else v.vexsb a
      func := fun a => if S a then none else v.func a
      jit := j
      flushed := fun a => if S a then v.next else v.flushed a } := by
  refine ⟨fun a x hx => ?_, fun a f hf => ?_, fun a f hf => ?_, h.fns, fun g hg hle => ?_, h.engine,
    fun n p hp hle => ?_, fun a => ?_⟩
  · by_cases ha : S a <;> simp only [ha, if_true, if_false] at hx ⊢
    · cases hx
    · exact h.vexsb a x hx
  · by_cases ha : S a <;> simp only [ha, if_true, if_false] at hf ⊢
    · cases hf
    · exact h.func a f hf
  · by_cases ha : S a <;> simp only [ha, if_true, if_false] at hf
    · cases hf
    · exact h.linked a f hf
  · by_cases ha : S g.name.addr <;> simp only [ha, if_true, if_false] at hle ⊢
    · exact absurd (h.fns g hg).2.2 (by omega)
    · exact h.fnsCached g hg hle
  · by_cases ha : S n.addr <;> simp only [ha, if_true, if_false] at hle ⊢
    · exact absurd (h.engine n p hp).2.2 (by omega)
    · exact h.engineCached n p hp hle
  · by_cases ha : S a <;> simp only [ha, if_true, if_false]
    · exact le_rfl
    · exact h.flushed a

theorem update_eq_ite {α : Type} (g : GuestPtr → α) (a : GuestPtr) (x : α) :
    Function.update g a x = fun q => if q = a then x else g q :=
  funext fun q => Function.update_apply g a x q

theorem Inv.evict (h : v.Inv) (a : GuestPtr) : (v.evict a).Inv := by
  unfold CacheView.evict
  simp only [update_eq_ite]
  cases v.func a with
  | none => exact h.drop (· = a) _
  | some f => exact ((h.release f).release f).drop (· = a) _

theorem Inv.flush (h : v.Inv) : v.flush.Inv := by
  have := h.drop (fun _ => True) fun _ => none
  simpa [CacheView.flush] using this

theorem Inv.foldl_release (h : v.Inv) (fs : List Function) :
    (fs.foldl CacheView.release v).Inv := by
  induction fs generalizing v with
  | nil => exact h
  | cons f fs ih => exact ih (h.release f)

theorem Inv.flushRange (h : v.Inv) (b e : GuestPtr) (ks : List GuestPtr) :
    (v.flushRange b e ks).Inv := by
  obtain ⟨hv, hf, -, hfl, hn⟩ := CacheView.foldl_release (ks.filterMap v.func) v
  have := (h.foldl_release (ks.filterMap v.func)).drop (fun p => b ≤ p ∧ p ≤ e)
    fun p => if p ∈ ks then none else v.jit p
  simpa only [CacheView.flushRange, CacheView.flushFuncs, hv, hf, hfl, hn] using this

theorem Inv.tick (h : v.Inv) : Inv { v with next := v.next + 1 } :=
  ⟨fun a x hx => by have := h.vexsb a x hx; grind,
    fun a f hf => by have := h.func a f hf; grind, h.linked,
    fun g hg => by have := h.fns g hg; grind, h.fnsCached,
    fun n p hp => by have := h.engine n p hp; grind, h.engineCached,
    fun a => by have := h.flushed a; grind⟩

/-- A superblock that is younger than the last flush of its address. -/
theorem Inv.putVSB (h : v.Inv) {a : GuestPtr} {x : VSB} (ha : x.guestAddr = a)
    (hf : v.flushed a ≤ x.uid) (hn : x.uid < v.next) :
    Inv { v with vexsb := Function.update v.vexsb a (some x) } := by
  refine ⟨fun q y hy => ?_, h.func, h.linked, h.fns, h.fnsCached, h.engine, h.engineCached,
    h.flushed⟩
  simp only [Function.update_apply] at hy
  split at hy
  · next hq =>
      cases hy
      exact ⟨ha.trans hq.symm, by rw [hq]; exact hf, hn⟩
  · exact h.vexsb q y hy

theorem Inv.alloc (h : v.Inv) {victim : Option GuestPtr} {a : GuestPtr} {sb : VexSB}
    (ha : sb.guestAddr = a) (hv : ∀ c ∈ victim, c ≠ a) : (v.alloc victim a sb).Inv := by
  unfold CacheView.alloc
  cases victim with
  | none => exact h.tick.putVSB ha (h.flushed a) (Nat.lt_succ_self _)
  | some c =>
      refine (h.tick.evict c).putVSB ha ?_ ?_
      · simp only [CacheView.evict, Function.update_of_ne (hv c rfl).symm]
        exact h.flushed a
      · cases hc : v.func c <;> simp [CacheView.evict, CacheView.release, hc]

theorem makeName_addr (m : Module) (a : GuestPtr) : (m.makeName a).1.addr = a := by
  unfold Module.makeName
  split <;> rfl

/-- The name of a new function is not one of the module. -/
theorem Inv.makeName_new (h : v.Inv) (a : GuestPtr) {g : Function} (hg : g ∈ v.genMod.fns) :
    g.name ≠ (v.genMod.makeName a).1 := by
  unfold Module.makeName
  split
  · intro he
    have := (h.fns g hg).2.1
    rw [he] at this
    exact absurd this (by simp)
  · next hm =>
      intro he
      have he : g.name = ⟨a, 0⟩ := he
      exact hm (he ▸ List.mem_map_of_mem hg)

theorem copy_le_lastUnique (m : Module) (a : GuestPtr) :
    (m.makeName a).1.copy ≤ (m.makeName a).2 ∧ m.lastUnique ≤ (m.makeName a).2 := by
  unfold Module.makeName
  split <;> simp

theorem Inv.emit (h : v.Inv) {x : VSB} (body : LLVM.Func) (hx : v.vexsb x.guestAddr = some x) :
    (v.emit x body).Inv := by
  obtain ⟨-, hfl, hn⟩ := h.vexsb _ x hx
  refine ⟨fun a y hy => ?_, fun a f hf => ?_, fun a f hf g hg he => ?_, fun g hg => ?_,
    fun g hg hle => ?_, fun n p hp => ?_, fun n p hp hle => ?_, fun a => ?_⟩
  · have := h.vexsb a y hy
    exact ⟨this.1, this.2.1, Nat.lt_succ_of_lt this.2.2⟩
  · simp only [CacheView.emit, Function.update_apply] at hf
    split at hf
    · next ha =>
        cases hf
        exact ⟨(makeName_addr _ _).trans ha.symm, ha.symm, ha ▸ hfl, Nat.lt_succ_of_lt hn⟩
    · obtain ⟨h₁, h₂, h₃, h₄⟩ := h.func a f hf
      exact ⟨h₁, h₂, h₃, Nat.lt_succ_of_lt h₄⟩
  · simp only [CacheView.emit, Function.update_apply] at hf hg
    rcases List.mem_cons.1 hg with rfl | hg
    · split at hf
      · cases hf; rfl
      · next ha =>
          have := (h.func a f hf).1
          rw [← he] at this
          exact absurd (this.symm.trans (makeName_addr _ _)) ha
    · split at hf
      · cases hf
        exact absurd he (h.makeName_new _ hg)
      · exact h.linked a f hf g hg he
  · obtain ⟨hc, hl⟩ := copy_le_lastUnique v.genMod x.guestAddr
    rcases List.mem_cons.1 hg with rfl | hg
    · exact ⟨makeName_addr _ _, hc, Nat.lt_succ_of_lt hn⟩
    · obtain ⟨h₁, h₂, h₃⟩ := h.fns g hg
      exact ⟨h₁, h₂.trans hl, Nat.lt_succ_of_lt h₃⟩
  · simp only [CacheView.emit, Function.update_apply]
    split
    · simp
    · next hne =>
        rcases List.mem_cons.1 hg with rfl | hg
        · exact absurd (makeName_addr _ _) hne
        · exact h.fnsCached g hg hle
  · obtain ⟨h₁, h₂, h₃⟩ := h.engine n p hp
    exact ⟨h₁, h₂, Nat.lt_succ_of_lt h₃⟩
  · simp only [CacheView.emit, Function.update_apply]
    split
    · simp
    · exact h.engineCached n p hp hle
  · exact (h.flushed a).trans (Nat.le_succ _)

theorem lookup_foldl_insert {fs : List Function} {t : AList fun _ : FnName => FPtr} {n : FnName}
    {p : FPtr} (h : (fs.foldl (fun t f => t.insert f.name ⟨f⟩) t).lookup n = some p) :
    t.lookup n = some p ∨ p.fn ∈ fs ∧ p.fn.name = n := by
  induction fs generalizing t with
  | nil => exact .inl h
  | cons f fs ih =>
      rcases ih h with h | ⟨h, hn⟩
      · by_cases hf : n = f.name
        · subst hf
          rw [AList.lookup_insert] at h
          cases h
          exact .inr ⟨by simp, rfl⟩
        · exact .inl (by rwa [AList.lookup_insert_ne hf] at h)
      · exact .inr ⟨by simp [h], hn⟩

/-- A pointer the engine knows after a compilation is an old one, or the code of a
function of the module. -/
theorem lookup_addFunctions {t : AList fun _ : FnName => FPtr} {fns : List Function} {n : FnName}
    {p : FPtr} (h : (JITEngine.addFunctions t fns).lookup n = some p) :
    t.lookup n = some p ∨ p.fn ∈ fns ∧ p.fn.name = n := by
  rcases lookup_foldl_insert h with h | ⟨h, hn⟩
  · exact .inl h
  · exact .inr ⟨(List.mem_filter.1 h).1, hn⟩

end CacheView

namespace VexJITCache

open CacheView

variable {v w : CacheView} {a : GuestPtr} {f : Function} {L : List (GuestPtr × FnName)} {p : FPtr}

theorem Compiled.lookup (h : Compiled v a f L p w) {n : FnName} {x : FPtr}
    (hx : w.funcAddrs.lookup n = some x) :
    v.funcAddrs.lookup n = some x ∨ x.fn ∈ v.genMod.fns ∧ x.fn.name = n := by
  rw [h.funcAddrs] at hx
  split at hx
  · exact .inl hx
  · exact lookup_addFunctions hx

theorem Compiled.inv (h : Compiled v a f L p w) (hv : v.Inv) : w.Inv := by
  have ⟨_, _, _, hvexsb, hfunc, hmod, hnext, _, _, hfl⟩ := h
  refine ⟨?_, ?_, ?_, ?_, ?_, fun n x hx => ?_, fun n x hx hle => ?_, ?_⟩
  · rw [hvexsb, hfl, hnext]
    exact fun a x hx => have := hv.vexsb a x hx; ⟨this.1, this.2.1, Nat.lt_succ_of_lt this.2.2⟩
  · rw [hfunc, hfl, hnext]
    exact fun a g hg => have := hv.func a g hg
      ⟨this.1, this.2.1, this.2.2.1, Nat.lt_succ_of_lt this.2.2.2⟩
  · rw [hmod]
    exact fun _ _ _ g hg => absurd hg (by simp)
  · rw [hmod]
    exact fun g hg => absurd hg (by simp)
  · rw [hmod]
    exact fun g hg => absurd hg (by simp)
  · rw [hnext]
    rcases h.lookup hx with hx | ⟨hm, hn⟩
    · have := hv.engine n x hx
      exact ⟨this.1, this.2.1, Nat.lt_succ_of_lt this.2.2⟩
    · have := hv.fns _ hm
      exact ⟨hn, this.1.symm.trans (congrArg _ hn), Nat.lt_succ_of_lt this.2.2⟩
  · rw [hfl] at hle
    rw [hfunc]
    rcases h.lookup hx with hx | ⟨hm, rfl⟩
    · exact hv.engineCached n x hx hle
    · exact hv.fnsCached _ hm hle
  · rw [hfl, hnext]
    exact fun a => (hv.flushed a).trans (Nat.le_succ _)

/-- The victim is a block of the cache. -/
theorem victim?_mem {s : CacheState} (hv : s.view.Inv) {c : GuestPtr} (h : c ∈ s.victim?) :
    s.view.vexsb c ≠ none := by
  unfold CacheState.victim? CacheState.selectVictimAddress at h
  split at h
  · split at h
    · next k x he =>
        have hl : s.view.vexsb k = some x := by
          have := AList.mem_lookup_iff.2 (List.mem_of_getElem? he)
          simp only [CacheState.view, AddrCache.find]
          rw [show s.vexsb.map.lookup k = some (some x) from this]
          rfl
        split at h
        · cases h
        · obtain rfl : x.guestAddr = c := by simpa using h
          rw [(hv.vexsb k x hl).1, hl]
          simp
    · cases h
  · cases h

variable {gen : GenLLVM} {host : HostPtr} {s : CacheState}

theorem GotVSB.victim_ne (hv : s.view.Inv) (h : s.view.vexsb a = none) :
    ∀ c ∈ s.victim?, c ≠ a := by
  rintro c hc rfl
  exact victim?_mem hv hc h

theorem GotVSB.inv {r : Option VSB} (h : GotVSB gen host a s r w) (hv : s.view.Inv) : w.Inv := by
  cases h with
  | found h => exact hv
  | untranslated h ht => exact hv
  | allocated h ht ha => exact hv.alloc ha (GotVSB.victim_ne hv h)

/-- The superblock that `getVSB` returns is the one in the cache. -/
theorem GotVSB.cached {x : VSB} (h : GotVSB gen host a s (some x) w) (hv : s.view.Inv) :
    x.guestAddr = a ∧ w.vexsb a = some x := by
  cases h with
  | found h => exact ⟨(hv.vexsb a x h).1, h⟩
  | allocated h ht ha => exact ⟨ha, by simp [CacheView.alloc, CacheState.view]⟩

theorem GotFunc.inv {r : Option Function} (h : GotFunc gen host a s r w) (hv : s.view.Inv) :
    w.Inv := by
  cases h with
  | found h => exact hv
  | untranslated h hg => exact hg.inv hv
  | emitted h hg hb =>
      obtain ⟨ha, hc⟩ := hg.cached hv
      exact (hg.inv hv).emit _ (ha ▸ hc)

/-- The function that `getFunc` returns is the one in the cache. -/
theorem GotFunc.cached (h : GotFunc gen host a s (some f) w) (hv : s.view.Inv) :
    w.func a = some f := by
  cases h with
  | found h => exact h
  | emitted h hg hb =>
      obtain ⟨rfl, hc⟩ := hg.cached hv
      simp [CacheView.emit]

end VexJITCache

/-- A name that a prefetch has reached: its function, if the open module has one,
is the cached one, and nothing has been entered for its address. -/
structure Reached (q : GuestPtr × FnName) (v : CacheView) : Prop where
  addr : q.2.addr = q.1
  linked : ∀ g ∈ v.genMod.fns, g.name = q.2 → v.func q.1 = some g
  jit : v.jit q.1 = none

namespace Reached

variable {q : GuestPtr × FnName} {v w : CacheView}

/-- The eviction of the address takes the function out of the module. -/
theorem evict (h : Reached q v) (c : GuestPtr) : Reached q (v.evict c) := by
  refine ⟨h.addr, fun g hg hn => ?_, ?_⟩
  · have hm : g ∈ v.genMod.fns ∧ ∀ f, v.func c = some f → g.uid ≠ f.uid := by
      cases hf : v.func c with
      | none =>
          simp only [CacheView.evict, hf, Option.elim] at hg
          exact ⟨hg, by simp⟩
      | some f =>
          simp only [CacheView.evict, hf, Option.elim, CacheView.release,
            CacheView.mem_unlink] at hg
          exact ⟨hg.1.1, by simpa using hg.2⟩
    have hq := h.linked g hm.1 hn
    have hne : q.1 ≠ c := by
      rintro rfl
      exact hm.2 g hq rfl
    simpa [CacheView.evict, Function.update_of_ne hne] using hq
  · simp only [CacheView.evict, Function.update_apply]
    split
    · rfl
    · exact h.jit

theorem alloc (h : Reached q v) (victim : Option GuestPtr) (a : GuestPtr) (sb : VexSB) :
    Reached q (v.alloc victim a sb) := by
  cases victim with
  | none => exact ⟨h.addr, h.linked, h.jit⟩
  | some c =>
      have ht : Reached q { v with next := v.next + 1 } := ⟨h.addr, h.linked, h.jit⟩
      exact ⟨(ht.evict c).addr, (ht.evict c).linked, (ht.evict c).jit⟩

theorem emit (h : Reached q v) {x : VSB} (body : LLVM.Func) (hx : v.func x.guestAddr = none) :
    Reached q (v.emit x body) := by
  refine ⟨h.addr, fun g hg hn => ?_, h.jit⟩
  simp only [CacheView.emit, Function.update_apply]
  rcases List.mem_cons.1 hg with rfl | hg
  · have : q.1 = x.guestAddr := by rw [← h.addr, ← hn]; exact CacheView.makeName_addr _ _
    rw [if_pos this]
  · have hq := h.linked g hg hn
    rw [if_neg]
    · exact hq
    · rintro he
      rw [he, hx] at hq
      cases hq

end Reached

namespace VexJITCache

open CacheView

variable {gen : GenLLVM} {host : HostPtr} {a : GuestPtr} {s : CacheState} {w : CacheView}

theorem GotVSB.func_none {r : Option VSB} (h : GotVSB gen host a s r w) {q : GuestPtr}
    (hq : s.view.func q = none) : w.func q = none := by
  cases h with
  | found h => exact hq
  | untranslated h ht => exact hq
  | allocated h ht ha =>
      cases hv : s.victim? with
      | none => exact hq
      | some c =>
          simp only [CacheView.alloc, CacheView.evict, Option.elim, Function.update_apply]
          split
          · rfl
          · exact hq

theorem GotVSB.reached {r : Option VSB} (h : GotVSB gen host a s r w) {q : GuestPtr × FnName}
    (hq : Reached q s.view) : Reached q w := by
  cases h with
  | found h => exact hq
  | untranslated h ht => exact hq
  | allocated h ht ha => exact hq.alloc _ _ _

theorem GotFunc.reached {r : Option Function} (h : GotFunc gen host a s r w)
    (hv : s.view.Inv) {q : GuestPtr × FnName} (hq : Reached q s.view) : Reached q w := by
  cases h with
  | found h => exact hq
  | untranslated h hg => exact hg.reached hq
  | emitted h hg hb =>
      refine (hg.reached hq).emit _ ?_
      rw [(hg.cached hv).1]
      exact hg.func_none h

/-- Compiled code is lost, and never gained, by anything but a compilation. -/
theorem GotVSB.jit_none {r : Option VSB} (h : GotVSB gen host a s r w) {q : GuestPtr}
    (hq : s.view.jit q = none) : w.jit q = none := by
  cases h with
  | found h => exact hq
  | untranslated h ht => exact hq
  | allocated h ht ha =>
      cases hv : s.victim? with
      | none => exact hq
      | some c =>
          simp only [CacheView.alloc, CacheView.evict, Option.elim, Function.update_apply]
          split
          · rfl
          · exact hq

theorem GotFunc.jit_none {r : Option Function} (h : GotFunc gen host a s r w) {q : GuestPtr}
    (hq : s.view.jit q = none) : w.jit q = none := by
  cases h with
  | found h => exact hq
  | untranslated h hg => exact hg.jit_none hq
  | emitted h hg hb => exact hg.jit_none hq

theorem GotFunc.reached_new {f : Function} (h : GotFunc gen host a s (some f) w)
    (hv : s.view.Inv) (hj : s.view.jit a = none) : Reached (a, f.name) w := by
  have hc := h.cached hv
  refine ⟨((h.inv hv).func a f hc).1, fun g hg hn => ?_, h.jit_none hj⟩
  rw [(h.inv hv).linked a f hc g hg hn]
  exact hc

/-- What the allocation of a translated block and the emission of one keep. -/
structure KeptByGet (gen : GenLLVM) (J : CacheView → Prop) : Prop where
  alloc : ∀ {v : CacheView} {victim : Option GuestPtr} {a : GuestPtr} {sb : VexSB}, v.Inv → J v →
    (∀ c ∈ victim, c ≠ a) → (∃ irsb, VexXlate.xlate gen a irsb = .ok (some sb)) →
    J (v.alloc victim a sb)
  emit : ∀ {v : CacheView} {x : VSB} {body : LLVM.Func}, v.Inv → J v →
    v.vexsb x.guestAddr = some x → v.func x.guestAddr = none → x.sb.emit gen = .ok body →
    J (v.emit x body)

/-- What the operations keep, compilations apart. -/
structure Kept (gen : GenLLVM) (J : CacheView → Prop) : Prop extends KeptByGet gen J where
  evict : ∀ {v : CacheView} (a : GuestPtr), v.Inv → J v → J (v.evict a)
  flush : ∀ {v : CacheView}, v.Inv → J v → J v.flush
  flushRange : ∀ {v : CacheView} {b e : GuestPtr} {ks : List GuestPtr}, v.Inv → J v → ks.Nodup →
    (∀ p, p ∈ ks ↔ v.func p ≠ none ∧ b ≤ p ∧ p ≤ e) → J (v.flushRange b e ks)

variable {J : CacheView → Prop}

theorem GotVSB.kept {r : Option VSB} (h : GotVSB gen host a s r w) (hJ : KeptByGet gen J)
    (hv : s.view.Inv) (hs : J s.view) : J w := by
  cases h with
  | found h => exact hs
  | untranslated h ht => exact hs
  | allocated h ht ha => exact hJ.alloc hv hs (GotVSB.victim_ne hv h) (exists_xlate ht)

theorem GotFunc.kept {r : Option Function} (h : GotFunc gen host a s r w) (hJ : KeptByGet gen J)
    (hv : s.view.Inv) (hs : J s.view) : J w := by
  cases h with
  | found h => exact hs
  | untranslated h hg => exact hg.kept hJ hv hs
  | emitted h hg hb =>
      obtain ⟨rfl, hc⟩ := hg.cached hv
      exact hJ.emit (hg.inv hv) (hg.kept hJ hv hs) hc (hg.func_none h) hb

/-- The names reached by a prefetch, together with an invariant of `getFunc`. -/
theorem fetchInv_reached (hJ : KeptByGet gen J) : FetchInv gen (fun v => v.Inv ∧ J v) Reached where
  step _ h hg := ⟨hg.inv h.1, hg.kept hJ h.1 h.2⟩
  keep _ h hg hq := hg.reached h.1 hq
  add _ h hj hg := hg.reached_new h.1 hj

/-- A pointer the engine has for a reached name after the compilation: an old one, or
that of the cached function. -/
theorem Compiled.reached {v : CacheView} {f : Function} {L : List (GuestPtr × FnName)}
    {p x : FPtr} (h : Compiled v a f L p w) {q : GuestPtr × FnName} (hq : Reached q v)
    (hx : w.funcAddrs.lookup q.2 = some x) :
    v.funcAddrs.lookup q.2 = some x ∨ w.func q.1 = some x.fn := by
  rcases h.lookup hx with hx | ⟨hm, hn⟩
  · exact .inl hx
  · exact .inr (by rw [h.func]; exact hq.linked _ hm hn)

/-- Where a pointer of the JIT cache comes from. -/
theorem Compiled.entered {v : CacheView} {f : Function} {L : List (GuestPtr × FnName)}
    {p x : FPtr} (h : Compiled v a f L p w) {q : GuestPtr} (hx : w.jit q = some x) :
    (∃ n, (q, n) ∈ (a, f.name) :: L ∧ w.funcAddrs.lookup n = some x) ∨ v.jit q = some x := by
  rcases h.jit q x hx with ⟨rfl, rfl⟩ | ⟨n, hn, hl⟩ | hx
  · exact .inl ⟨f.name, by simp, h.named⟩
  · exact .inl ⟨n, List.mem_cons_of_mem _ hn, hl⟩
  · exact .inr hx

section Keeps

variable {t : CacheState} (hJ : Kept gen J) (hs : s.OK) (hv : s.view.Inv) (hj : J s.view)
include hJ hs hv hj

theorem getVSB_keeps {r : Option VSB} (h : getVSB gen host a s = .ok (r, t)) :
    t.OK ∧ t.view.Inv ∧ J t.view := by
  obtain ⟨ok, hg⟩ := getVSB_spec hs h
  exact ⟨ok, hg.inv hv, hg.kept hJ.toKeptByGet hv hj⟩

theorem getFPtr_keeps {p : FPtr}
    (hcompile : ∀ {u q p w}, Fetches gen host a s q u → u.OK →
      (∀ n ∈ (a, q.1.name) :: q.2, Reached n u.view) → u.view.Inv → J u.view →
      Compiled u.view a q.1 q.2 p w → J w)
    (h : getFPtr gen host a s = .ok (p, t)) : t.OK ∧ t.view.Inv ∧ J t.view := by
  obtain ⟨ok, ⟨-, he⟩ | ⟨-, q, u, hf, ⟨oku, ⟨hiu, hju⟩, hr⟩, hc⟩⟩ :=
    getFPtr_spec (fetchInv_reached hJ.toKeptByGet) (fun q v hq => hq.jit) hs ⟨hv, hj⟩ h
  · exact ⟨ok, he ▸ hv, he ▸ hj⟩
  · exact ⟨ok, hc.inv hiu, hcompile hf oku hr hiu hju hc⟩

theorem flushRange_keeps {b e : GuestPtr} {r : Unit} (h : flushRange b e s = .ok (r, t)) :
    t.OK ∧ t.view.Inv ∧ J t.view := by
  obtain ⟨ok, ks, hn, hks, he⟩ := flushRange_spec hs h
  exact ⟨ok, he ▸ hv.flushRange b e ks, he ▸ hJ.flushRange hv hj hn hks⟩

/-- One operation on a state with the invariant, and with more that is kept. -/
theorem exec_keeps {op : CacheOp} {r : Option FPtr}
    (hcompile : ∀ {host a u q p w}, op = .getFPtr host a → Fetches gen host a s q u → u.OK →
      (∀ n ∈ (a, q.1.name) :: q.2, Reached n u.view) → u.view.Inv → J u.view →
      Compiled u.view a q.1 q.2 p w → J w)
    (h : op.exec gen s = .ok (r, t)) : t.OK ∧ t.view.Inv ∧ J t.view := by
  cases op with
  | getVSB host a =>
      obtain ⟨x, h, -⟩ := map_eq_ok h
      exact getVSB_keeps hJ hs hv hj h
  | getFunc host a =>
      obtain ⟨x, h, -⟩ := map_eq_ok h
      obtain ⟨ok, hg⟩ := getFunc_spec hs h
      exact ⟨ok, hg.inv hv, hg.kept hJ.toKeptByGet hv hj⟩
  | getFPtr host a =>
      obtain ⟨x, h, -⟩ := map_eq_ok h
      exact getFPtr_keeps hJ hs hv hj (hcompile rfl) h
  | getCachedFPtr a =>
      obtain ⟨-, he, ok⟩ := getCachedFPtr_spec hs a h
      exact ⟨ok, he ▸ hv, he ▸ hj⟩
  | evict a =>
      obtain ⟨x, h, -⟩ := map_eq_ok h
      obtain ⟨ok, he⟩ := evict_spec hs h
      exact ⟨ok, he ▸ hv.evict a, he ▸ hJ.evict a hv hj⟩
  | flush =>
      obtain ⟨x, h, -⟩ := map_eq_ok h
      obtain ⟨ok, he⟩ := flush_spec h
      exact ⟨ok, he ▸ hv.flush, he ▸ hJ.flush hv hj⟩
  | flushRange b e =>
      obtain ⟨x, h, -⟩ := map_eq_ok h
      exact flushRange_keeps hJ hs hv hj h
  | setMaxCache x =>
      obtain ⟨_, h, -⟩ := map_eq_ok h
      obtain ⟨ok, he | he⟩ := setMaxCache_spec hs h
      · exact ⟨ok, he ▸ hv, he ▸ hj⟩
      · exact ⟨ok, he ▸ hv.flush, he ▸ hJ.flush hv hj⟩
  | guestCode code =>
      cases h
      exact ⟨hs.of_eq rfl rfl rfl, hv, hj⟩

end Keeps

end VexJITCache

theorem CacheView.Inv.init (code : HostPtr → GuestPtr → Option Vex.IRSB) (rand : ℕ → ℕ) :
    (CacheState.init code rand).view.Inv := by
  refine ⟨?_, ?_, ?_, ?_, ?_, ?_, ?_, ?_⟩ <;> simp [CacheState.init, CacheState.view]

/-- Every state of a run has the invariant. -/
theorem CacheRun.inv {gen : GenLLVM} {C : CacheState → CacheOp → Prop}
    {code : HostPtr → GuestPtr → Option Vex.IRSB} {rand : ℕ → ℕ} {ops : List CacheOp}
    {s : CacheState} (run : CacheRun gen C (.init code rand) ops s) : s.OK ∧ s.view.Inv := by
  have kept : VexJITCache.Kept gen fun _ => True :=
    ⟨⟨fun _ _ _ _ => trivial, fun _ _ _ _ _ => trivial⟩, fun _ _ _ => trivial, fun _ _ => trivial,
      fun _ _ _ _ => trivial⟩
  refine run.keeps (fun s => s.OK ∧ s.view.Inv) ⟨.init code rand, .init code rand⟩
    fun s op r t hs _ h => ?_
  obtain ⟨ok, hv, -⟩ :=
    VexJITCache.exec_keeps kept hs.1 hs.2 trivial (fun _ _ _ _ _ _ _ => trivial) h
  exact ⟨ok, hv⟩

def CacheView.Addressed (v : CacheView) : Prop :=
  ∀ a p, v.jit a = some p → p.fn.vsb.guestAddr = a

namespace CacheView.Addressed

variable {v w : CacheView}

theorem mono (h : v.Addressed) (hj : ∀ a p, w.jit a = some p → v.jit a = some p) : w.Addressed :=
  fun a p hp => h a p (hj a p hp)

theorem evict (h : v.Addressed) (a : GuestPtr) : (v.evict a).Addressed := by
  refine h.mono fun q p hp => ?_
  simp only [CacheView.evict, Function.update_apply] at hp
  split at hp
  · cases hp
  · exact hp

theorem alloc (h : v.Addressed) (victim : Option GuestPtr) (a : GuestPtr) (sb : VexSB) :
    (v.alloc victim a sb).Addressed := by
  cases victim with
  | none => exact h
  | some c =>
      have ht : CacheView.Addressed { v with next := v.next + 1 } := h
      exact ht.evict c

theorem compile {a : GuestPtr} {f : Function} {L : List (GuestPtr × FnName)} {p : FPtr}
    (h : v.Addressed) (hv : v.Inv) (hc : VexJITCache.Compiled v a f L p w)
    (hr : ∀ q ∈ (a, f.name) :: L, Reached q v) : w.Addressed := by
  intro q x hx
  rcases hc.entered hx with ⟨n, hn, hl⟩ | hx
  · rw [((hc.inv hv).engine n x hl).2.1]
    exact (hr _ hn).addr
  · exact h q x hx

end CacheView.Addressed

theorem kept_addressed (gen : GenLLVM) : VexJITCache.Kept gen CacheView.Addressed where
  alloc _ h _ _ := h.alloc _ _ _
  emit _ h _ _ _ := h
  evict a _ h := h.evict a
  flush _ _ := fun _ _ hp => by cases hp
  flushRange _ h _ _ := h.mono fun q p hp => by
    simp only [CacheView.flushRange] at hp
    split at hp
    · cases hp
    · exact hp

theorem CacheRun.addressed {gen : GenLLVM} {C : CacheState → CacheOp → Prop}
    {code : HostPtr → GuestPtr → Option Vex.IRSB} {rand : ℕ → ℕ} {ops : List CacheOp}
    {s : CacheState} (run : CacheRun gen C (.init code rand) ops s) : s.view.Addressed := by
  refine (run.keeps (fun s => s.OK ∧ s.view.Inv ∧ s.view.Addressed)
    ⟨.init code rand, .init code rand, fun _ _ hp => by cases hp⟩ fun s op r t hs _ h => ?_).2.2
  exact VexJITCache.exec_keeps (kept_addressed gen) hs.1 hs.2.1 hs.2.2
    (fun _ _ _ hr hv hj hc => hj.compile hv hc hr) h

end VexLLVM
