import VexLLVM.Cache.Prefetch
import VexLLVM.Exec.VexExec

/-!
# The dispatched block

`getSBFromGuestAddr` looks a superblock up and then compiles it, together with its
constant exits. The superblock is still in the cache afterwards exactly when none of
the exits that are translated takes its place.
-/

namespace VexLLVM

open StateExcept VexJITCache

/-- Asked for the exit `e` in this state, the cache makes room for it by the eviction of
`a`. -/
def CacheState.Evicts (gen : GenLLVM) (u : CacheState) (e a : GuestPtr) : Prop :=
  u.cachedFunc e = none ∧ u.cachedVSB e = none ∧
    (∃ sb, u.translate gen e e = .ok (some sb)) ∧ u.victim? = some a

/-- The superblock is the one in the map, and it has compiled code. -/
def CacheState.Live (c : CacheState) (a : GuestPtr) (vsb : VSB) : Prop :=
  c.cachedVSB a = some vsb ∧ c.cachedFPtr a ≠ none

structure Held (a : GuestPtr) (vsb : VSB) (u : CacheState) : Prop where
  ok : u.OK
  inv : u.view.Inv
  held : u.view.vexsb a = some vsb

/-- A superblock that is not the one of the address, and is older than all that are to
come. -/
structure Lost (a : GuestPtr) (vsb : VSB) (u : CacheState) : Prop where
  ok : u.OK
  inv : u.view.Inv
  lost : u.view.vexsb a ≠ some vsb
  older : vsb.uid < u.view.next

section

variable {gen : GenLLVM} {a e : GuestPtr} {vsb : VSB} {u v : CacheState} {host : HostPtr}

/-- An allocation under another address, and for another victim. -/
theorem alloc_vexsb_of_ne {w : CacheView} {victim : Option GuestPtr} {sb : VexSB} (he : a ≠ e)
    (hv : victim ≠ some a) : (w.alloc victim e sb).vexsb a = w.vexsb a := by
  cases victim with
  | none => simp [CacheView.alloc, he]
  | some c =>
      have hc : a ≠ c := fun hc => hv (by rw [hc])
      cases hf : w.func c <;> simp [CacheView.alloc, CacheView.evict, he, hc]

theorem alloc_next {w : CacheView} {victim : Option GuestPtr} {sb : VexSB} :
    (w.alloc victim e sb).next = w.next + 1 := by
  cases victim with
  | none => rfl
  | some c =>
      cases hf : w.func c <;> simp [CacheView.alloc, CacheView.evict, CacheView.release, hf]

/-- What is in the map after an allocation was there before, or is the new superblock. -/
theorem alloc_vexsb_eq {w : CacheView} {victim : Option GuestPtr} {sb : VexSB} {q : GuestPtr}
    {x : VSB} (h : (w.alloc victim e sb).vexsb q = some x) :
    w.vexsb q = some x ∨ x.uid = w.next := by
  by_cases hq : q = e
  · subst hq
    refine .inr ?_
    have hx : (⟨w.next, sb⟩ : VSB) = x := by simpa [CacheView.alloc] using h
    rw [← hx]
  · by_cases hv : victim = some q
    · subst hv
      simp [CacheView.alloc, CacheView.evict, hq] at h
    · exact .inl (by rwa [alloc_vexsb_of_ne hq hv] at h)

/-- One question, where the address is not evicted. -/
theorem Held.getFunc {r : Option Function} (h : Held a vsb u)
    (hne : ¬u.Evicts gen e a) (hg : VexJITCache.getFunc gen e e u = .ok (r, v)) :
    Held a vsb v := by
  obtain ⟨ok, g⟩ := getFunc_spec h.ok hg
  refine ⟨ok, g.inv h.inv, ?_⟩
  have key : ∀ {r w}, u.view.func e = none → GotVSB gen e e u r w → w.vexsb a = some vsb := by
    intro r w hf hw
    cases hw with
    | found hx => exact h.held
    | untranslated hx ht => exact h.held
    | @allocated sb hx ht ha =>
        have hae : a ≠ e := by
          rintro rfl
          rw [h.held] at hx
          cases hx
        rw [alloc_vexsb_of_ne hae]
        · exact h.held
        · intro hvic
          exact hne ⟨(h.ok.cachedFunc e).trans hf, (h.ok.cachedVSB e).trans hx, ⟨sb, ht⟩, hvic⟩
  generalize v.view = w at g
  cases g with
  | found hf => exact h.held
  | untranslated hf hw => exact key hf hw
  | emitted hf hw hb =>
      have := key hf hw
      exact this

/-- One question keeps a lost superblock lost. -/
theorem Lost.getFunc {r : Option Function} (h : Lost a vsb u)
    (hg : VexJITCache.getFunc gen host e u = .ok (r, v)) : Lost a vsb v := by
  obtain ⟨ok, g⟩ := getFunc_spec h.ok hg
  have key : ∀ {r w}, GotVSB gen host e u r w → w.vexsb a ≠ some vsb ∧ vsb.uid < w.next := by
    intro r w hw
    cases hw with
    | found hx => exact ⟨h.lost, h.older⟩
    | untranslated hx ht => exact ⟨h.lost, h.older⟩
    | allocated hx ht ha =>
        refine ⟨fun hv => ?_, alloc_next.symm ▸ Nat.lt_succ_of_lt h.older⟩
        rcases alloc_vexsb_eq hv with hv | hv
        · exact h.lost hv
        · exact absurd hv h.older.ne
  suffices v.view.vexsb a ≠ some vsb ∧ vsb.uid < v.view.next from
    ⟨ok, g.inv h.inv, this.1, this.2⟩
  generalize v.view = w at g
  cases g with
  | found hf => exact ⟨h.lost, h.older⟩
  | untranslated hf hw => exact key hw
  | emitted hf hw hb => exact ⟨(key hw).1, Nat.lt_succ_of_lt (key hw).2⟩

/-- The eviction of the address. -/
theorem Held.lost_of_evicts {r : Option Function} (h : Held a vsb u) (hv : u.Evicts gen e a)
    (hg : VexJITCache.getFunc gen e e u = .ok (r, v)) : Lost a vsb v := by
  obtain ⟨hf, hx, ⟨sb, ht⟩, hvic⟩ := hv
  obtain ⟨ok, g⟩ := getFunc_spec h.ok hg
  rw [h.ok.cachedFunc] at hf
  rw [h.ok.cachedVSB] at hx
  have hae : a ≠ e := by
    rintro rfl
    rw [h.held] at hx
    cases hx
  have hold : vsb.uid < u.view.next := (h.inv.vexsb a vsb h.held).2.2
  have key : ∀ {r w}, GotVSB gen e e u r w → w.vexsb a ≠ some vsb ∧ vsb.uid < w.next := by
    intro r w hw
    cases hw with
    | found hx' =>
        rw [hx] at hx'
        cases hx'
    | untranslated _ ht' =>
        rw [ht] at ht'
        cases ht'
    | allocated _ ht' ha =>
        refine ⟨?_, alloc_next.symm ▸ Nat.lt_succ_of_lt hold⟩
        rw [hvic]
        simp [CacheView.alloc, CacheView.evict, hae]
  suffices v.view.vexsb a ≠ some vsb ∧ vsb.uid < v.view.next from
    ⟨ok, g.inv h.inv, this.1, this.2⟩
  generalize v.view = w at g
  cases g with
  | found hf' =>
      rw [hf] at hf'
      cases hf'
  | untranslated _ hw => exact key hw
  | emitted _ hw hb => exact ⟨(key hw).1, Nat.lt_succ_of_lt (key hw).2⟩

theorem held_or_lost_getFunc {r : Option Function} (h : Held a vsb u ∨ Lost a vsb u)
    (hg : VexJITCache.getFunc gen e e u = .ok (r, v)) : Held a vsb v ∨ Lost a vsb v := by
  rcases h with h | h
  · by_cases hv : u.Evicts gen e a
    · exact .inr (h.lost_of_evicts hv hg)
    · exact .inl (h.getFunc hv hg)
  · exact .inr (h.getFunc hg)

theorem Held.getCachedFPtr {q : GuestPtr} {o : Option FPtr} (h : Held a vsb u)
    (hg : VexJITCache.getCachedFPtr q u = .ok (o, v)) : Held a vsb v := by
  obtain ⟨-, hv, ok⟩ := getCachedFPtr_spec h.ok q hg
  exact ⟨ok, hv ▸ h.inv, hv ▸ h.held⟩

/-- The function of the block itself is made without another allocation. -/
theorem Held.getFunc_self {r : Option Function} (h : Held a vsb u)
    (hg : VexJITCache.getFunc gen host a u = .ok (r, v)) : Held a vsb v := by
  obtain ⟨ok, g⟩ := getFunc_spec h.ok hg
  refine ⟨ok, g.inv h.inv, ?_⟩
  have key : ∀ {r w}, GotVSB gen host a u r w → w.vexsb a = some vsb := by
    intro r w hw
    cases hw with
    | found hx => exact h.held
    | untranslated hx ht => exact h.held
    | allocated hx ht ha =>
        rw [h.held] at hx
        cases hx
  generalize v.view = w at g
  cases g with
  | found hf => exact h.held
  | untranslated hf hw => exact key hw
  | emitted hf hw hb =>
      have := key hw
      exact this

/-- A compilation enters the pointer it returns. -/
theorem compile_jit {f : Function} {L : List (GuestPtr × FnName)} {p : FPtr}
    (h : compile a f L u = .ok (p, v)) : v.view.jit a = some p := by
  obtain ⟨m, u₁, -, k₁⟩ := bind_eq_ok h
  obtain ⟨o, u₂, -, k₂⟩ := bind_eq_ok k₁
  cases o with
  | none => cases k₂
  | some q =>
      obtain ⟨_, u₃, -, k₃⟩ := bind_eq_ok k₂
      cases k₃
      simp [CacheState.view, AddrCache.find_put]

/-- `getFPtr` leaves a pointer for the address. -/
theorem getFPtr_jit (hu : u.OK) {p : FPtr}
    (hp : VexJITCache.getFPtr gen host a u = .ok (p, v)) : v.view.jit a = some p := by
  obtain ⟨o, s₁, h₁, k₁⟩ := bind_eq_ok hp
  obtain ⟨ho, hv₁, -⟩ := getCachedFPtr_spec hu a h₁
  cases o with
  | some q =>
      cases k₁
      rw [hv₁]
      exact ho.symm
  | none =>
      obtain ⟨r, s₂, -, h₃⟩ := bind_eq_ok k₁
      exact compile_jit h₃

/-- A compiled block is still there exactly when no exit took its place. -/
theorem getFPtr_live_iff (h : Held a vsb u) {p : FPtr}
    (hp : VexJITCache.getFPtr gen host a u = .ok (p, v)) :
    v.Live a vsb ↔ ∀ e w, AsksFPtr gen host a u e w → ¬w.Evicts gen e a := by
  have hJ : KeptByGet gen fun _ => True := ⟨fun _ _ _ _ => trivial, fun _ _ _ _ _ => trivial⟩
  obtain ⟨ok, hcase⟩ := getFPtr_spec (fetchInv_reached hJ) (fun q v hq => hq.jit) h.ok
    ⟨h.inv, trivial⟩ hp
  have hjit : v.cachedFPtr a ≠ none := by
    rw [ok.cachedFPtr, getFPtr_jit h.ok hp]
    simp
  rcases hcase with ⟨hj, hv⟩ | ⟨-, r, s₂, hf, -, hc⟩
  · refine ⟨fun _ e w ⟨_, s', f, s₂, h', _⟩ => ?_, fun _ => ⟨?_, hjit⟩⟩
    · obtain ⟨ho, -⟩ := getCachedFPtr_spec h.ok a h'
      rw [hj] at ho
      cases ho
    · rw [ok.cachedVSB, hv]
      exact h.held
  · constructor
    · rintro ⟨hlive, -⟩ e w hasks hev
      -- The eviction loses the superblock, unless it is lost already, and nothing brings it back.
      have hw : Held a vsb w ∨ Lost a vsb w :=
        asks_keeps (fun _ _ _ _ => held_or_lost_getFunc) hasks fun s₁ f s₃ h₁ h₂ =>
          .inl ((h.getCachedFPtr h₁).getFunc_self h₂)
      have lost : Lost a vsb s₂ := by
        refine fetch_after (fun _ _ _ _ hl hg => hl.getFunc hg) hasks (fun q x hg => ?_) hf
        rcases hw with hw | hw
        · exact hw.lost_of_evicts hev hg
        · exact hw.getFunc hg
      rw [ok.cachedVSB, hc.vexsb] at hlive
      exact lost.lost hlive
    · intro hne
      have held : Held a vsb s₂ := by
        exact (fetch_along (Held a vsb) (fun _ => True) hf
          (fun s₁ s₃ h₁ h₂ => (h.getCachedFPtr h₁).getFunc_self h₂)
          fun e w q x hasks hw hg => ⟨hw.getFunc (hne e w hasks) hg, fun _ _ => trivial⟩).1
      refine ⟨?_, hjit⟩
      rw [ok.cachedVSB, hc.vexsb]
      exact held.held

end

/-- The dispatched block. -/
theorem getSBFromGuestAddr_live_iff {M : Type} (gm : GuestMem M) (gen : GenLLVM)
    (s t : ExecState M) (p : GuestPtr) (vsb : VSB) (hs : s.cache.Reachable gen)
    (h : VexExec.getSBFromGuestAddr gm gen p s = .ok (some vsb, t)) :
    t.cache.Live p vsb ↔
      ∀ c, getVSB gen (VexExec.hostPtr gm p) p s.cache = .ok (some vsb, c) →
        ∀ e u, AsksFPtr gen (VexExec.hostPtr gm p) p c e u → ¬u.Evicts gen e p := by
  have hc : ∃ c q, getVSB gen (VexExec.hostPtr gm p) p s.cache = .ok (some vsb, c) ∧
      getFPtr gen (VexExec.hostPtr gm p) p c = .ok (q, t.cache) := by
    rcases VexExec.getSBFromGuestAddr_spec h with ⟨hn, -⟩ | ⟨-, h⟩ | ⟨m, -, h⟩
    · cases hn
    all_goals
      obtain ⟨c, h₁, ⟨hn, -⟩ | ⟨q, c', h₂, rfl⟩⟩ := VexExec.compileSB_spec h
      · cases hn
      · exact ⟨c, q, h₁, h₂⟩
  obtain ⟨c, q, h₁, h₂⟩ := hc
  obtain ⟨ok, g⟩ := getVSB_spec hs.ok h₁
  have held : Held p vsb c := ⟨ok, g.inv hs.inv, (g.cached hs.inv).2⟩
  rw [getFPtr_live_iff held h₂]
  refine ⟨fun hne c' h₁' => ?_, fun hne => hne c h₁⟩
  rw [h₁] at h₁'
  cases h₁'
  exact hne

/-- What a dispatch of the first block after some operations of the caches leaves
behind. -/
theorem exists_dispatch (ops : List CacheOp) (P : CacheState → Bool)
    (h : (match CacheOp.execAll plainGen ops (.init twoBlocks fun _ => 0) with
      | .ok (_, c) => match VexExec.getSBFromGuestAddr (listMem 0) plainGen 0x1000
          (.start c [] 0x1000) with
        | .ok (some _, t) => P t.cache
        | _ => false
      | .error _ => false) = true) :
    ∃ (s t : ExecState (List Mapping)) (vsb : VSB), s.cache.Reachable plainGen ∧
      VexExec.getSBFromGuestAddr (listMem 0) plainGen 0x1000 s = .ok (some vsb, t) ∧
      P t.cache = true := by
  cases hl : CacheOp.execAll plainGen ops (.init twoBlocks fun _ => 0) with
  | error e => rw [hl] at h; cases h
  | ok q =>
      rw [hl] at h
      have run : CacheRun plainGen AnyOp (.init twoBlocks fun _ => 0) ([] ++ ops) q.2 :=
        CacheRun.of_execAll .nil (fun _ _ _ => trivial) hl
      refine ⟨.start q.2 [] 0x1000, ?_⟩
      dsimp only at h
      split at h
      · next vsb t ht => exact ⟨t, vsb, ⟨_, _, _, run⟩, ht, h⟩
      · cases h

theorem getSBFromGuestAddr_live_block : ∃ (s t : ExecState (List Mapping)) (vsb : VSB),
    (t.cache.cachedVSB 0x1000).isSome ∧
      (t.cache.Live 0x1000 vsb ↔
        ∀ c, getVSB plainGen (VexExec.hostPtr (listMem 0) 0x1000) 0x1000 s.cache =
            .ok (some vsb, c) →
          ∀ e u, AsksFPtr plainGen (VexExec.hostPtr (listMem 0) 0x1000) 0x1000 c e u →
            ¬u.Evicts plainGen e 0x1000) := by
  obtain ⟨s, t, vsb, hs, h, hP⟩ := exists_dispatch [.setMaxCache 2]
    (fun c => (c.cachedVSB 0x1000).isSome) (by decide +kernel)
  exact ⟨s, t, vsb, hP, getSBFromGuestAddr_live_iff (listMem 0) plainGen s t 0x1000 vsb hs h⟩

/-- In a cache of one block the first exit takes the place of the dispatched block. -/
theorem getSBFromGuestAddr_not_live : ¬∀ (M : Type) (gm : GuestMem M) (gen : GenLLVM)
    (s t : ExecState M) (p : GuestPtr) (vsb : VSB), s.cache.Reachable gen →
    VexExec.getSBFromGuestAddr gm gen p s = .ok (some vsb, t) → t.cache.Live p vsb := by
  intro hall
  obtain ⟨s, t, vsb, hs, h, hP⟩ := exists_dispatch
    [.setMaxCache 2, .getFPtr 0x1000 0x1000, .setMaxCache 1]
    (fun c => (c.cachedVSB 0x1000).isNone) (by decide +kernel)
  have hlive := (hall _ _ _ s t _ vsb hs h).1
  rw [Option.isNone_iff_eq_none.1 hP] at hlive
  cases hlive

end VexLLVM
