import VexLLVM.Cache.View
import Mathlib.Data.List.Dedup

/-!
# What a request does

`getVSB`, `getFunc` and the two halves of `getFPtr` on the view: what they can
find, what they allocate, which names a prefetch reaches and which pointers are
entered.
-/

namespace VexLLVM

open StateExcept

namespace VexJITCache

theorem makeRoom_spec {s t : CacheState} {r : Unit} (hs : s.OK) (h : makeRoom s = .ok (r, t)) :
    t.OK ∧ t.view = s.victim?.elim s.view s.view.evict := by
  unfold makeRoom at h
  rw [get_bind] at h
  unfold CacheState.victim?
  by_cases hf : s.vexsb.size = s.maxCacheEnts
  · rw [if_pos hf] at h ⊢
    cases hv : s.selectVictimAddress with
    | none => rw [hv] at h; cases h
    | some a =>
        rw [hv] at h
        have hr : { s with rand := fun n => s.rand (n + 1) }.OK := hs.of_eq rfl rfl rfl
        exact evict_spec hr h
  · rw [if_neg hf] at h ⊢
    cases h
    exact ⟨hs, rfl⟩

theorem putVSB_spec {s t : CacheState} {r : Unit} (hs : s.OK) {a : GuestPtr} {vsb : VSB}
    (h : putVSB a vsb s = .ok (r, t)) :
    t.OK ∧ t.view = { s.view with vexsb := Function.update s.view.vexsb a (some vsb) } := by
  unfold putVSB at h
  rw [get_bind] at h
  split at h
  · cases h
    refine ⟨⟨hs.vexsb.put a _, hs.func, hs.jit, hs.hasFunc⟩, ?_⟩
    simp only [CacheState.view]
    congr 1
    funext q
    rw [AddrCache.find_put, Function.update_apply]
  · cases h

variable {gen : GenLLVM}

theorem xlate_spec {s t : CacheState} {host : HostPtr} {a : GuestPtr} {r : Option VSB}
    (h : xlate gen host a s = .ok (r, t)) :
    (r = none ∧ t = s ∧ s.translate gen host a = .ok none) ∨
      ∃ sb, s.translate gen host a = .ok (some sb) ∧ r = some ⟨s.next, sb⟩ ∧
        t = { s with next := s.next + 1 } := by
  unfold xlate at h
  rw [get_bind] at h
  unfold CacheState.translate
  cases hc : s.code host a with
  | none =>
      simp only [hc] at h ⊢
      cases h
      exact .inl ⟨rfl, rfl, trivial⟩
  | some irsb =>
      simp only [hc] at h ⊢
      cases hx : VexXlate.xlate gen a irsb with
      | error e => rw [hx] at h; cases h
      | ok o =>
          rw [hx] at h
          cases o with
          | none => cases h; exact .inl ⟨rfl, rfl, rfl⟩
          | some sb => cases h; exact .inr ⟨sb, rfl, rfl, rfl⟩

/-- What `getVSB` does: it finds the superblock, fails to translate, or allocates. -/
inductive GotVSB (gen : GenLLVM) (host : HostPtr) (a : GuestPtr) (s : CacheState) :
    Option VSB → CacheView → Prop where
  | found {vsb : VSB} (h : s.view.vexsb a = some vsb) : GotVSB gen host a s (some vsb) s.view
  | untranslated (h : s.view.vexsb a = none) (ht : s.translate gen host a = .ok none) :
      GotVSB gen host a s none s.view
  | allocated {sb : VexSB} (h : s.view.vexsb a = none)
      (ht : s.translate gen host a = .ok (some sb)) (ha : sb.guestAddr = a) :
      GotVSB gen host a s (some ⟨s.next, sb⟩) (s.view.alloc s.victim? a sb)

theorem translate_guestAddr {s : CacheState} {host : HostPtr} {a : GuestPtr} {sb : VexSB}
    (h : s.translate gen host a = .ok (some sb)) : sb.guestAddr = a := by
  unfold CacheState.translate at h
  split at h
  · cases h
  · exact VexXlate.xlate_guestAddr h

theorem exists_xlate {s : CacheState} {host : HostPtr} {a : GuestPtr} {sb : VexSB}
    (h : s.translate gen host a = .ok (some sb)) :
    ∃ irsb, VexXlate.xlate gen a irsb = .ok (some sb) := by
  unfold CacheState.translate at h
  split at h
  · cases h
  · exact ⟨_, h⟩

theorem getVSB_spec {s t : CacheState} (hs : s.OK) {host : HostPtr} {a : GuestPtr} {r : Option VSB}
    (h : getVSB gen host a s = .ok (r, t)) : t.OK ∧ GotVSB gen host a s r t.view := by
  obtain ⟨o, s₁, h₁, k₁⟩ := bind_eq_ok h
  obtain ⟨ho, hv₁, ok₁, hvic, hcode⟩ := getCachedVSB_spec hs a h₁
  have htr : s₁.translate gen host a = s.translate gen host a := by
    simp only [CacheState.translate, hcode]
  cases o with
  | some vsb =>
      cases k₁
      exact ⟨ok₁, hv₁ ▸ .found ho.symm⟩
  | none =>
      obtain ⟨x, s₂, h₂, k₂⟩ := bind_eq_ok k₁
      rcases xlate_spec h₂ with ⟨hx, hs₂, ht⟩ | ⟨sb, ht, hx, hs₂⟩
      · subst hx hs₂
        cases k₂
        exact ⟨ok₁, hv₁ ▸ .untranslated ho.symm (htr ▸ ht)⟩
      · subst hx hs₂
        obtain ⟨_, s₃, h₃, k₃⟩ := bind_eq_ok k₂
        have ok₂ : { s₁ with next := s₁.next + 1 }.OK := ok₁.of_eq rfl rfl rfl
        obtain ⟨ok₃, hv₃⟩ := makeRoom_spec ok₂ h₃
        obtain ⟨_, s₄, h₄, k₄⟩ := bind_eq_ok k₃
        obtain ⟨ok₄, hv₄⟩ := putVSB_spec ok₃ h₄
        cases k₄
        refine ⟨ok₄, ?_⟩
        have hn : s₁.next = s.next := congrArg CacheView.next hv₁
        have hv : t.view = s.view.alloc s.victim? a sb := by
          rw [hv₄, hv₃, ← hv₁, ← hvic]
          rfl
        rw [hv, hn]
        exact .allocated ho.symm (htr ▸ ht) (translate_guestAddr (htr ▸ ht))

theorem genFunctionByVSB_spec {s t : CacheState} (hs : s.OK) {vsb : VSB} {f : Function}
    (h : genFunctionByVSB gen vsb s = .ok (f, t)) :
    t.OK ∧ ∃ body, vsb.sb.emit gen = .ok body ∧ f = s.view.newFunc vsb body ∧
      t.view = s.view.emit vsb body := by
  unfold genFunctionByVSB at h
  cases he : vsb.sb.emit gen with
  | error e => rw [he] at h; cases h
  | ok body =>
      rw [he] at h
      cases h
      refine ⟨⟨hs.vexsb, hs.func.put _ _, hs.jit, fun q hq => ?_⟩, body, rfl, rfl, ?_⟩
      · rw [AddrCache.find_put]
        by_cases hqa : q = vsb.guestAddr
        · simp [hqa]
        · have hq : q ∈ s.func.map := (AList.mem_insert _).1 hq |>.resolve_left hqa
          simpa [hqa] using hs.hasFunc q hq
      · simp only [CacheState.view, CacheView.emit, CacheView.newFunc]
        congr 1
        funext q
        rw [AddrCache.find_put, Function.update_apply]

/-- What `getFunc` does: it finds the function, has no superblock, or emits. -/
inductive GotFunc (gen : GenLLVM) (host : HostPtr) (a : GuestPtr) (s : CacheState) :
    Option Function → CacheView → Prop where
  | found {f : Function} (h : s.view.func a = some f) : GotFunc gen host a s (some f) s.view
  | untranslated {w : CacheView} (h : s.view.func a = none) (hv : GotVSB gen host a s none w) :
      GotFunc gen host a s none w
  | emitted {w : CacheView} {vsb : VSB} {body : LLVM.Func} (h : s.view.func a = none)
      (hv : GotVSB gen host a s (some vsb) w) (hb : vsb.sb.emit gen = .ok body) :
      GotFunc gen host a s (some (w.newFunc vsb body)) (w.emit vsb body)

theorem GotVSB.of_eq {s t : CacheState} {host : HostPtr} {a : GuestPtr} {r : Option VSB}
    {w : CacheView} (h : GotVSB gen host a t r w) (hv : t.view = s.view)
    (hvic : t.victim? = s.victim?) (hcode : t.code = s.code) : GotVSB gen host a s r w := by
  have htr : t.translate gen host a = s.translate gen host a := by
    simp only [CacheState.translate, hcode]
  have hn : t.next = s.next := congrArg CacheView.next hv
  cases h with
  | found h => exact hv ▸ .found (hv ▸ h)
  | untranslated h ht => exact hv ▸ .untranslated (hv ▸ h) (htr ▸ ht)
  | allocated h ht ha =>
      rw [hv, hvic, hn]
      exact .allocated (hv ▸ h) (htr ▸ ht) ha

theorem getFunc_spec {s t : CacheState} (hs : s.OK) {host : HostPtr} {a : GuestPtr}
    {r : Option Function} (h : getFunc gen host a s = .ok (r, t)) :
    t.OK ∧ GotFunc gen host a s r t.view := by
  obtain ⟨o, s₁, h₁, k₁⟩ := bind_eq_ok h
  obtain ⟨ho, hv₁, ok₁, hvic, hcode⟩ := getCachedFunc_spec hs a h₁
  cases o with
  | some f =>
      cases k₁
      exact ⟨ok₁, hv₁ ▸ .found ho.symm⟩
  | none =>
      obtain ⟨x, s₂, h₂, k₂⟩ := bind_eq_ok k₁
      obtain ⟨ok₂, g₂⟩ := getVSB_spec ok₁ h₂
      have g₂ := g₂.of_eq hv₁ hvic hcode
      cases x with
      | none =>
          cases k₂
          exact ⟨ok₂, .untranslated ho.symm g₂⟩
      | some vsb =>
          obtain ⟨f, h₃, rfl⟩ := map_eq_ok k₂
          obtain ⟨ok₃, body, hb, rfl, hv₃⟩ := genFunctionByVSB_spec ok₂ h₃
          exact ⟨ok₃, hv₃ ▸ .emitted ho.symm g₂ hb⟩

section Prefetch

/-- What one `getFunc` keeps, and what it establishes of the name it returns. -/
structure FetchInv (gen : GenLLVM) (J : CacheView → Prop)
    (K : GuestPtr × FnName → CacheView → Prop) : Prop where
  step : ∀ {s host a r w}, s.OK → J s.view → GotFunc gen host a s r w → J w
  keep : ∀ {s host a r w q}, s.OK → J s.view → GotFunc gen host a s r w → K q s.view → K q w
  add : ∀ {s host a f w}, s.OK → J s.view → s.view.jit a = none →
    GotFunc gen host a s (some f) w → K (a, f.name) w

variable {J : CacheView → Prop} {K : GuestPtr × FnName → CacheView → Prop}

/-- The prefetch has reached names that all have the property. -/
def Fetched (J : CacheView → Prop) (K : GuestPtr × FnName → CacheView → Prop)
    (L : List (GuestPtr × FnName)) (s : CacheState) : Prop :=
  s.OK ∧ J s.view ∧ ∀ q ∈ L, K q s.view

theorem fetchExit_spec (hI : FetchInv gen J K) (L : List (GuestPtr × FnName)) (w : Fetch)
    (addr : GuestPtr) :
    Triple (Fetched J K (L ++ w.fnames)) (fetchExit gen w addr)
      fun w' => Fetched J K (L ++ w'.fnames) := by
  rintro s ⟨ok, hJ, hK⟩ w' t h
  unfold fetchExit at h
  rw [get_bind] at h
  by_cases hm : addr ∈ s.jit.map
  · rw [if_pos hm] at h
    cases h
    exact ⟨ok, hJ, hK⟩
  rw [if_neg hm] at h
  have hj : s.view.jit addr = none := by
    by_contra hne
    exact hm (AddrCache.find_isSome_mem hne)
  obtain ⟨o, s₁, h₁, k₁⟩ := bind_eq_ok h
  obtain ⟨ok₁, g₁⟩ := getFunc_spec ok h₁
  have old : Fetched J K (L ++ w.fnames) s₁ :=
    ⟨ok₁, hI.step ok hJ g₁, fun q hq => hI.keep ok hJ g₁ (hK q hq)⟩
  cases o with
  | none =>
      cases k₁
      exact old
  | some f =>
      dsimp only at k₁
      split at k₁
      · cases k₁
        exact old
      · cases k₁
        refine ⟨ok₁, old.2.1, fun q hq => ?_⟩
        rcases List.mem_append.1 hq with hq | hq
        · exact old.2.2 q (List.mem_append_left _ hq)
        · rcases List.mem_cons.1 hq with rfl | hq
          · exact hI.add ok hJ hj g₁
          · exact old.2.2 q (List.mem_append_right _ hq)

theorem fetchLoop_spec (hI : FetchInv gen J K) (L : List (GuestPtr × FnName)) (n : ℕ) (w : Fetch) :
    Triple (Fetched J K (L ++ w.fnames)) (fetchLoop gen n w)
      fun w' => Fetched J K (L ++ w'.fnames) := by
  induction n generalizing w with
  | zero => exact .pure fun _ => id
  | succ n ih =>
      unfold fetchLoop
      cases w.workset with
      | nil => exact .pure fun _ => id
      | cons f l =>
          refine (Triple.foldlM (I := fun w' => Fetched J K (L ++ w'.fnames)) _
            (fun w c _ => fetchExit_spec hI L w c) w).bind fun w' => ?_
          dsimp only
          split
          · exact .pure fun _ => id
          · exact ih ⟨w'.fnames, f :: w'.complete, w'.workset.tail⟩

theorem fetch_spec (hI : FetchInv gen J K) {s t : CacheState} {host : HostPtr} {a : GuestPtr}
    {r : Function × List (GuestPtr × FnName)} (hs : s.OK) (hJ : J s.view)
    (ha : s.view.jit a = none) (h : fetch gen host a s = .ok (r, t)) :
    Fetched J K ((a, r.1.name) :: r.2) t := by
  obtain ⟨o, s₁, h₁, k₁⟩ := bind_eq_ok h
  obtain ⟨ok₁, g₁⟩ := getFunc_spec hs h₁
  cases o with
  | none => cases k₁
  | some f =>
      have hK : ∀ q ∈ [(a, f.name)] ++ ([] : List (GuestPtr × FnName)), K q s₁.view := by
        intro q hq
        obtain rfl : q = (a, f.name) := by simpa using hq
        exact hI.add hs hJ ha g₁
      have start : Fetched J K ([(a, f.name)] ++ []) s₁ := ⟨ok₁, hI.step hs hJ g₁, hK⟩
      obtain ⟨L, s₂, h₂, k₂⟩ := bind_eq_ok k₁
      cases k₂
      unfold fetchExits at h₂
      split at h₂
      · obtain ⟨w, s₃, h₃, k₃⟩ := bind_eq_ok h₂
        have done := fetchLoop_spec hI [(a, f.name)] 3 ⟨[], [], [f]⟩ s₁ start w s₃ h₃
        cases k₃
        refine ⟨done.1, done.2.1, fun q hq => done.2.2 q ?_⟩
        simpa using hq
      · cases h₂
        exact start

end Prefetch

/-- What `compile` does: the table of the engine, the pointers entered, and the
module that is destroyed. -/
structure Compiled (v : CacheView) (a : GuestPtr) (f : Function) (L : List (GuestPtr × FnName))
    (p : FPtr) (w : CacheView) : Prop where
  funcAddrs : w.funcAddrs =
    if (v.funcAddrs.lookup f.name).isSome then v.funcAddrs
    else JITEngine.addFunctions v.funcAddrs v.genMod.fns
  named : w.funcAddrs.lookup f.name = some p
  jit : ∀ q x, w.jit q = some x →
    (q = a ∧ x = p) ∨ (∃ n, (q, n) ∈ L ∧ w.funcAddrs.lookup n = some x) ∨ v.jit q = some x
  vexsb : w.vexsb = v.vexsb
  func : w.func = v.func
  genMod : w.genMod = ⟨v.next, [], 0⟩
  next : w.next = v.next + 1
  destroyed : w.destroyed = v.genMod.id :: v.destroyed
  released : w.released = v.released
  flushed : w.flushed = v.flushed

theorem getPointerToFunction_spec {s t : CacheState} (hs : s.OK) {f : Function} {m : Module}
    {o : Option FPtr} (h : JITEngine.getPointerToFunction f m s = .ok (o, t)) :
    t.OK ∧ t.funcAddrs.lookup f.name = o ∧ t.jit = s.jit ∧
      t.view = { s.view with
        destroyed := m.id :: s.destroyed
        funcAddrs := if (s.funcAddrs.lookup f.name).isSome then s.funcAddrs
          else JITEngine.addFunctions s.funcAddrs m.fns } := by
  obtain ⟨o', s₁, h₁, k₁⟩ := bind_eq_ok h
  cases h₁
  cases hl : s.funcAddrs.lookup f.name with
  | some p =>
      rw [hl] at k₁
      cases k₁
      exact ⟨hs.of_eq rfl rfl rfl, hl, rfl, rfl⟩
  | none =>
      rw [hl] at k₁
      cases k₁
      exact ⟨hs.of_eq rfl rfl rfl, rfl, rfl, rfl⟩

/-- Entering pointers: into addresses the direct cache does not answer. -/
theorem enter_spec {L : List (GuestPtr × FnName)} {s t : CacheState} {r : Unit} (hs : s.OK)
    (hL : ∀ q ∈ L, s.jit.dc.get q.1 = none) (h : L.forM enter s = .ok (r, t)) :
    t.OK ∧ t.view = { s.view with jit := t.view.jit } ∧
      ∀ q x, t.view.jit q = some x →
        (∃ n, (q, n) ∈ L ∧ s.funcAddrs.lookup n = some x) ∨ s.view.jit q = some x := by
  induction L generalizing s with
  | nil =>
      cases h
      exact ⟨hs, rfl, fun q x => .inr⟩
  | cons c L ih =>
      obtain ⟨_, s₁, h₁, k₁⟩ := bind_eq_ok h
      cases h₁
      have ok₁ : { s with jit := s.jit.assign c.1 (s.funcAddrs.lookup c.2) }.OK :=
        ⟨hs.vexsb, hs.func, hs.jit.assign _ (hL c (by simp)), hs.hasFunc⟩
      obtain ⟨ok, hv, hj⟩ := ih ok₁ (fun q hq => hL q (by simp [hq])) k₁
      refine ⟨ok, hv, fun q x hx => ?_⟩
      rcases hj q x hx with ⟨n, hn, hl⟩ | hx
      · exact .inl ⟨n, by simp [hn], hl⟩
      · simp only [CacheState.view, AddrCache.find_assign] at hx
        split at hx
        · next hq => exact .inl ⟨c.2, by simp [hq], hx⟩
        · exact .inr hx

theorem compile_spec {s t : CacheState} (hs : s.OK) {a : GuestPtr} {f : Function}
    {L : List (GuestPtr × FnName)} {p : FPtr} (hL : ∀ q ∈ L, s.view.jit q.1 = none)
    (h : compile a f L s = .ok (p, t)) : t.OK ∧ Compiled s.view a f L p t.view := by
  obtain ⟨m, s₁, h₁, k₁⟩ := bind_eq_ok h
  cases h₁
  obtain ⟨o, s₂, h₂, k₂⟩ := bind_eq_ok k₁
  have ok₁ : { s with next := s.next + 1, genMod := ⟨s.next, [], 0⟩ }.OK := hs.of_eq rfl rfl rfl
  obtain ⟨ok₂, hn₂, hj₂, hv₂⟩ := getPointerToFunction_spec ok₁ h₂
  cases o with
  | none => cases k₂
  | some p' =>
      obtain ⟨_, s₃, h₃, k₃⟩ := bind_eq_ok k₂
      have hd : ∀ q ∈ L, s₂.jit.dc.get q.1 = none := by
        intro q hq
        rw [hj₂]
        cases hg : s.jit.dc.get q.1 with
        | none => rfl
        | some x =>
            exact absurd (hs.jit _ _ hg) (by rw [show s.jit.find q.1 = none from hL q hq]; simp)
      obtain ⟨ok₃, hv₃, hj₃⟩ := enter_spec ok₂ hd h₃
      cases k₃
      rw [hv₂] at hv₃
      have hfa : s₃.funcAddrs = s₂.funcAddrs :=
        (congrArg CacheView.funcAddrs hv₃).trans (congrArg CacheView.funcAddrs hv₂).symm
      refine ⟨⟨ok₃.vexsb, ok₃.func, ok₃.jit.put a (some p), ok₃.hasFunc⟩,
        (congrArg CacheView.funcAddrs hv₃ :), (congrArg _ hfa).trans hn₂, fun q x hx => ?_,
        (congrArg CacheView.vexsb hv₃ :), (congrArg CacheView.func hv₃ :),
        (congrArg CacheView.genMod hv₃ :), (congrArg CacheView.next hv₃ :),
        (congrArg CacheView.destroyed hv₃ :), (congrArg CacheView.released hv₃ :),
        (congrArg CacheView.flushed hv₃ :)⟩
      simp only [CacheState.view, AddrCache.find_put] at hx
      split at hx
      · next hq => exact .inl ⟨hq, by simpa using hx.symm⟩
      · rcases hj₃ q x hx with ⟨n, hn, hl⟩ | hx
        · exact .inr (.inl ⟨n, hn, (congrArg _ hfa).trans hl⟩)
        · exact .inr (.inr ((congrArg (fun c => CacheView.jit c q) hv₂).symm.trans hx))

/-- The half-way states of a `getFPtr` that does not find its pointer. -/
def Fetches (gen : GenLLVM) (host : HostPtr) (a : GuestPtr) (s : CacheState)
    (r : Function × List (GuestPtr × FnName)) (u : CacheState) : Prop :=
  ∃ s', getCachedFPtr a s = .ok (none, s') ∧ fetch gen host a s' = .ok (r, u)

/-- What `getFPtr` does: it finds the pointer, or fetches and compiles. -/
theorem getFPtr_spec {J : CacheView → Prop} {K : GuestPtr × FnName → CacheView → Prop}
    (hI : FetchInv gen J K) (hK : ∀ q v, K q v → v.jit q.1 = none) {s t : CacheState}
    {host : HostPtr} {a : GuestPtr} {p : FPtr} (hs : s.OK) (hJ : J s.view)
    (h : getFPtr gen host a s = .ok (p, t)) :
    t.OK ∧ ((s.view.jit a = some p ∧ t.view = s.view) ∨
      (s.view.jit a = none ∧ ∃ r u, Fetches gen host a s r u ∧
        Fetched J K ((a, r.1.name) :: r.2) u ∧ Compiled u.view a r.1 r.2 p t.view)) := by
  obtain ⟨o, s₁, h₁, k₁⟩ := bind_eq_ok h
  obtain ⟨ho, hv₁, ok₁⟩ := getCachedFPtr_spec hs a h₁
  cases o with
  | some p =>
      cases k₁
      exact ⟨ok₁, .inl ⟨ho.symm, hv₁⟩⟩
  | none =>
      obtain ⟨r, u, h₂, k₂⟩ := bind_eq_ok k₁
      have hf := fetch_spec hI ok₁ (hv₁ ▸ hJ) (by rw [hv₁]; exact ho.symm) h₂
      have hL : ∀ q ∈ r.2, u.view.jit q.1 = none :=
        fun q hq => hK q _ (hf.2.2 q (List.mem_cons_of_mem _ hq))
      obtain ⟨ok₃, hc⟩ := compile_spec hf.1 hL k₂
      exact ⟨ok₃, .inr ⟨ho.symm, r, u, ⟨s₁, h₁, h₂⟩, hf, hc⟩⟩

end VexJITCache

end VexLLVM
