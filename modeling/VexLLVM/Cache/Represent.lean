import VexLLVM.Cache.Flush

/-!
# The representation of the function cache

The invariant of a `VexFCache`. A lookup through a direct cache answers what the map
holds, the function map has no address the superblock map lacks, a superblock is
filed under its own address, and there are no more superblocks than the limit
allows. An allocation in a full cache evicts an entry that is there, so that there
is room afterwards.
-/

namespace VexLLVM

open StateExcept

namespace AddrCache

variable {α : Type} {c : AddrCache α}

theorem size_eq_keys : c.size = c.map.keys.length := by
  simp [size, AList.keys, List.keys]

theorem size_erase {a : GuestPtr} (h : a ∈ c.map) : (c.erase a).size + 1 = c.size := by
  rw [size_eq_keys, size_eq_keys, erase, AList.keys_erase,
    List.length_erase_add_one (AList.mem_keys.1 h)]

theorem size_erase_le (a : GuestPtr) : (c.erase a).size ≤ c.size := by
  rw [size_eq_keys, size_eq_keys, erase, AList.keys_erase]
  exact List.length_erase_le

theorem size_put_le (a : GuestPtr) (t : Option α) : (c.put a t).size ≤ c.size + 1 := by
  rw [size_eq_keys, size_eq_keys, put, AList.keys_insert, List.length_cons]
  exact Nat.succ_le_succ List.length_erase_le

@[simp] theorem size_getCached (a : GuestPtr) : (c.getCached a).2.size = c.size := by
  simp [size]

end AddrCache

/-- Every entry of the superblock map has its superblock, filed under its own address,
and there is at most the number the limit allows. -/
structure AddrCache.Stored (c : AddrCache VSB) (limit : ℕ) : Prop where
  coherent : c.Coherent
  entry : ∀ p o, c.map.lookup p = some o → ∃ x, o = some x ∧ x.guestAddr = p ∧ p ≠ 0
  size : c.size ≤ limit
  pos : 1 ≤ limit

namespace AddrCache.Stored

variable {c : AddrCache VSB} {limit : ℕ} (h : c.Stored limit)
include h

theorem mem_iff (p : GuestPtr) : p ∈ c.map ↔ c.find p ≠ none := by
  refine ⟨fun hp => ?_, find_isSome_mem⟩
  obtain ⟨o, ho⟩ := Option.isSome_iff_exists.1 (AList.lookup_isSome.2 hp)
  obtain ⟨x, rfl, -⟩ := h.entry p o ho
  simp [find, ho]

theorem getCached (a : GuestPtr) : (c.getCached a).2.Stored limit :=
  ⟨h.coherent.getCached a, by simpa using h.entry, by simpa using h.size, h.pos⟩

theorem erase (a : GuestPtr) : (c.erase a).Stored limit := by
  refine ⟨h.coherent.erase a, fun p o hp => ?_, (size_erase_le a).trans h.size, h.pos⟩
  have hne : p ≠ a := by
    rintro rfl
    simp [AddrCache.erase] at hp
  exact h.entry p o (by simpa [AddrCache.erase, AList.lookup_erase_ne hne] using hp)

theorem put {a : GuestPtr} {x : VSB} (ha : x.guestAddr = a) (h0 : a ≠ 0) (hs : c.size < limit) :
    (c.put a (some x)).Stored limit := by
  refine ⟨h.coherent.put a _, fun p o hp => ?_, (size_put_le a _).trans hs, h.pos⟩
  by_cases hpa : p = a
  · subst hpa
    obtain rfl : o = some x := by simpa [AddrCache.put, eq_comm] using hp
    exact ⟨x, rfl, ha, h0⟩
  · exact h.entry p o (by simpa [AddrCache.put, AList.lookup_insert_ne hpa] using hp)

theorem foldl_erase (ks : List GuestPtr) : (ks.foldl AddrCache.erase c).Stored limit := by
  induction ks generalizing c with
  | nil => exact h
  | cons k ks ih => exact ih (h.erase k)

/-- A larger limit. -/
theorem mono {limit' : ℕ} (hl : limit ≤ limit') : c.Stored limit' :=
  ⟨h.coherent, h.entry, h.size.trans hl, h.pos.trans hl⟩

end AddrCache.Stored

theorem AddrCache.Stored.empty {limit : ℕ} (h : 1 ≤ limit) :
    (AddrCache.empty : AddrCache VSB).Stored limit :=
  ⟨coherent_empty, fun p o hp => by simp [AddrCache.empty] at hp, Nat.zero_le _, h⟩

abbrev CacheState.Stored (s : CacheState) : Prop := s.vexsb.Stored s.maxCacheEnts

section Evict

variable (s : CacheState) (a : GuestPtr)

theorem deleteFunc_ok : ∃ t, VexJITCache.deleteFunc a s = .ok ((), t) ∧ t.vexsb = s.vexsb ∧
    t.maxCacheEnts = s.maxCacheEnts := by
  unfold VexJITCache.deleteFunc
  rw [bind_ok (getCachedFunc_eq a)]
  cases (s.func.getCached a).1 with
  | none => exact ⟨_, rfl, rfl, rfl⟩
  | some f => exact ⟨_, rfl, rfl, rfl⟩

theorem evictFunc_ok : ∃ t, VexFCache.evictFunc a s = .ok ((), t) ∧ t.vexsb = s.vexsb ∧
    t.maxCacheEnts = s.maxCacheEnts := by
  unfold VexFCache.evictFunc
  rw [bind_ok (getCachedFunc_eq a)]
  cases (s.func.getCached a).1 with
  | none => exact ⟨_, rfl, rfl, rfl⟩
  | some f => exact ⟨_, rfl, rfl, rfl⟩

variable {s}

/-- The superblock of an evicted address leaves the map. -/
theorem evictVSB_ok (h : s.Stored) : ∃ t, VexFCache.evictVSB a s = .ok ((), t) ∧
    t.maxCacheEnts = s.maxCacheEnts ∧ t.Stored ∧
    (a ∈ s.vexsb.map → t.vexsb.size + 1 = s.vexsb.size) := by
  unfold VexFCache.evictVSB
  rw [bind_ok (getCachedVSB_eq a), h.coherent.getCached_fst]
  cases hf : s.vexsb.find a with
  | none =>
      refine ⟨_, rfl, rfl, h.getCached a, fun hm => ?_⟩
      exact absurd hf ((h.mem_iff a).1 hm)
  | some x =>
      refine ⟨_, rfl, rfl, (h.getCached a).erase a, fun hm => ?_⟩
      rw [AddrCache.size_erase (by simpa using hm), AddrCache.size_getCached]

theorem evict_ok (h : s.Stored) : ∃ t, VexJITCache.evict a s = .ok ((), t) ∧
    t.maxCacheEnts = s.maxCacheEnts ∧ t.Stored ∧
    (a ∈ s.vexsb.map → t.vexsb.size + 1 = s.vexsb.size) := by
  obtain ⟨s₁, h₁, hv₁, hm₁⟩ := deleteFunc_ok s a
  unfold VexJITCache.evict VexFCache.evict
  rw [bind_ok h₁, modify_bind]
  obtain ⟨s₂, h₂, hv₂, hm₂⟩ := evictFunc_ok { s₁ with
    jit := s₁.jit.erase a
    flushed := Function.update s₁.flushed a s₁.next } a
  rw [bind_ok h₂]
  have hv : s₂.vexsb = s.vexsb := hv₂.trans hv₁
  have hm : s₂.maxCacheEnts = s.maxCacheEnts := hm₂.trans hm₁
  have hs : s₂.Stored := by
    unfold CacheState.Stored
    rw [hv, hm]
    exact h
  obtain ⟨t, h₃, hm₃, ht, hsize⟩ := evictVSB_ok a hs
  rw [hv] at hsize
  exact ⟨t, h₃, hm₃.trans hm, ht, hsize⟩

end Evict

section Allocate

variable {gen : GenLLVM} {host : HostPtr} {a : GuestPtr} {s : CacheState}

/-- The victim of a full cache is in the map. -/
theorem selectVictimAddress_mem (h : s.Stored) (hfull : s.vexsb.size = s.maxCacheEnts) :
    ∃ c, s.selectVictimAddress = some c ∧ c ∈ s.vexsb.map := by
  have hpos : 0 < s.vexsb.size := hfull ▸ h.pos
  have hlt : s.rand 0 % s.vexsb.size < s.vexsb.map.entries.length := Nat.mod_lt _ hpos
  obtain ⟨⟨k, o⟩, he⟩ : ∃ e, s.vexsb.map.entries[s.rand 0 % s.vexsb.size]? = some e :=
    ⟨_, List.getElem?_eq_getElem hlt⟩
  have hl : s.vexsb.map.lookup k = some o := AList.mem_lookup_iff.2 (List.mem_of_getElem? he)
  obtain ⟨x, rfl, hx, h0⟩ := h.entry k o hl
  refine ⟨k, ?_, AList.lookup_isSome.1 (by simp [hl])⟩
  unfold CacheState.selectVictimAddress
  rw [he]
  dsimp only
  rw [hx, if_neg h0]

/-- There is room after `makeRoom`. -/
theorem makeRoom_ok (h : s.Stored) :
    ∃ t, VexJITCache.makeRoom s = .ok ((), t) ∧ t.Stored ∧ t.vexsb.size < t.maxCacheEnts := by
  unfold VexJITCache.makeRoom
  rw [get_bind]
  by_cases hfull : s.vexsb.size = s.maxCacheEnts
  · obtain ⟨c, hc, hm⟩ := selectVictimAddress_mem h hfull
    rw [if_pos hfull, hc]
    have hs : CacheState.Stored { s with rand := fun n => s.rand (n + 1) } := h
    obtain ⟨t, ht, hmax, hst, hsize⟩ := evict_ok c hs
    have hlt : t.vexsb.size < t.maxCacheEnts := by
      rw [hmax]
      exact Nat.lt_of_succ_le ((hsize hm).trans hfull).le
    exact ⟨t, ht, hst, hlt⟩
  · rw [if_neg hfull]
    exact ⟨s, rfl, h, lt_of_le_of_ne h.size hfull⟩

/-- An allocation fails only where the translation does. -/
theorem allocCacheVSB_stored (h : s.Stored) (h0 : a ≠ 0) :
    (∃ e, VexJITCache.allocCacheVSB gen host a s = .error e ∧ s.translate gen host a = .error e) ∨
      ∃ r t, VexJITCache.allocCacheVSB gen host a s = .ok (r, t) ∧ t.Stored := by
  have hx : VexJITCache.xlate gen host a s = (s.translate gen host a).map fun o =>
      (o.map fun sb => ⟨s.next, sb⟩, o.elim s fun _ => { s with next := s.next + 1 }) := by
    unfold VexJITCache.xlate CacheState.translate
    rw [get_bind]
    cases s.code host a with
    | none => rfl
    | some irsb =>
        dsimp only
        cases VexXlate.xlate gen a irsb with
        | error e => rfl
        | ok o => cases o <;> rfl
  unfold VexJITCache.allocCacheVSB
  cases ht : s.translate gen host a with
  | error e =>
      rw [ht] at hx
      refine .inl ⟨e, ?_, rfl⟩
      change (VexJITCache.xlate gen host a s >>= _) = _
      rw [hx]
      rfl
  | ok o =>
      rw [ht] at hx
      cases o with
      | none =>
          rw [bind_ok hx]
          exact .inr ⟨none, s, rfl, h⟩
      | some sb =>
          rw [bind_ok hx]
          have hs : CacheState.Stored { s with next := s.next + 1 } := h
          obtain ⟨t, hr, hst, hlt⟩ := makeRoom_ok hs
          have hput : VexJITCache.putVSB a ⟨s.next, sb⟩ t =
              .ok ((), { t with vexsb := t.vexsb.put a (some ⟨s.next, sb⟩) }) := by
            unfold VexJITCache.putVSB
            rw [get_bind, if_pos hlt]
            rfl
          have ha : VSB.guestAddr ⟨s.next, sb⟩ = a := VexJITCache.translate_guestAddr ht
          refine .inr ⟨some ⟨s.next, sb⟩, { t with vexsb := t.vexsb.put a (some ⟨s.next, sb⟩) },
            ?_, hst.put ha h0 hlt⟩
          exact (bind_ok hr).trans ((bind_ok hput).trans rfl)

/-- No assertion of `getVSB` fails. -/
theorem getVSB_stored (gen : GenLLVM) (host : HostPtr) (h : s.Stored) (h0 : a ≠ 0) :
    (∃ e, VexJITCache.getVSB gen host a s = .error e ∧ s.translate gen host a = .error e) ∨
      ∃ r t, VexJITCache.getVSB gen host a s = .ok (r, t) ∧ t.Stored := by
  unfold VexJITCache.getVSB
  rw [bind_ok (getCachedVSB_eq a)]
  cases (s.vexsb.getCached a).1 with
  | some x => exact .inr ⟨_, _, rfl, h.getCached a⟩
  | none =>
      have hs : CacheState.Stored { s with vexsb := (s.vexsb.getCached a).2 } := h.getCached a
      exact allocCacheVSB_stored hs h0

end Allocate

def CacheView.Backed (v : CacheView) : Prop := ∀ p, v.func p ≠ none → v.vexsb p ≠ none

namespace CacheView.Backed

variable {v : CacheView}

theorem evict (h : v.Backed) (a : GuestPtr) : (v.evict a).Backed := by
  intro p hp
  simp only [CacheView.evict, Function.update_apply] at hp ⊢
  split at hp
  · exact absurd rfl hp
  · next hne => rw [if_neg hne]; exact h p hp

theorem alloc (h : v.Backed) (victim : Option GuestPtr) (a : GuestPtr) (sb : VexSB) :
    (v.alloc victim a sb).Backed := by
  have key : ∀ {w : CacheView}, w.Backed →
      CacheView.Backed { w with vexsb := Function.update w.vexsb a (some ⟨v.next, sb⟩) } := by
    intro w hw p hp
    simp only [Function.update_apply]
    split
    · simp
    · exact hw p hp
  have ht : CacheView.Backed { v with next := v.next + 1 } := h
  cases victim with
  | none => exact key ht
  | some c => exact key (ht.evict c)

theorem emit (h : v.Backed) {x : VSB} (body : LLVM.Func) (hx : v.vexsb x.guestAddr = some x) :
    (v.emit x body).Backed := by
  intro p hp
  simp only [CacheView.emit, Function.update_apply] at hp ⊢
  split at hp
  · next hpx => rw [hpx, hx]; simp
  · exact h p hp

theorem flushRange (h : v.Backed) (b e : GuestPtr) (ks : List GuestPtr) :
    (v.flushRange b e ks).Backed := by
  intro p hp
  simp only [CacheView.flushRange, CacheView.flushFuncs] at hp ⊢
  split at hp
  · exact absurd rfl hp
  · next hne => rw [if_neg hne]; exact h p hp

end CacheView.Backed

theorem kept_backed (gen : GenLLVM) : VexJITCache.Kept gen CacheView.Backed where
  alloc _ h _ _ := h.alloc _ _ _
  emit _ h hx _ _ := h.emit _ hx
  evict a _ h := h.evict a
  flush _ _ := fun _ hp => absurd rfl hp
  flushRange _ h _ _ := h.flushRange _ _ _

theorem CacheRun.backed {gen : GenLLVM} {C : CacheState → CacheOp → Prop}
    {code : HostPtr → GuestPtr → Option Vex.IRSB} {rand : ℕ → ℕ} {ops : List CacheOp}
    {s : CacheState} (run : CacheRun gen C (.init code rand) ops s) : s.view.Backed := by
  refine (run.keeps (fun s => s.OK ∧ s.view.Inv ∧ s.view.Backed)
    ⟨.init code rand, .init code rand, fun _ hp => absurd rfl hp⟩ fun s op r t hs _ h => ?_).2.2
  exact VexJITCache.exec_keeps (kept_backed gen) hs.1 hs.2.1 hs.2.2
    (fun _ _ _ _ _ hj hc p hp => by
      rw [hc.vexsb]
      exact hj p (hc.func ▸ hp)) h

/-- The operations of a `VexFCache`, on nonzero addresses and with a limit of at
least one. -/
def OnFCache : CacheState → CacheOp → Prop
  | _, .getVSB _ a | _, .getFunc _ a | _, .evict a => a ≠ 0
  | _, .flushRange b e => b ≤ e
  | _, .setMaxCache x => 1 ≤ x
  | _, .flush | _, .guestCode _ => True
  | _, .getFPtr _ _ | _, .getCachedFPtr _ => False

section Runs

variable {gen : GenLLVM} {s t : CacheState}

theorem getFunc_stored {host : HostPtr} {a : GuestPtr} {r : Option Function} (hs : s.Stored)
    (h0 : a ≠ 0) (h : VexJITCache.getFunc gen host a s = .ok (r, t)) : t.Stored := by
  unfold VexJITCache.getFunc at h
  rw [bind_ok (getCachedFunc_eq a)] at h
  cases hf : (s.func.getCached a).1 with
  | some f =>
      rw [hf] at h
      cases h
      exact hs
  | none =>
      rw [hf] at h
      have hs' : CacheState.Stored { s with func := (s.func.getCached a).2 } := hs
      obtain ⟨o, u, h₁, k₁⟩ := bind_eq_ok h
      rcases getVSB_stored gen host hs' h0 with ⟨e, he, -⟩ | ⟨o', u', hu, hst⟩
      · rw [he] at h₁
        cases h₁
      · rw [hu] at h₁
        cases h₁
        cases o with
        | none =>
            cases k₁
            exact hst
        | some vsb =>
            obtain ⟨f, h₂, -⟩ := map_eq_ok k₁
            unfold VexJITCache.genFunctionByVSB at h₂
            cases hb : vsb.sb.emit gen with
            | error e =>
                rw [hb] at h₂
                cases h₂
            | ok body =>
                rw [hb] at h₂
                cases h₂
                exact hst

theorem flushRange_stored {b e : GuestPtr} {r : Unit} (hs : s.Stored)
    (h : VexJITCache.flushRange b e s = .ok (r, t)) : t.Stored := by
  unfold VexJITCache.flushRange VexFCache.flushRange at h
  rw [get_bind] at h
  obtain ⟨ks, u, h₁, k₁⟩ := bind_eq_ok h
  obtain ⟨-, rfl⟩ := inRange_eq_ok.1 h₁
  rw [modify_bind, get_bind] at k₁
  obtain ⟨ks₂, u₂, h₂, k₂⟩ := bind_eq_ok k₁
  obtain ⟨-, rfl⟩ := inRange_eq_ok.1 h₂
  rw [modify_bind, get_bind] at k₂
  obtain ⟨ks₃, u₃, h₃, k₃⟩ := bind_eq_ok k₂
  obtain ⟨-, rfl⟩ := inRange_eq_ok.1 h₃
  rw [get_bind] at k₃
  obtain ⟨_, u₄, h₄, k₄⟩ := bind_eq_ok k₃
  have hr : ∀ (fs : List Function) (x y : CacheState), fs.forM VexFCache.release x = .ok ((), y) →
      y.vexsb = x.vexsb ∧ y.maxCacheEnts = x.maxCacheEnts := by
    intro fs
    induction fs with
    | nil =>
        intro x y hxy
        cases hxy
        exact ⟨rfl, rfl⟩
    | cons f fs ih =>
        intro x y hxy
        obtain ⟨_, z, hz, hy⟩ := bind_eq_ok hxy
        cases hz
        have := ih _ y hy
        exact this
  obtain ⟨hv, hm⟩ := hr _ _ _ h₄
  cases k₄
  have := hs.foldl_erase ks₂
  unfold CacheState.Stored
  dsimp only
  rw [hv, hm]
  exact this

/-- One operation on a state that is stored. -/
theorem exec_stored {op : CacheOp} {r : Option FPtr} (hs : s.Stored) (hc : OnFCache s op)
    (h : op.exec gen s = .ok (r, t)) : t.Stored := by
  cases op with
  | getVSB host a =>
      obtain ⟨x, h, -⟩ := map_eq_ok h
      rcases getVSB_stored gen host hs hc with ⟨e, he, -⟩ | ⟨o, u, hu, hst⟩
      · rw [he] at h
        cases h
      · rw [hu] at h
        cases h
        exact hst
  | getFunc host a =>
      obtain ⟨x, h, -⟩ := map_eq_ok h
      exact getFunc_stored hs hc h
  | getFPtr host a => exact hc.elim
  | getCachedFPtr a => exact hc.elim
  | evict a =>
      obtain ⟨x, h, -⟩ := map_eq_ok h
      obtain ⟨u, hu, -, hst, -⟩ := evict_ok a hs
      rw [hu] at h
      cases h
      exact hst
  | flush =>
      obtain ⟨x, h, -⟩ := map_eq_ok h
      cases h
      exact .empty hs.pos
  | flushRange b e =>
      obtain ⟨x, h, -⟩ := map_eq_ok h
      exact flushRange_stored hs h
  | setMaxCache x =>
      obtain ⟨_, h, -⟩ := map_eq_ok h
      unfold VexJITCache.setMaxCache at h
      rw [get_bind] at h
      split at h
      · cases h
        exact .empty hc
      · next hx =>
          cases h
          exact hs.mono (Nat.le_of_not_lt hx)
  | guestCode code =>
      cases h
      exact hs

structure CacheState.Represented (s : CacheState) : Prop where
  cachedVSB : ∀ p, s.cachedVSB p = s.vexsb.find p
  cachedFunc : ∀ p, s.cachedFunc p = s.func.find p
  backed : ∀ p ∈ s.func.map, p ∈ s.vexsb.map
  guestAddr : ∀ p ∈ s.vexsb.map, ∃ x, s.vexsb.find p = some x ∧ x.guestAddr = p
  size : s.vexsb.size ≤ s.maxCacheEnts

/-- The representation invariant. -/
theorem vexFCache_represented (gen : GenLLVM) (code : HostPtr → GuestPtr → Option Vex.IRSB)
    (rand : ℕ → ℕ) (ops : List CacheOp) (s : CacheState)
    (run : CacheRun gen OnFCache (.init code rand) ops s) :
    s.Represented ∧ ∀ host a, a ≠ 0 → ∀ e, VexJITCache.getVSB gen host a s = .error e →
      s.translate gen host a = .error e := by
  have ok := run.inv.1
  have hs : s.Stored := by
    refine run.keeps CacheState.Stored (.empty (show 1 ≤ 2 ^ 32 - 1 by decide)) fun s op r t hs hc h => ?_
    exact exec_stored hs hc h
  refine ⟨⟨ok.cachedVSB, ok.cachedFunc, fun p hp => ?_, fun p hp => ?_, hs.size⟩, ?_⟩
  · exact (hs.mem_iff p).2 (run.backed p (ok.hasFunc p hp))
  · obtain ⟨o, ho⟩ := Option.isSome_iff_exists.1 (AList.lookup_isSome.2 hp)
    obtain ⟨x, rfl, hx, -⟩ := hs.entry p o ho
    exact ⟨x, by simp [AddrCache.find, ho], hx⟩
  · intro host a h0 e he
    rcases getVSB_stored gen host hs h0 with ⟨e', he', ht⟩ | ⟨o, u, hu, -⟩
    · rw [he] at he'
      cases he'
      exact ht
    · rw [he] at hu
      cases hu

/-- A second block in a cache of one. -/
theorem vexFCache_represented_full : ∃ s, CacheRun plainGen OnFCache (.init twoBlocks fun _ => 0)
    [.setMaxCache 1, .getFunc 0x1000 0x1000, .getFunc 0x2000 0x2000] s ∧
      (s.cachedFunc 0x2000).isSome ∧ s.Represented := by
  obtain ⟨s, run, hs⟩ := CacheRun.exists_of_check plainGen OnFCache (.init twoBlocks fun _ => 0)
    [.setMaxCache 1, .getFunc 0x1000 0x1000, .getFunc 0x2000 0x2000]
    (fun s => (s.cachedFunc 0x2000).isSome) (by simp [OnFCache]) (by decide +kernel)
  exact ⟨s, run, hs, (vexFCache_represented _ _ _ _ s run).1⟩

end Runs

end VexLLVM
