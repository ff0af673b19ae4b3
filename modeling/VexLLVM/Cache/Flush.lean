import VexLLVM.Cache.Invariant

/-!
# Ranged flush

`VexJITCache::flush(begin, end)` finds the compiled code of a range through the
function map. It empties the range in all three caches, and touches nothing else,
exactly when every compiled address of the range has a function entry. The
entries of a `getFPtr` call keep to that unless the prefetch evicts an address
whose code it goes on to enter.
-/

namespace VexLLVM

open StateExcept VexJITCache

def answer {α : Type} (m : CacheM (Option α)) (s : CacheState) : Option α :=
  match m s with
  | .ok (r, _) => r
  | .error _ => none

namespace CacheState

def cachedVSB (s : CacheState) (p : GuestPtr) : Option VSB := answer (VexFCache.getCachedVSB p) s

def cachedFunc (s : CacheState) (p : GuestPtr) : Option Function :=
  answer (VexFCache.getCachedFunc p) s

def cachedFPtr (s : CacheState) (p : GuestPtr) : Option FPtr :=
  answer (VexJITCache.getCachedFPtr p) s

def Uncached (s : CacheState) (p : GuestPtr) : Prop :=
  s.cachedVSB p = none ∧ s.cachedFunc p = none ∧ s.cachedFPtr p = none

def SameAt (s t : CacheState) (p : GuestPtr) : Prop :=
  t.cachedVSB p = s.cachedVSB p ∧ t.cachedFunc p = s.cachedFunc p ∧ t.cachedFPtr p = s.cachedFPtr p

/-- `flush(b, e)` ends, nothing is cached in the range, and everything is as before
outside of it. -/
def FlushExact (s : CacheState) (b e : GuestPtr) : Prop :=
  ∃ t, VexJITCache.flushRange b e s = .ok ((), t) ∧
    ∀ p, (b ≤ p ∧ p ≤ e → t.Uncached p) ∧ (¬(b ≤ p ∧ p ≤ e) → s.SameAt t p)

variable {s : CacheState} (hs : s.OK)
include hs

theorem OK.cachedVSB (p : GuestPtr) : s.cachedVSB p = s.view.vexsb p := hs.vexsb.getCached_fst p

theorem OK.cachedFunc (p : GuestPtr) : s.cachedFunc p = s.view.func p := hs.func.getCached_fst p

theorem OK.cachedFPtr (p : GuestPtr) : s.cachedFPtr p = s.view.jit p := hs.jit.getCached_fst p

end CacheState

/-- Compiled code has a function entry. -/
def CacheView.Filed (v : CacheView) : Prop := ∀ p, v.jit p ≠ none → v.func p ≠ none

namespace CacheView.Filed

variable {v : CacheView}

theorem evict (h : v.Filed) (a : GuestPtr) : (v.evict a).Filed := by
  intro p hp
  simp only [CacheView.evict, Function.update_apply] at hp ⊢
  split at hp
  · exact absurd rfl hp
  · next hne => rw [if_neg hne]; exact h p hp

theorem alloc (h : v.Filed) (victim : Option GuestPtr) (a : GuestPtr) (sb : VexSB) :
    (v.alloc victim a sb).Filed := by
  cases victim with
  | none => exact h
  | some c =>
      have ht : CacheView.Filed { v with next := v.next + 1 } := h
      exact ht.evict c

theorem emit (h : v.Filed) (x : VSB) (body : LLVM.Func) : (v.emit x body).Filed := by
  intro p hp
  simp only [CacheView.emit, Function.update_apply]
  split
  · simp
  · exact h p hp

theorem flushRange (h : v.Filed) {b e : GuestPtr} {ks : List GuestPtr}
    (hks : ∀ p, p ∈ ks ↔ v.func p ≠ none ∧ b ≤ p ∧ p ≤ e) : (v.flushRange b e ks).Filed := by
  intro p hp
  have hp : p ∉ ks ∧ v.jit p ≠ none := by simpa [CacheView.flushRange] using hp
  have hf := h p hp.2
  have hr : ¬(b ≤ p ∧ p ≤ e) := fun hr => hp.1 ((hks p).2 ⟨hf, hr⟩)
  simpa [CacheView.flushRange, CacheView.flushFuncs, hr] using hf

end CacheView.Filed

section Ranged

variable {s : CacheState} {b e : GuestPtr}

theorem inRange_eq_ok {α : Type} {c : AddrCache α} {t : CacheState} {ks : List GuestPtr} :
    VexFCache.inRange c b e s = .ok (ks, t) ↔ c.range b e = some ks ∧ t = s := by
  unfold VexFCache.inRange
  cases c.range b e with
  | none =>
      constructor
      · intro h
        cases h
      · rintro ⟨h, -⟩
        cases h
  | some l =>
      constructor
      · intro h
        cases h
        exact ⟨rfl, rfl⟩
      · rintro ⟨h, rfl⟩
        cases h
        rfl

/-- A range is flushed when the two maps can be iterated over it. -/
theorem flushRange_ok_iff (s : CacheState) :
    (∃ t, VexJITCache.flushRange b e s = .ok ((), t)) ↔
      s.vexsb.range b e ≠ none ∧ s.func.range b e ≠ none := by
  unfold VexJITCache.flushRange VexFCache.flushRange
  rw [get_bind]
  constructor
  · rintro ⟨t, h⟩
    obtain ⟨ks, u, h₁, k₁⟩ := bind_eq_ok h
    obtain ⟨hf, rfl⟩ := inRange_eq_ok.1 h₁
    rw [modify_bind, get_bind] at k₁
    obtain ⟨ks₂, u₂, h₂, -⟩ := bind_eq_ok k₁
    have hv := (inRange_eq_ok.1 h₂).1
    exact ⟨by simp [hv], by simp [hf]⟩
  · rintro ⟨hv, hf⟩
    obtain ⟨ks, hf⟩ := Option.ne_none_iff_exists'.1 hf
    obtain ⟨ks₂, hv⟩ := Option.ne_none_iff_exists'.1 hv
    rw [bind_ok (inRange_eq_ok.2 ⟨hf, rfl⟩), modify_bind, get_bind,
      bind_ok (inRange_eq_ok.2 ⟨hv, rfl⟩), modify_bind, get_bind,
      bind_ok (inRange_eq_ok.2 ⟨hf, rfl⟩), get_bind]
    obtain ⟨t, h, -⟩ := VexFCache.forM_release_eq (ks.filterMap s.func.find) { s with
      jit := ks.foldl AddrCache.erase s.jit
      vexsb := ks₂.foldl AddrCache.erase s.vexsb }
    rw [bind_ok h]
    exact ⟨_, rfl⟩

/-- A range with its ends in order is flushed. -/
theorem flushRange_ok (s : CacheState) (h : b ≤ e) :
    ∃ t, VexJITCache.flushRange b e s = .ok ((), t) := by
  rw [flushRange_ok_iff, AddrCache.range_of_le h, AddrCache.range_of_le h]
  simp

/-- The flush of a range is exact exactly when the code in it is filed. -/
theorem flushExact_iff_filed (hs : s.OK) (h : b ≤ e) :
    s.FlushExact b e ↔
      ∀ p, b ≤ p → p ≤ e → s.cachedFPtr p ≠ none → s.cachedFunc p ≠ none := by
  obtain ⟨t, ht⟩ := flushRange_ok s h
  obtain ⟨ok, ks, -, hks, hv⟩ := flushRange_spec hs ht
  have hjit : ∀ p, t.view.jit p = if p ∈ ks then none else s.view.jit p := fun p => by rw [hv]; rfl
  constructor
  · rintro ⟨t', ht', hx⟩ p hb he hj hf
    cases ht.symm.trans ht'
    have := ((hx p).1 ⟨hb, he⟩).2.2
    rw [ok.cachedFPtr, hjit, if_neg, ← hs.cachedFPtr] at this
    · exact hj this
    · rw [hks, ← hs.cachedFunc]
      exact fun hk => hk.1 hf
  · intro hall
    refine ⟨t, ht, fun p => ⟨fun hp => ⟨?_, ?_, ?_⟩, fun hp => ⟨?_, ?_, ?_⟩⟩⟩
    · rw [ok.cachedVSB, hv]
      simp [CacheView.flushRange, CacheView.flushFuncs, hp]
    · rw [ok.cachedFunc, hv]
      simp [CacheView.flushRange, CacheView.flushFuncs, hp]
    · rw [ok.cachedFPtr, hjit]
      split
      · rfl
      · next hk =>
          by_contra hj
          refine hk ((hks p).2 ⟨?_, hp⟩)
          rw [← hs.cachedFunc]
          exact hall p hp.1 hp.2 (by rwa [hs.cachedFPtr])
    · rw [ok.cachedVSB, hs.cachedVSB, hv]
      simp [CacheView.flushRange, CacheView.flushFuncs, hp]
    · rw [ok.cachedFunc, hs.cachedFunc, hv]
      simp [CacheView.flushRange, CacheView.flushFuncs, hp]
    · rw [ok.cachedFPtr, hs.cachedFPtr, hjit, if_neg]
      exact fun hk => hp ((hks p).1 hk).2

end Ranged

section Runs

/-- What a run must keep to: the code a `getFPtr` enters has a function entry at the
end of the prefetch. -/
def KeepsFetched (gen : GenLLVM) (s : CacheState) : CacheOp → Prop
  | .getFPtr host a => ∀ r u, Fetches gen host a s r u → ∀ q ∈ (a, r.1.name) :: r.2,
      u.funcAddrs.lookup q.2 ≠ none → u.cachedFunc q.1 ≠ none
  | _ => True

theorem kept_filed (gen : GenLLVM) : Kept gen CacheView.Filed where
  alloc _ h _ _ := h.alloc _ _ _
  emit _ h _ _ _ := h.emit _ _
  evict a _ h := h.evict a
  flush _ _ := fun _ hp => absurd rfl hp
  flushRange _ h _ hks := h.flushRange hks

/-- A compilation whose pointers belong to cached functions keeps the code filed. -/
theorem CacheView.Filed.compile {v w : CacheView} {a : GuestPtr} {f : Function}
    {L : List (GuestPtr × FnName)} {p : FPtr} (h : v.Filed) (hc : Compiled v a f L p w)
    (hr : ∀ q ∈ (a, f.name) :: L, Reached q v)
    (hk : ∀ q ∈ (a, f.name) :: L, v.funcAddrs.lookup q.2 ≠ none → v.func q.1 ≠ none) :
    w.Filed := by
  intro q hq
  obtain ⟨x, hx⟩ := Option.ne_none_iff_exists'.1 hq
  rw [hc.func]
  rcases hc.entered hx with ⟨n, hn, hl⟩ | hx
  · rcases hc.reached (hr _ hn) hl with hl | hf
    · exact hk _ hn (by simp [hl])
    · rw [hc.func] at hf
      simp [hf]
  · exact h q (by simp [hx])

/-- In a run that keeps what it fetches, all compiled code is filed. -/
theorem CacheRun.filed {gen : GenLLVM} {code : HostPtr → GuestPtr → Option Vex.IRSB}
    {rand : ℕ → ℕ} {ops : List CacheOp} {s : CacheState}
    (run : CacheRun gen (KeepsFetched gen) (.init code rand) ops s) :
    s.OK ∧ s.view.Inv ∧ s.view.Filed := by
  refine run.keeps (fun s => s.OK ∧ s.view.Inv ∧ s.view.Filed)
    ⟨.init code rand, .init code rand, fun p hp => absurd rfl hp⟩ fun s op r t hs hc h => ?_
  refine exec_keeps (kept_filed gen) hs.1 hs.2.1 hs.2.2
    (fun {host a u q p w} hop hf oku hr hv hj hc' => ?_) h
  subst hop
  refine hj.compile hc' hr fun n hn hl => ?_
  rw [← oku.cachedFunc]
  exact hc q u hf n hn hl

/-- Ranged flush. -/
theorem flushRange_exact (gen : GenLLVM) (code : HostPtr → GuestPtr → Option Vex.IRSB)
    (rand : ℕ → ℕ) (ops : List CacheOp) (s : CacheState) (b e : GuestPtr) (hbe : b ≤ e)
    (run : CacheRun gen AnyOp (.init code rand) ops s) :
    (s.FlushExact b e ↔ ∀ p, b ≤ p → p ≤ e → s.cachedFPtr p ≠ none → s.cachedFunc p ≠ none) ∧
      (CacheRun gen (KeepsFetched gen) (.init code rand) ops s → s.FlushExact b e) := by
  refine ⟨flushExact_iff_filed run.inv.1 hbe, fun run => ?_⟩
  obtain ⟨ok, -, hj⟩ := run.filed
  rw [flushExact_iff_filed ok hbe]
  intro p _ _ hp
  rw [ok.cachedFPtr] at hp
  rw [ok.cachedFunc]
  exact hj p hp

theorem flushRange_exact_block : ∃ s,
    CacheRun plainGen AnyOp (.init twoBlocks fun _ => 0) [.getFPtr 0x1000 0x1000] s ∧
      (s.cachedFPtr 0x1000).isSome ∧ s.FlushExact 0x1000 0x1000 := by
  obtain ⟨s, run, hs⟩ := CacheRun.exists_of_check plainGen AnyOp (.init twoBlocks fun _ => 0)
    [.getFPtr 0x1000 0x1000]
    (fun s => (s.cachedFPtr 0x1000).isSome && (s.cachedFunc 0x1000).isSome)
    (fun _ _ _ => trivial) (by decide +kernel)
  rw [Bool.and_eq_true, Option.isSome_iff_ne_none, Option.isSome_iff_ne_none] at hs
  refine ⟨s, run, Option.isSome_iff_ne_none.2 hs.1,
    (flushRange_exact _ _ _ _ s _ _ (BitVec.le_refl _) run).1.2 fun p hb he _ => ?_⟩
  rw [BitVec.le_antisymm he hb]
  exact hs.2

/-- After a recompilation in a cache of one block, the code is out of reach of a flush. -/
theorem flushRange_not_exact : ¬∀ (gen : GenLLVM) (code : HostPtr → GuestPtr → Option Vex.IRSB)
    (rand : ℕ → ℕ) (ops : List CacheOp) (s : CacheState) (b e : GuestPtr), b ≤ e →
    CacheRun gen AnyOp (.init code rand) ops s → s.FlushExact b e := by
  intro h
  obtain ⟨s, run, hs⟩ := CacheRun.exists_of_check plainGen AnyOp (.init twoBlocks fun _ => 0)
    [.setMaxCache 2, .getFPtr 0x1000 0x1000, .setMaxCache 1, .getFPtr 0x1000 0x1000]
    (fun s => (s.cachedFPtr 0x1000).isSome && (s.cachedFunc 0x1000).isNone)
    (fun _ _ _ => trivial) (by decide +kernel)
  have hx := (flushExact_iff_filed run.inv.1 (BitVec.le_refl _)).1
    (h _ _ _ _ _ 0x1000 0x1000 (BitVec.le_refl _) run) 0x1000 (BitVec.le_refl _) (BitVec.le_refl _)
  rw [Bool.and_eq_true, Option.isSome_iff_ne_none, Option.isNone_iff_eq_none] at hs
  exact hx hs.1 hs.2

end Runs

end VexLLVM
