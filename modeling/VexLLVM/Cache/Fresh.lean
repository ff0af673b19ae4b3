import VexLLVM.Cache.Visits

/-!
# Stale code

The JIT engine resolves a function by its name, and the name of a block is its
address; no flush and no eviction takes a name out of its table. `getFPtr` returns code
that is younger than the last flush of the address in every run whose calls come to no
address that has an older name in the table.
-/

namespace VexLLVM

open StateExcept VexJITCache

/-- Code that is filed under its own address, and younger than its last flush. -/
def CacheView.Fresh (v : CacheView) : Prop :=
  ∀ a x, v.jit a = some x → x.fn.vsb.guestAddr = a ∧ v.flushed a ≤ x.fn.vsb.uid

namespace CacheState

/-- The names the engine has for an address are those of compilations since its last
flush. -/
def NamesFresh (s : CacheState) (q : GuestPtr) : Prop :=
  ∀ n x, n.addr = q → s.funcAddrs.lookup n = some x → s.flushed q ≤ x.fn.vsb.uid

def Unnamed (s : CacheState) (q : GuestPtr) : Prop :=
  ∀ n, n.addr = q → s.funcAddrs.lookup n = none

end CacheState

/-- What a run must keep to: a `getFPtr` that compiles visits no address with an older
name, and, where it may evict a superblock, is near no address with a name. -/
def ResolvesFresh (gen : GenLLVM) (s : CacheState) : CacheOp → Prop
  | .getFPtr host a => s.cachedFPtr a = none →
      (s.HasRoom gen host a ∧ ∀ q ∈ s.visits gen host a, s.NamesFresh q) ∨
        ∀ q ∈ s.near gen host a, s.Unnamed q
  | _ => True

namespace CacheView

variable {v : CacheView}

theorem Fresh.evict (h : v.Fresh) (a : GuestPtr) : (v.evict a).Fresh := by
  intro q x hx
  simp only [CacheView.evict, Function.update_apply] at hx ⊢
  by_cases hq : q = a
  · simp [hq] at hx
  · rw [if_neg hq] at hx ⊢
    exact h q x hx

theorem Fresh.alloc (h : v.Fresh) (victim : Option GuestPtr) (a : GuestPtr) (sb : VexSB) :
    (v.alloc victim a sb).Fresh := by
  cases victim with
  | none => exact h
  | some c =>
      have ht : Fresh { v with next := v.next + 1 } := h
      exact ht.evict c

/-- Filed code is flushed with its range. -/
theorem Fresh.flushRange (h : v.Fresh) (hf : v.Filed) {b e : GuestPtr} {ks : List GuestPtr}
    (hks : ∀ p, p ∈ ks ↔ v.func p ≠ none ∧ b ≤ p ∧ p ≤ e) : (v.flushRange b e ks).Fresh := by
  intro q x hx
  have hx : q ∉ ks ∧ v.jit q = some x := by simpa [CacheView.flushRange] using hx
  have hr : ¬(b ≤ q ∧ q ≤ e) := fun hr => hx.1 ((hks q).2 ⟨hf q (by simp [hx.2]), hr⟩)
  simpa [CacheView.flushRange, CacheView.flushFuncs, hr] using h q x hx.2

end CacheView

theorem VexJITCache.Kept.and {gen : GenLLVM} {J J' : CacheView → Prop} (h : Kept gen J)
    (h' : Kept gen J') : Kept gen fun v => J v ∧ J' v where
  alloc hv hj hc hx := ⟨h.alloc hv hj.1 hc hx, h'.alloc hv hj.2 hc hx⟩
  emit hv hj hx hc hb := ⟨h.emit hv hj.1 hx hc hb, h'.emit hv hj.2 hx hc hb⟩
  evict a hv hj := ⟨h.evict a hv hj.1, h'.evict a hv hj.2⟩
  flush hv hj := ⟨h.flush hv hj.1, h'.flush hv hj.2⟩
  flushRange hv hj hn hk := ⟨h.flushRange hv hj.1 hn hk, h'.flushRange hv hj.2 hn hk⟩

theorem kept_fresh (gen : GenLLVM) : Kept gen fun v => v.Filed ∧ v.Fresh where
  alloc hv hj hc hx := ⟨(kept_filed gen).alloc hv hj.1 hc hx, hj.2.alloc _ _ _⟩
  emit hv hj hx hc hb := ⟨(kept_filed gen).emit hv hj.1 hx hc hb, hj.2⟩
  evict a hv hj := ⟨(kept_filed gen).evict a hv hj.1, hj.2.evict a⟩
  flush hv hj := ⟨(kept_filed gen).flush hv hj.1, fun q x hx => by cases hx⟩
  flushRange hv hj hn hk := ⟨(kept_filed gen).flushRange hv hj.1 hn hk, hj.2.flushRange hj.1 hk⟩

/-- The times of the last flushes grow. -/
theorem kept_flushed (gen : GenLLVM) (a : GuestPtr) (k : ℕ) :
    Kept gen fun v => k ≤ v.flushed a where
  alloc {v victim b sb} hv hj hc _ := by
    cases victim with
    | none => exact hj
    | some c =>
        simp only [CacheView.alloc, CacheView.evict, Option.elim, Function.update_apply]
        split
        · exact hj.trans ((hv.flushed a).trans (Nat.le_succ _))
        · exact hj
  emit hv hj _ _ _ := hj
  evict c hv hj := by
    simp only [CacheView.evict, Function.update_apply]
    split
    · exact hj.trans (hv.flushed a)
    · exact hj
  flush hv hj := hj.trans (hv.flushed a)
  flushRange {v b e ks} hv hj _ _ := by
    simp only [CacheView.flushRange, CacheView.flushFuncs]
    split
    · exact hj.trans (hv.flushed a)
    · exact hj

/-- Code that the engine has for a reached name after a compilation: filed, under its
own address, and fresh, where the names were resolved fresh. -/
theorem VexJITCache.Compiled.fresh {v w : CacheView} {a : GuestPtr} {f : Function}
    {L : List (GuestPtr × FnName)} {p x : FPtr} {q : GuestPtr × FnName}
    (hc : Compiled v a f L p w) (hv : v.Inv) (hr : Reached q v)
    (hf : ∀ x, v.funcAddrs.lookup q.2 = some x → v.flushed q.1 ≤ x.fn.vsb.uid)
    (hx : w.funcAddrs.lookup q.2 = some x) :
    w.func q.1 ≠ none ∧ x.fn.vsb.guestAddr = q.1 ∧ w.flushed q.1 ≤ x.fn.vsb.uid := by
  rw [hc.flushed]
  rcases hc.reached hr hx with hl | hl
  · have hle := hf x hl
    refine ⟨?_, (hv.engine _ x hl).2.1.trans hr.addr, hle⟩
    rw [hc.func, ← hr.addr]
    exact hv.engineCached _ x hl (hr.addr ▸ hle)
  · refine ⟨by simp [hl], ?_⟩
    rw [hc.func] at hl
    obtain ⟨-, h₂, h₃, -⟩ := hv.func _ _ hl
    exact ⟨h₂, h₃⟩

theorem CacheView.Fresh.compile {v w : CacheView} {a : GuestPtr} {f : Function}
    {L : List (GuestPtr × FnName)} {p : FPtr} (hj : v.Filed ∧ v.Fresh) (hc : Compiled v a f L p w)
    (hv : v.Inv) (hr : ∀ q ∈ (a, f.name) :: L, Reached q v)
    (hf : ∀ q ∈ (a, f.name) :: L, ∀ x, v.funcAddrs.lookup q.2 = some x →
      v.flushed q.1 ≤ x.fn.vsb.uid) : w.Filed ∧ w.Fresh := by
  have key : ∀ q x, w.jit q = some x →
      w.func q ≠ none ∧ x.fn.vsb.guestAddr = q ∧ w.flushed q ≤ x.fn.vsb.uid := by
    intro q x hx
    rcases hc.entered hx with ⟨n, hn, hl⟩ | hx
    · exact hc.fresh hv (hr _ hn) (hf _ hn) hl
    · rw [hc.func, hc.flushed]
      exact ⟨hj.1 q (by simp [hx]), hj.2 q x hx⟩
  refine ⟨fun q hq => ?_, fun q x hx => (key q x hx).2⟩
  obtain ⟨x, hx⟩ := Option.ne_none_iff_exists'.1 hq
  exact (key q x hx).1

/-- The engine's table is left alone until something is compiled. -/
theorem kept_funcAddrs (gen : GenLLVM) (t : AList fun _ : FnName => FPtr) :
    Kept gen fun v => v.funcAddrs = t where
  alloc {v victim b sb} _ hj _ _ := by
    cases victim with
    | none => exact hj
    | some c =>
        have : (CacheView.evict { v with next := v.next + 1 } c).funcAddrs = v.funcAddrs := by
          cases hf : v.func c <;> simp [CacheView.evict, CacheView.release, hf]
        exact this.trans hj
  emit _ hj _ _ _ := hj
  evict {v} c _ hj := by
    have : (v.evict c).funcAddrs = v.funcAddrs := by
      cases hf : v.func c <;> simp [CacheView.evict, CacheView.release, hf]
    exact this.trans hj
  flush _ hj := hj
  flushRange {v b e ks} _ hj _ _ := by
    have : ∀ (fs : List Function) (v : CacheView),
        (fs.foldl CacheView.release v).funcAddrs = v.funcAddrs := by
      intro fs
      induction fs with
      | nil => exact fun _ => rfl
      | cons f fs ih => exact fun v => ih (v.release f)
    exact (this _ v).trans hj

/-- Up to the compilation no name a call has noted is an older one. -/
theorem VexJITCache.Fetches.fresh {gen : GenLLVM} {host : HostPtr} {a : GuestPtr} {s u : CacheState}
    {r : Function × List (GuestPtr × FnName)} (hs : s.OK) (hv : s.view.Inv) (hd : s.view.Distinct)
    (hc : ResolvesFresh gen s (.getFPtr host a)) (hf : Fetches gen host a s r u) :
    ∀ q ∈ (a, r.1.name) :: r.2, ∀ x, u.funcAddrs.lookup q.2 = some x →
      u.flushed q.1 ≤ x.fn.vsb.uid := by
  obtain ⟨s', h₁, h₂⟩ := id hf
  obtain ⟨ho, hv₁, ok₁⟩ := getCachedFPtr_spec hs a h₁
  have htable : u.funcAddrs = s.funcAddrs :=
    (fetch_spec (fetchInv_reached (kept_funcAddrs gen s.funcAddrs).toKeptByGet) ok₁
      ⟨hv₁ ▸ hv, congrArg CacheView.funcAddrs hv₁⟩ (by rw [hv₁]; exact ho.symm) h₂).2.1.2
  intro q hq x hx
  obtain ⟨hname, hnear⟩ := hf.near hs hv q hq
  rw [htable] at hx
  rcases hc (by rw [hs.cachedFPtr, ← ho]) with ⟨hroom, hfresh⟩ | hnone
  · obtain ⟨hflushed, hvisits⟩ := hf.visits hs hv hd hroom
    rw [show u.flushed = s.flushed from hflushed]
    exact hfresh q.1 (hvisits q hq) q.2 x hname hx
  · rw [hnone q.1 hnear q.2 hname] at hx
    cases hx

/-- In a run that resolves names fresh, all compiled code is filed and fresh. -/
theorem CacheRun.fresh {gen : GenLLVM} {code : HostPtr → GuestPtr → Option Vex.IRSB}
    {rand : ℕ → ℕ} {ops : List CacheOp} {s : CacheState}
    (run : CacheRun gen (ResolvesFresh gen) (.init code rand) ops s) :
    s.OK ∧ s.view.Inv ∧ (s.view.Filed ∧ s.view.Fresh) ∧ s.view.Distinct := by
  refine run.keeps (fun s => s.OK ∧ s.view.Inv ∧ (s.view.Filed ∧ s.view.Fresh) ∧ s.view.Distinct)
    ⟨.init code rand, .init code rand, ⟨fun p hp => absurd rfl hp, fun q x hx => by cases hx⟩,
      .init code rand⟩
    fun s op r t hs hc h => ?_
  refine exec_keeps ((kept_fresh gen).and (kept_distinct gen)) hs.1 hs.2.1 hs.2.2
    (fun {host a u q p w} hop hf oku hr hv hj hc' => ?_) h
  subst hop
  exact ⟨CacheView.Fresh.compile hj.1 hc' hv hr (hf.fresh hs.1 hs.2.1 hs.2.2.2 hc),
    hj.2.mono (fun a f ha => by rwa [hc'.func] at ha) (by rw [hc'.next]; exact Nat.le_succ _)⟩

/-- The code `getFPtr` returns, in a run that resolves names fresh. -/
theorem getFPtr_fresh (gen : GenLLVM) (code : HostPtr → GuestPtr → Option Vex.IRSB)
    (rand : ℕ → ℕ) (ops : List CacheOp) (s t : CacheState) (host : HostPtr) (a : GuestPtr)
    (p : FPtr) (run : CacheRun gen (ResolvesFresh gen) (.init code rand) ops s)
    (hc : ResolvesFresh gen s (.getFPtr host a))
    (h : VexJITCache.getFPtr gen host a s = .ok (p, t)) :
    p.fn.vsb.guestAddr = a ∧ s.flushed a ≤ p.fn.vsb.uid := by
  obtain ⟨ok, hv, hj, hd⟩ := run.fresh
  obtain ⟨-, ⟨hx, -⟩ | ⟨-, q, u, hf, ⟨-, ⟨hvu, -, hle⟩, hr⟩, hcu⟩⟩ :=
    getFPtr_spec (fetchInv_reached ((kept_fresh gen).and (kept_flushed gen a (s.flushed a))).toKeptByGet)
      (fun q v hq => hq.jit) ok ⟨hv, hj, le_rfl⟩ h
  · exact hj.2 a p hx
  · have hm : (a, q.1.name) ∈ (a, q.1.name) :: q.2 := List.mem_cons_self
    have := hcu.fresh hvu (hr _ hm) (hf.fresh ok hv hd hc _ hm) hcu.named
    rw [hcu.flushed] at this
    exact ⟨this.2.1, hle.trans this.2.2⟩

/-- With nothing compiled, every name is resolved fresh. -/
theorem resolvesFresh_of_empty {gen : GenLLVM} {s : CacheState} (h : s.funcAddrs = ∅)
    (op : CacheOp) : ResolvesFresh gen s op := by
  cases op with
  | getFPtr host a => exact fun _ => .inr fun q _ n _ => by rw [h]; rfl
  | _ => trivial

theorem getFPtr_fresh_block : ∃ s t p,
    CacheRun plainGen (ResolvesFresh plainGen) (.init twoBlocks fun _ => 0)
      [.getFunc 1 0x1000, .flushRange 0x1000 0x1000] s ∧
    VexJITCache.getFPtr plainGen 1 0x1000 s = .ok (p, t) ∧ 0 < s.flushed 0x1000 ∧
      p.fn.vsb.guestAddr = 0x1000 ∧ s.flushed 0x1000 ≤ p.fn.vsb.uid := by
  obtain ⟨s, run, hs⟩ := CacheRun.exists_of_check plainGen (ResolvesFresh plainGen)
    (.init twoBlocks fun _ => 0) [.getFunc 1 0x1000, .flushRange 0x1000 0x1000]
    (fun s => match VexJITCache.getFPtr plainGen 1 0x1000 s with
      | .ok _ => decide (0 < s.flushed 0x1000) && s.funcAddrs.entries.isEmpty
      | .error _ => false)
    (by simp [ResolvesFresh]) (by decide +kernel)
  cases h : VexJITCache.getFPtr plainGen 1 0x1000 s with
  | error e => rw [h] at hs; cases hs
  | ok r =>
      simp only [h, Bool.and_eq_true, decide_eq_true_eq, List.isEmpty_iff] at hs
      have hc : ResolvesFresh plainGen s (.getFPtr 1 0x1000) :=
        resolvesFresh_of_empty (AList.ext hs.2) _
      exact ⟨s, r.2, r.1, run, h, hs.1, getFPtr_fresh _ _ _ _ s r.2 _ _ r.1 run hc h⟩

/-- Without the condition: the code of a block that is flushed and compiled again is
the old code. -/
theorem getFPtr_stale : ¬∀ (gen : GenLLVM) (code : HostPtr → GuestPtr → Option Vex.IRSB)
    (rand : ℕ → ℕ) (ops : List CacheOp) (s t : CacheState) (host : HostPtr) (a : GuestPtr)
    (p : FPtr), CacheRun gen AnyOp (.init code rand) ops s →
    VexJITCache.getFPtr gen host a s = .ok (p, t) →
    p.fn.vsb.guestAddr = a ∧ s.flushed a ≤ p.fn.vsb.uid := by
  intro hall
  obtain ⟨s, run, hs⟩ := CacheRun.exists_of_check plainGen AnyOp
    (.init twoBlocks fun _ => 0) [.getFPtr 1 0x1000, .flushRange 0x1000 0x1000]
    (fun s => match VexJITCache.getFPtr plainGen 1 0x1000 s with
      | .ok (p, _) => decide (p.fn.vsb.uid < s.flushed 0x1000)
      | .error _ => false)
    (fun _ _ _ => trivial) (by decide +kernel)
  cases h : VexJITCache.getFPtr plainGen 1 0x1000 s with
  | error e => rw [h] at hs; cases hs
  | ok r =>
      simp only [h, decide_eq_true_eq] at hs
      exact absurd (hall _ _ _ _ s r.2 _ _ r.1 run h).2 (Nat.not_le.2 hs)

end VexLLVM
