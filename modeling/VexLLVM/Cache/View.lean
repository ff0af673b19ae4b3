import VexLLVM.Cache.VexJITCache

/-!
# The caches without their direct caches

A `CacheView` is what can be seen of a cache state: three partial functions on
guest addresses, the table of the engine and the allocations. The direct caches
are not part of it. Every operation of the caches acts on the view in a way that
the direct caches do not change, as long as they are coherent.
-/

namespace VexLLVM

open StateExcept

structure CacheView where
  vexsb : GuestPtr → Option VSB
  func : GuestPtr → Option Function
  jit : GuestPtr → Option FPtr
  funcAddrs : AList fun _ : FnName => FPtr
  genMod : Module
  next : ℕ
  destroyed : List ℕ
  released : List ℕ
  flushed : GuestPtr → ℕ

namespace CacheView

variable (v : CacheView)

/-- A function is released, and stays where it is. -/
def release (f : Function) : CacheView :=
  { v with released := f.uid :: v.released, genMod := v.genMod.unlink f }

/-- Nothing is left for an evicted address, and its function is released twice. -/
def evict (a : GuestPtr) : CacheView :=
  let w := (v.func a).elim v fun f => (v.release f).release f
  { w with
    vexsb := Function.update v.vexsb a none
    func := Function.update v.func a none
    jit := Function.update v.jit a none
    flushed := Function.update v.flushed a v.next }

def flush : CacheView :=
  { v with
    vexsb := fun _ => none
    func := fun _ => none
    jit := fun _ => none
    flushed := fun _ => v.next }

def alloc (victim : Option GuestPtr) (a : GuestPtr) (sb : VexSB) : CacheView :=
  let w := { v with next := v.next + 1 }
  let w := victim.elim w w.evict
  { w with vexsb := Function.update w.vexsb a (some ⟨v.next, sb⟩) }

def newFunc (vsb : VSB) (body : LLVM.Func) : Function :=
  ⟨v.next, (v.genMod.makeName vsb.guestAddr).1, v.genMod.id, vsb, body⟩

def emit (vsb : VSB) (body : LLVM.Func) : CacheView :=
  { v with
    func := Function.update v.func vsb.guestAddr (some (v.newFunc vsb body))
    genMod :=
      ⟨v.genMod.id, v.newFunc vsb body :: v.genMod.fns, (v.genMod.makeName vsb.guestAddr).2⟩
    next := v.next + 1 }

end CacheView

namespace CacheState

def view (s : CacheState) : CacheView :=
  ⟨s.vexsb.find, s.func.find, s.jit.find, s.funcAddrs, s.genMod, s.next, s.destroyed, s.released,
    s.flushed⟩

/-- The direct caches are coherent, and every function entry has its function. -/
structure OK (s : CacheState) : Prop where
  vexsb : s.vexsb.Coherent
  func : s.func.Coherent
  jit : s.jit.Coherent
  hasFunc : ∀ a ∈ s.func.map, s.func.find a ≠ none

theorem OK.init (code : HostPtr → GuestPtr → Option Vex.IRSB) (rand : ℕ → ℕ) :
    (init code rand).OK :=
  ⟨AddrCache.coherent_empty, AddrCache.coherent_empty, AddrCache.coherent_empty, fun a h => by
    simp [CacheState.init, AddrCache.empty, AList.mem_keys] at h⟩

/-- The block `allocCacheVSB` evicts: one, when the cache is full. -/
def victim? (s : CacheState) : Option GuestPtr :=
  if s.vexsb.size = s.maxCacheEnts then s.selectVictimAddress else none

theorem victim?_congr {s t : CacheState} (hm : t.vexsb.map = s.vexsb.map)
    (hx : t.maxCacheEnts = s.maxCacheEnts) (hr : t.rand = s.rand) : t.victim? = s.victim? := by
  unfold victim? selectVictimAddress AddrCache.size
  rw [hm, hx, hr]

def translate (s : CacheState) (gen : GenLLVM) (host : HostPtr) (a : GuestPtr) :
    Except EmitError (Option VexSB) :=
  match s.code host a with
  | none => .ok none
  | some irsb => VexXlate.xlate gen a irsb

end CacheState

section Lookups

variable {s : CacheState} (hs : s.OK) (a : GuestPtr)

theorem getCachedVSB_eq : VexFCache.getCachedVSB a s =
    .ok ((s.vexsb.getCached a).1, { s with vexsb := (s.vexsb.getCached a).2 }) := rfl

theorem getCachedFunc_eq : VexFCache.getCachedFunc a s =
    .ok ((s.func.getCached a).1, { s with func := (s.func.getCached a).2 }) := rfl

include hs

theorem getCachedVSB_spec {r : Option VSB} {t : CacheState}
    (h : VexFCache.getCachedVSB a s = .ok (r, t)) :
    r = s.view.vexsb a ∧ t.view = s.view ∧ t.OK ∧ t.victim? = s.victim? ∧ t.code = s.code := by
  cases h
  refine ⟨hs.vexsb.getCached_fst a, ?_, ⟨hs.vexsb.getCached a, hs.func, hs.jit, hs.hasFunc⟩,
    CacheState.victim?_congr (by simp) rfl rfl, rfl⟩
  simp [CacheState.view, funext_iff]

theorem getCachedFunc_spec {r : Option Function} {t : CacheState}
    (h : VexFCache.getCachedFunc a s = .ok (r, t)) :
    r = s.view.func a ∧ t.view = s.view ∧ t.OK ∧ t.victim? = s.victim? ∧ t.code = s.code := by
  cases h
  refine ⟨hs.func.getCached_fst a, ?_, ⟨hs.vexsb, hs.func.getCached a, hs.jit, ?_⟩, rfl, rfl⟩
  · simp [CacheState.view, funext_iff]
  · simpa using hs.hasFunc

theorem getCachedFPtr_spec {r : Option FPtr} {t : CacheState}
    (h : VexJITCache.getCachedFPtr a s = .ok (r, t)) :
    r = s.view.jit a ∧ t.view = s.view ∧ t.OK := by
  cases h
  refine ⟨hs.jit.getCached_fst a, ?_, ⟨hs.vexsb, hs.func, hs.jit.getCached a, hs.hasFunc⟩⟩
  simp [CacheState.view, funext_iff]

end Lookups

namespace CacheState.OK

variable {s : CacheState} (hs : s.OK)
include hs

theorem eraseVSB (a : GuestPtr) : { s with vexsb := s.vexsb.erase a }.OK :=
  ⟨hs.vexsb.erase a, hs.func, hs.jit, hs.hasFunc⟩

theorem eraseFunc (a : GuestPtr) : { s with func := s.func.erase a }.OK :=
  ⟨hs.vexsb, hs.func.erase a, hs.jit, fun q hq => by
    rw [AddrCache.find_erase]
    have hq : q ≠ a ∧ q ∈ s.func.map := AList.mem_erase.1 hq
    simpa [hq.1] using hs.hasFunc q hq.2⟩

end CacheState.OK

theorem CacheState.OK.of_eq {s t : CacheState} (hs : s.OK) (h₁ : t.vexsb = s.vexsb)
    (h₂ : t.func = s.func) (h₃ : t.jit = s.jit) : t.OK :=
  ⟨h₁ ▸ hs.vexsb, h₂ ▸ hs.func, h₃ ▸ hs.jit, by rw [h₂]; exact hs.hasFunc⟩

theorem AddrCache.find_erase_eq {α : Type} (c : AddrCache α) (a : GuestPtr) :
    (c.erase a).find = Function.update c.find a none := by
  funext q
  rw [find_erase, Function.update_apply]

theorem VexFCache.evictFunc_spec {s t : CacheState} {r : Unit} (hs : s.OK) {a : GuestPtr}
    (h : VexFCache.evictFunc a s = .ok (r, t)) :
    t.OK ∧ t.view = { (s.view.func a).elim s.view s.view.release with
      func := Function.update s.view.func a none } := by
  obtain ⟨f, s₁, h₁, h⟩ := bind_eq_ok h
  obtain ⟨hf, hv₁, ok₁, -⟩ := getCachedFunc_spec hs a h₁
  rw [← hf, ← hv₁]
  cases f with
  | none =>
      cases h
      refine ⟨ok₁, ?_⟩
      rw [hv₁, Function.update_eq_self_iff.2 hf]
      rfl
  | some f =>
      cases h
      refine ⟨⟨ok₁.vexsb, (ok₁.eraseFunc a).func, ok₁.jit, (ok₁.eraseFunc a).hasFunc⟩, ?_⟩
      simp [CacheState.view, AddrCache.find_erase_eq, CacheView.release]

theorem VexFCache.evictVSB_spec {s t : CacheState} {r : Unit} (hs : s.OK) {a : GuestPtr}
    (h : VexFCache.evictVSB a s = .ok (r, t)) :
    t.OK ∧ t.view = { s.view with vexsb := Function.update s.view.vexsb a none } := by
  obtain ⟨b, s₁, h₁, h⟩ := bind_eq_ok h
  obtain ⟨hb, hv₁, ok₁, -⟩ := getCachedVSB_spec hs a h₁
  rw [← hv₁]
  cases b with
  | none =>
      cases h
      refine ⟨ok₁, ?_⟩
      rw [hv₁, Function.update_eq_self_iff.2 hb]
  | some b =>
      cases h
      refine ⟨ok₁.eraseVSB a, ?_⟩
      simp [CacheState.view, AddrCache.find_erase_eq]

theorem VexJITCache.deleteFunc_spec {s t : CacheState} {r : Unit} (hs : s.OK) {a : GuestPtr}
    (h : VexJITCache.deleteFunc a s = .ok (r, t)) :
    t.OK ∧ t.view = (s.view.func a).elim s.view s.view.release := by
  obtain ⟨f, s₁, h₁, h⟩ := bind_eq_ok h
  obtain ⟨hf, hv₁, ok₁, -⟩ := getCachedFunc_spec hs a h₁
  rw [← hf, ← hv₁]
  cases f with
  | none =>
      cases h
      exact ⟨ok₁, rfl⟩
  | some f =>
      cases h
      exact ⟨⟨ok₁.vexsb, ok₁.func, ok₁.jit, ok₁.hasFunc⟩, rfl⟩

theorem VexJITCache.evict_spec {s t : CacheState} {r : Unit} (hs : s.OK) {a : GuestPtr}
    (h : VexJITCache.evict a s = .ok (r, t)) : t.OK ∧ t.view = s.view.evict a := by
  obtain ⟨_, s₁, h₁, h⟩ := bind_eq_ok h
  obtain ⟨ok₁, hv₁⟩ := deleteFunc_spec hs h₁
  obtain ⟨_, s₂, h₂, h⟩ := bind_eq_ok h
  have ok₂ : s₂.OK := by
    cases h₂
    exact ⟨ok₁.vexsb, ok₁.func, ok₁.jit.erase a, ok₁.hasFunc⟩
  have hv₂ : s₂.view = { s₁.view with
      jit := Function.update s₁.view.jit a none
      flushed := Function.update s₁.view.flushed a s₁.view.next } := by
    cases h₂
    simp [CacheState.view, AddrCache.find_erase_eq]
  obtain ⟨_, s₃, h₃, h⟩ := bind_eq_ok h
  obtain ⟨ok₃, hv₃⟩ := VexFCache.evictFunc_spec ok₂ h₃
  obtain ⟨ok₄, hv₄⟩ := VexFCache.evictVSB_spec ok₃ h
  refine ⟨ok₄, ?_⟩
  rw [hv₄, hv₃, hv₂, hv₁]
  cases hf : s.view.func a with
  | none => simp [CacheView.evict, hf]
  | some f => simp [CacheView.evict, CacheView.release, hf]

theorem VexJITCache.flush_spec {s t : CacheState} {r : Unit}
    (h : VexJITCache.flush s = .ok (r, t)) : t.OK ∧ t.view = s.view.flush := by
  cases h
  refine ⟨⟨AddrCache.coherent_empty, AddrCache.coherent_empty, AddrCache.coherent_empty,
    fun a h => ?_⟩, rfl⟩
  simp [AddrCache.empty, AList.mem_keys] at h

theorem VexJITCache.setMaxCache_spec {s t : CacheState} {r : Unit} (hs : s.OK) {x : ℕ}
    (h : VexJITCache.setMaxCache x s = .ok (r, t)) :
    t.OK ∧ (t.view = s.view ∨ t.view = s.view.flush) := by
  unfold setMaxCache at h
  rw [get_bind] at h
  split at h
  · obtain ⟨_, s₁, h₁, h₂⟩ := bind_eq_ok h
    obtain ⟨ok, hv⟩ := flush_spec h₁
    cases h₂
    exact ⟨ok.of_eq rfl rfl rfl, .inr hv⟩
  · cases h
    exact ⟨hs.of_eq rfl rfl rfl, .inl rfl⟩

/-- `VexFCache::flush(begin, end)`: the functions are released, and nothing is left
in the range. -/
def CacheView.flushFuncs (v : CacheView) (b e : GuestPtr) (fs : List Function) : CacheView :=
  { fs.foldl CacheView.release v with
    vexsb := fun p => if b ≤ p ∧ p ≤ e then none else v.vexsb p
    func := fun p => if b ≤ p ∧ p ≤ e then none else v.func p
    flushed := fun p => if b ≤ p ∧ p ≤ e then v.next else v.flushed p }

/-- The functions of the addresses in `ks` are released, and nothing is left in the
range; compiled code goes where there was a function. -/
def CacheView.flushRange (v : CacheView) (b e : GuestPtr) (ks : List GuestPtr) : CacheView :=
  { v.flushFuncs b e (ks.filterMap v.func) with
    jit := fun p => if p ∈ ks then none else v.jit p }

theorem CacheView.flushFuncs_jit (v : CacheView) (b e : GuestPtr) (fs : List Function)
    (y : GuestPtr → Option FPtr) :
    { v with jit := y }.flushFuncs b e fs = { v.flushFuncs b e fs with jit := y } := by
  have h : fs.foldl CacheView.release { v with jit := y } =
      { fs.foldl CacheView.release v with jit := y } := by
    induction fs generalizing v with
    | nil => rfl
    | cons f fs ih => exact ih (v.release f)
  simp only [flushFuncs, h]

theorem VexFCache.inRange_bind {α β : Type} {c : AddrCache α} {b e : GuestPtr} {s t : CacheState}
    {x : β} {f : List GuestPtr → CacheM β} (h : (VexFCache.inRange c b e >>= f) s = .ok (x, t)) :
    ∃ ks : List GuestPtr, ks.Nodup ∧ (∀ p, p ∈ ks ↔ p ∈ c.map ∧ b ≤ p ∧ p ≤ e) ∧
      f ks s = .ok (x, t) := by
  unfold inRange at h
  cases hr : c.range b e with
  | none => rw [hr] at h; cases h
  | some ks =>
      rw [hr] at h
      refine ⟨ks, ?_, fun p => AddrCache.mem_range hr, h⟩
      unfold AddrCache.range at hr
      split at hr
      · cases hr
      · cases hr
        exact c.map.nodupKeys.filter _

theorem AddrCache.find_foldl_range {α : Type} {c : AddrCache α} {b e : GuestPtr}
    {ks : List GuestPtr} (h : ∀ p, p ∈ ks ↔ p ∈ c.map ∧ b ≤ p ∧ p ≤ e) :
    (ks.foldl AddrCache.erase c).find = fun p => if b ≤ p ∧ p ≤ e then none else c.find p := by
  funext p
  rw [find_foldl_erase]
  by_cases hp : c.find p = none
  · simp [hp]
  · simp [h, find_isSome_mem hp]

theorem VexFCache.forM_release_eq (fs : List Function) (s : CacheState) :
    ∃ t, fs.forM VexFCache.release s = .ok ((), t) ∧ t.view = fs.foldl CacheView.release s.view ∧
      t.vexsb = s.vexsb ∧ t.func = s.func ∧ t.jit = s.jit := by
  induction fs generalizing s with
  | nil => exact ⟨s, rfl, rfl, rfl, rfl, rfl⟩
  | cons f fs ih => exact ih _

theorem CacheState.OK.mem_func {s : CacheState} (hs : s.OK) (p : GuestPtr) :
    p ∈ s.func.map ↔ s.func.find p ≠ none :=
  ⟨hs.hasFunc p, AddrCache.find_isSome_mem⟩

theorem CacheState.OK.foldl_eraseFunc {s : CacheState} (hs : s.OK) (ks : List GuestPtr) :
    { s with func := ks.foldl AddrCache.erase s.func }.OK := by
  induction ks generalizing s with
  | nil => exact hs
  | cons k ks ih => exact ih (hs.eraseFunc k)

theorem CacheView.foldl_release_vexsb (fs : List Function) (v : CacheView)
    (x : GuestPtr → Option VSB) :
    fs.foldl CacheView.release { v with vexsb := x } =
      { fs.foldl CacheView.release v with vexsb := x } := by
  induction fs generalizing v with
  | nil => rfl
  | cons f fs ih => exact ih (v.release f)

theorem CacheView.foldl_release (fs : List Function) (v : CacheView) :
    (fs.foldl CacheView.release v).vexsb = v.vexsb ∧
      (fs.foldl CacheView.release v).func = v.func ∧
      (fs.foldl CacheView.release v).jit = v.jit ∧
      (fs.foldl CacheView.release v).flushed = v.flushed ∧
      (fs.foldl CacheView.release v).next = v.next := by
  induction fs generalizing v with
  | nil => simp
  | cons f fs ih => exact ih (v.release f)

theorem VexFCache.flushRange_spec {s t : CacheState} {r : Unit} (hs : s.OK) {b e : GuestPtr}
    (h : VexFCache.flushRange b e s = .ok (r, t)) :
    t.OK ∧ ∃ ks : List GuestPtr, ks.Nodup ∧
      (∀ p, p ∈ ks ↔ p ∈ s.func.map ∧ b ≤ p ∧ p ≤ e) ∧
      t.view = s.view.flushFuncs b e (ks.filterMap s.func.find) := by
  unfold flushRange at h
  rw [get_bind] at h
  obtain ⟨ks₁, -, hks₁, h⟩ := inRange_bind h
  rw [modify_bind, get_bind] at h
  obtain ⟨ks, hn, hks, h⟩ := inRange_bind h
  rw [get_bind] at h
  obtain ⟨t₃, e₃, hv, hvexsb, hfunc, hjit⟩ := forM_release_eq (ks.filterMap s.func.find)
    { s with vexsb := ks₁.foldl AddrCache.erase s.vexsb }
  rw [bind_ok e₃] at h
  have ok₃ : t₃.OK := CacheState.OK.of_eq
    (s := { s with vexsb := ks₁.foldl AddrCache.erase s.vexsb })
    ⟨hs.vexsb.foldl_erase ks₁, hs.func, hs.jit, hs.hasFunc⟩ hvexsb hfunc hjit
  cases h
  refine ⟨(ok₃.foldl_eraseFunc ks).of_eq rfl rfl rfl, ks, hn, hks, ?_⟩
  have hv : t₃.view = { (ks.filterMap s.func.find).foldl CacheView.release s.view with
      vexsb := (ks₁.foldl AddrCache.erase s.vexsb).find } :=
    hv.trans (CacheView.foldl_release_vexsb _ s.view _)
  obtain ⟨-, -, -, hfl, hnx⟩ := CacheView.foldl_release (ks.filterMap s.func.find) s.view
  have hfl' : t₃.flushed = s.flushed := (congrArg CacheView.flushed hv).trans hfl
  have hnx' : t₃.next = s.next := (congrArg CacheView.next hv).trans hnx
  change { t₃.view with
    func := (ks.foldl AddrCache.erase t₃.func).find
    flushed := fun p => if b ≤ p ∧ p ≤ e then t₃.next else t₃.flushed p } = _
  rw [hv, hfunc, hfl', hnx', AddrCache.find_foldl_range hks, AddrCache.find_foldl_range hks₁]
  rfl

theorem VexJITCache.flushRange_spec {s t : CacheState} {r : Unit} (hs : s.OK) {b e : GuestPtr}
    (h : VexJITCache.flushRange b e s = .ok (r, t)) :
    t.OK ∧ ∃ ks : List GuestPtr, ks.Nodup ∧
      (∀ p, p ∈ ks ↔ s.view.func p ≠ none ∧ b ≤ p ∧ p ≤ e) ∧
      t.view = s.view.flushRange b e ks := by
  unfold flushRange at h
  rw [get_bind] at h
  obtain ⟨ks, -, hks, h⟩ := VexFCache.inRange_bind h
  rw [modify_bind] at h
  have ok₁ : { s with jit := ks.foldl AddrCache.erase s.jit }.OK :=
    ⟨hs.vexsb, hs.func, hs.jit.foldl_erase ks, hs.hasFunc⟩
  obtain ⟨ok₂, ks₂, hn, hks₂, hv⟩ := VexFCache.flushRange_spec ok₁ h
  have hmem : ∀ p, p ∈ ks₂ ↔ p ∈ ks := fun p => (hks₂ p).trans (hks p).symm
  refine ⟨ok₂, ks₂, hn, fun p => (hks₂ p).trans (and_congr_left' (hs.mem_func p)), ?_⟩
  have hj : (ks.foldl AddrCache.erase s.jit).find =
      fun p => if p ∈ ks₂ then none else s.view.jit p :=
    funext fun p => by
      rw [AddrCache.find_foldl_erase]
      simp only [hmem, CacheState.view]
  exact hv.trans (by rw [CacheView.flushRange, ← hj]; exact CacheView.flushFuncs_jit s.view b e _ _)

end VexLLVM
