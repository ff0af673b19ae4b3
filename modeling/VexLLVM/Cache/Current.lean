import VexLLVM.Cache.Prefetch
import VexLLVM.Cache.Invariant

/-!
# Translations of the code that is there

The superblocks that the caches hold, those of the open module and of the engine
included, only grow by what is translated. None of the operations looks at the guest
code but to translate it. So as long as the code stays what it was translated from,
everything that is held is a translation of the code that is there.
-/

namespace VexLLVM

open StateExcept VexJITCache

/-! ## The guest code is only read -/

/-- The computation leaves the guest code alone. -/
class KeepsCode {α : Type} (m : CacheM α) : Prop where
  code_eq : ∀ s a t, m s = .ok (a, t) → t.code = s.code

section Code

variable {α β : Type}

theorem KeepsCode.modify {g : CacheState → CacheState} (h : ∀ s, (g s).code = s.code) :
    KeepsCode (modify g : CacheM PUnit) :=
  ⟨fun s a t e => by cases e; exact h s⟩

instance keepsCode_pure (a : α) : KeepsCode (pure a : CacheM α) :=
  ⟨fun s b t e => by cases e; rfl⟩

instance keepsCode_throw (e : EmitError) : KeepsCode (throw e : CacheM α) :=
  ⟨fun s b t h => by cases h⟩

instance keepsCode_bind {m : CacheM α} {f : α → CacheM β} [hm : KeepsCode m] [hf : ∀ a, KeepsCode (f a)] :
    KeepsCode (m >>= f) :=
  ⟨fun s b t e => by
    obtain ⟨a, u, h₁, h₂⟩ := bind_eq_ok e
    exact ((hf a).code_eq u b t h₂).trans (hm.code_eq s a u h₁)⟩

instance keepsCode_get : KeepsCode (get : CacheM CacheState) :=
  ⟨fun s b t e => by cases e; rfl⟩

instance keepsCode_map {m : CacheM α} {f : α → β} [hm : KeepsCode m] : KeepsCode (f <$> m) :=
  ⟨fun s b t e => by
    obtain ⟨a, h, -⟩ := map_eq_ok e
    exact hm.code_eq s a t h⟩

theorem KeepsCode.forM {f : α → CacheM PUnit} (h : ∀ a, KeepsCode (f a)) (l : List α) :
    KeepsCode (l.forM f) := by
  induction l with
  | nil => exact keepsCode_pure _
  | cons a l ih =>
      have ha := h a
      exact keepsCode_bind

theorem KeepsCode.foldlM {f : β → α → CacheM β} (h : ∀ b a, KeepsCode (f b a)) (l : List α) (b : β) :
    KeepsCode (l.foldlM f b) := by
  induction l generalizing b with
  | nil => exact keepsCode_pure _
  | cons a l ih =>
      have hb := h b a
      exact keepsCode_bind

instance keepsCode_getCachedVSB (a : GuestPtr) : KeepsCode (VexFCache.getCachedVSB a) :=
  ⟨fun s b t e => by cases e; rfl⟩

instance keepsCode_getCachedFunc (a : GuestPtr) : KeepsCode (VexFCache.getCachedFunc a) :=
  ⟨fun s b t e => by cases e; rfl⟩

instance keepsCode_getCachedFPtr (a : GuestPtr) : KeepsCode (getCachedFPtr a) :=
  ⟨fun s b t e => by cases e; rfl⟩

instance keepsCode_release (f : Function) : KeepsCode (VexFCache.release f) := .modify fun _ => rfl

instance keepsCode_evictFunc (a : GuestPtr) : KeepsCode (VexFCache.evictFunc a) := by
  unfold VexFCache.evictFunc
  refine @keepsCode_bind _ _ _ _ _ fun o => ?_
  cases o with
  | none => exact keepsCode_pure _
  | some f =>
      have hm : KeepsCode (modify fun s : CacheState => { s with func := s.func.erase a }) :=
        .modify fun _ => rfl
      exact keepsCode_bind

instance keepsCode_evictVSB (a : GuestPtr) : KeepsCode (VexFCache.evictVSB a) := by
  unfold VexFCache.evictVSB
  refine @keepsCode_bind _ _ _ _ _ fun o => ?_
  cases o with
  | none => exact keepsCode_pure _
  | some f => exact .modify fun _ => rfl

instance keepsCode_deleteFunc (a : GuestPtr) : KeepsCode (deleteFunc a) := by
  unfold deleteFunc
  refine @keepsCode_bind _ _ _ _ _ fun o => ?_
  cases o <;> infer_instance

instance keepsCode_evict (a : GuestPtr) : KeepsCode (evict a) := by
  unfold evict VexFCache.evict
  have hm : KeepsCode (modify fun s : CacheState => { s with
      jit := s.jit.erase a
      flushed := Function.update s.flushed a s.next }) := .modify fun _ => rfl
  infer_instance

instance keepsCode_inRange {α : Type} (c : AddrCache α) (b e : GuestPtr) :
    KeepsCode (VexFCache.inRange c b e) := by
  unfold VexFCache.inRange
  cases c.range b e <;> infer_instance

/-- What is done where there is a result, and where there is none. -/
theorem KeepsCode.option {m : CacheM (Option α)} {f : Option α → CacheM β} [KeepsCode m]
    (h₀ : KeepsCode (f none)) (h : ∀ a, KeepsCode (f (some a))) : KeepsCode (m >>= f) :=
  @keepsCode_bind _ _ _ _ _ fun
    | none => h₀
    | some a => h a

instance keepsCode_flushRangeF (b e : GuestPtr) : KeepsCode (VexFCache.flushRange b e) := by
  unfold VexFCache.flushRange
  have hv : ∀ ks : List GuestPtr, KeepsCode (modify fun s : CacheState =>
      { s with vexsb := ks.foldl AddrCache.erase s.vexsb }) := fun _ => .modify fun _ => rfl
  have hf : ∀ ks : List GuestPtr, KeepsCode (modify fun s : CacheState => { s with
      func := ks.foldl AddrCache.erase s.func
      flushed := fun p => if b ≤ p ∧ p ≤ e then s.next else s.flushed p }) :=
    fun _ => .modify fun _ => rfl
  have hr : ∀ fs : List Function, KeepsCode (fs.forM VexFCache.release) := .forM inferInstance
  infer_instance

instance keepsCode_flushRange (b e : GuestPtr) : KeepsCode (flushRange b e) := by
  unfold flushRange
  have hj : ∀ ks : List GuestPtr, KeepsCode (modify fun s : CacheState =>
      { s with jit := ks.foldl AddrCache.erase s.jit }) := fun _ => .modify fun _ => rfl
  infer_instance

instance keepsCode_setMaxCache (x : ℕ) : KeepsCode (setMaxCache x) := by
  have hmax : KeepsCode (modify fun s : CacheState => { s with maxCacheEnts := x }) :=
    .modify fun _ => rfl
  have hjit : KeepsCode (modify fun s : CacheState => { s with jit := .empty }) := .modify fun _ => rfl
  have hflush : KeepsCode VexFCache.flush := .modify fun _ => rfl
  unfold setMaxCache flush
  refine @keepsCode_bind _ _ _ _ _ fun s => ?_
  split <;> infer_instance

instance keepsCode_makeRoom : KeepsCode makeRoom := by
  unfold makeRoom
  refine @keepsCode_bind _ _ _ _ _ fun s => ?_
  split
  · split
    · infer_instance
    · have hr : KeepsCode (modify fun s : CacheState => { s with rand := fun n => s.rand (n + 1) }) :=
        .modify fun _ => rfl
      infer_instance
  · infer_instance

instance keepsCode_putVSB (a : GuestPtr) (vsb : VSB) : KeepsCode (putVSB a vsb) := by
  unfold putVSB
  refine @keepsCode_bind _ _ _ _ _ fun s => ?_
  split
  · exact .modify fun _ => rfl
  · infer_instance

variable (gen : GenLLVM)

instance keepsCode_xlate (host : HostPtr) (a : GuestPtr) : KeepsCode (xlate gen host a) :=
  ⟨fun s r t h => by
    rcases xlate_spec h with ⟨-, rfl, -⟩ | ⟨sb, -, -, rfl⟩
    · rfl
    · rfl⟩

instance keepsCode_getVSB (host : HostPtr) (a : GuestPtr) : KeepsCode (getVSB gen host a) := by
  have halloc : KeepsCode (allocCacheVSB gen host a) := by
    unfold allocCacheVSB
    exact .option inferInstance fun _ => inferInstance
  unfold getVSB
  exact .option halloc fun _ => inferInstance

instance keepsCode_genFunctionByVSB (vsb : VSB) : KeepsCode (genFunctionByVSB gen vsb) :=
  ⟨fun s f t h => by
    unfold genFunctionByVSB at h
    cases he : vsb.sb.emit gen with
    | error e =>
        rw [he] at h
        cases h
    | ok body =>
        rw [he] at h
        cases h
        rfl⟩

instance keepsCode_getFunc (host : HostPtr) (a : GuestPtr) : KeepsCode (getFunc gen host a) := by
  unfold getFunc
  refine .option (.option inferInstance fun _ => ?_) fun _ => inferInstance
  infer_instance

instance keepsCode_fetchExit (w : Fetch) (a : GuestPtr) : KeepsCode (fetchExit gen w a) := by
  unfold fetchExit
  refine @keepsCode_bind _ _ _ _ _ fun s => ?_
  split
  · infer_instance
  · refine .option inferInstance fun f => ?_
    dsimp only
    split <;> infer_instance

instance keepsCode_fetchLoop (n : ℕ) (w : Fetch) : KeepsCode (fetchLoop gen n w) := by
  induction n generalizing w with
  | zero => exact keepsCode_pure _
  | succ n ih =>
      unfold fetchLoop
      cases w.workset with
      | nil => exact keepsCode_pure _
      | cons f l =>
          have hf : KeepsCode ((getRetAddrs f).foldlM (fetchExit gen) w) := .foldlM inferInstance _ _
          refine @keepsCode_bind _ _ _ _ hf fun w => ?_
          dsimp only
          split
          · infer_instance
          · exact ih _

instance keepsCode_fetch (host : HostPtr) (a : GuestPtr) : KeepsCode (fetch gen host a) := by
  have hexits : ∀ f, KeepsCode (fetchExits gen host a f) := fun f => by
    unfold fetchExits
    split <;> infer_instance
  unfold fetch
  exact .option inferInstance fun f => inferInstance

instance keepsCode_compile (a : GuestPtr) (f : Function) (fnames : List (GuestPtr × FnName)) :
    KeepsCode (compile a f fnames) := by
  have htake : KeepsCode takeModule := ⟨fun s m t h => by cases h; rfl⟩
  have hnamed : ∀ n, KeepsCode (JITEngine.getPointerToNamedFunction n) := fun n => by
    unfold JITEngine.getPointerToNamedFunction
    infer_instance
  have hdestroy : ∀ m, KeepsCode (JITEngine.destroyModule m) := fun m => .modify fun _ => rfl
  have hmove : ∀ m, KeepsCode (JITEngine.moveModule m) := fun m => by
    unfold JITEngine.moveModule
    have hadd : KeepsCode (modify fun s : CacheState =>
        { s with funcAddrs := JITEngine.addFunctions s.funcAddrs m.fns }) := .modify fun _ => rfl
    infer_instance
  have hget : ∀ m, KeepsCode (JITEngine.getPointerToFunction f m) := fun m => by
    unfold JITEngine.getPointerToFunction
    exact .option inferInstance fun _ => inferInstance
  have henter : KeepsCode (fnames.forM enter) := .forM (fun p => by
    unfold enter
    have hassign : ∀ vf, KeepsCode (modify fun s : CacheState =>
        { s with jit := s.jit.assign p.1 vf }) := fun _ => .modify fun _ => rfl
    infer_instance) _
  unfold compile
  refine @keepsCode_bind _ _ _ _ _ fun m => .option inferInstance fun p => ?_
  have hput : KeepsCode (modify fun s : CacheState => { s with jit := s.jit.put a (some p) }) :=
    .modify fun _ => rfl
  infer_instance

instance keepsCode_getFPtr (host : HostPtr) (a : GuestPtr) : KeepsCode (getFPtr gen host a) := by
  unfold getFPtr
  exact .option inferInstance fun _ => inferInstance

end Code

/-! ## What is held -/

/-- The superblocks of the cache, and those that the functions of the open module, of the
engine and of the compiled code were emitted from. -/
inductive CacheView.Contains (v : CacheView) : VexSB → Prop where
  | cached {a : GuestPtr} {x : VSB} (h : v.vexsb a = some x) : Contains v x.sb
  | linked {f : Function} (h : f ∈ v.genMod.fns) : Contains v f.vsb.sb
  | engine {n : FnName} {p : FPtr} (h : v.funcAddrs.lookup n = some p) : Contains v p.fn.vsb.sb
  | jit {a : GuestPtr} {p : FPtr} (h : v.jit a = some p) : Contains v p.fn.vsb.sb

namespace CacheView

variable {v w : CacheView} {sb : VexSB}

theorem Contains.mono (h : w.Contains sb) (hx : ∀ a x, w.vexsb a = some x → v.vexsb a = some x)
    (hf : w.genMod.fns ⊆ v.genMod.fns) (he : w.funcAddrs = v.funcAddrs)
    (hj : ∀ a p, w.jit a = some p → v.jit a = some p) : v.Contains sb := by
  cases h with
  | cached h => exact .cached (hx _ _ h)
  | linked h => exact .linked (hf h)
  | engine h => exact .engine (he ▸ h)
  | jit h => exact .jit (hj _ _ h)

/-- What an updated place still answers. -/
theorem update_none_eq_some {α : Type} {g : GuestPtr → Option α} {a b : GuestPtr} {x : α}
    (h : Function.update g a none b = some x) : g b = some x := by
  simp only [Function.update_apply] at h
  split at h
  · cases h
  · exact h

theorem contains_release {f : Function} (h : (v.release f).Contains sb) : v.Contains sb :=
  h.mono (fun _ _ => id) (List.filter_subset_self _) rfl fun _ _ => id

theorem contains_evict {a : GuestPtr} (h : (v.evict a).Contains sb) : v.Contains sb := by
  have key : ∀ w : CacheView, w.vexsb = v.vexsb → w.jit = v.jit → (∀ sb, w.Contains sb → v.Contains sb) →
      CacheView.Contains { w with
        vexsb := Function.update v.vexsb a none
        func := Function.update v.func a none
        jit := Function.update v.jit a none
        flushed := Function.update v.flushed a v.next } sb → v.Contains sb := by
    intro w hx hj hw h
    refine hw sb (h.mono (fun b x hb => ?_) (List.Subset.refl _) rfl fun b p hb => ?_)
    · rw [hx]
      exact update_none_eq_some hb
    · rw [hj]
      exact update_none_eq_some hb
  rw [CacheView.evict] at h
  cases hf : v.func a with
  | none =>
      rw [hf] at h
      exact key v rfl rfl (fun _ => id) h
  | some f =>
      rw [hf] at h
      have hrel : ∀ sb, ((v.release f).release f).Contains sb → v.Contains sb := fun sb h =>
        contains_release (contains_release h)
      exact key ((v.release f).release f) rfl rfl hrel h

/-- An allocation adds its superblock. -/
theorem contains_alloc {victim : Option GuestPtr} {a : GuestPtr} {new : VexSB}
    (h : (v.alloc victim a new).Contains sb) : sb = new ∨ v.Contains sb := by
  have key : ∀ (w : CacheView) (sb : VexSB), (∀ sb, w.Contains sb → v.Contains sb) →
      CacheView.Contains { w with vexsb := Function.update w.vexsb a (some ⟨v.next, new⟩) } sb →
        sb = new ∨ v.Contains sb := by
    intro w sb hw h
    cases h with
    | @cached b x h =>
        simp only [Function.update_apply] at h
        split at h
        · cases h
          exact .inl rfl
        · exact .inr (hw _ (.cached h))
    | linked h => exact .inr (hw _ (.linked h))
    | engine h => exact .inr (hw _ (.engine h))
    | jit h => exact .inr (hw _ (.jit h))
  have htick : ∀ sb, CacheView.Contains { v with next := v.next + 1 } sb → v.Contains sb := fun sb h =>
    h.mono (fun _ _ => id) (List.Subset.refl _) rfl fun _ _ => id
  cases victim with
  | none => exact key _ sb htick h
  | some c => exact key _ sb (fun sb h => htick sb (contains_evict h)) h

theorem contains_emit {x : VSB} {body : LLVM.Func} (hx : v.vexsb x.guestAddr = some x)
    (h : (v.emit x body).Contains sb) : v.Contains sb := by
  cases h with
  | cached h => exact .cached h
  | linked h =>
      rcases List.mem_cons.1 h with rfl | h
      · exact .cached hx
      · exact .linked h
  | engine h => exact .engine h
  | jit h => exact .jit h

theorem contains_flush (h : v.flush.Contains sb) : v.Contains sb :=
  h.mono (fun _ _ h => by cases h) (List.Subset.refl _) rfl fun _ _ h => by cases h

theorem contains_flushRange {b e : GuestPtr} {ks : List GuestPtr}
    (h : (v.flushRange b e ks).Contains sb) : v.Contains sb := by
  have hr : ∀ (fs : List Function) (v : CacheView) (sb : VexSB), (fs.foldl CacheView.release v).Contains sb →
      v.Contains sb := by
    intro fs
    induction fs with
    | nil => exact fun _ _ => id
    | cons f fs ih => exact fun v sb h => contains_release (ih _ sb h)
  obtain ⟨hv, -, hj, -, -⟩ := CacheView.foldl_release (ks.filterMap v.func) v
  refine hr (ks.filterMap v.func) v sb (h.mono (fun a x hx => ?_) (List.Subset.refl _) rfl fun a p hp => ?_)
  · simp only [CacheView.flushRange, CacheView.flushFuncs] at hx
    split at hx
    · cases hx
    · exact hv ▸ hx
  · simp only [CacheView.flushRange] at hp
    split at hp
    · cases hp
    · exact hj ▸ hp

/-- The module is compiled: what the engine has is what the module had. -/
theorem contains_compiled {a : GuestPtr} {f : Function} {L : List (GuestPtr × FnName)} {p : FPtr}
    (hc : Compiled v a f L p w) (h : w.Contains sb) : v.Contains sb := by
  have hengine : ∀ n x, w.funcAddrs.lookup n = some x → v.Contains x.fn.vsb.sb := fun n x hx => by
    rcases hc.lookup hx with hx | ⟨hm, -⟩
    · exact .engine hx
    · exact .linked hm
  cases h with
  | cached h => exact .cached (hc.vexsb ▸ h)
  | linked h =>
      rw [hc.genMod] at h
      cases h
  | engine h => exact hengine _ _ h
  | jit h =>
      rcases hc.entered h with ⟨n, -, hl⟩ | hx
      · exact hengine n _ hl
      · exact .jit hx

end CacheView

/-! ## Translations of the code -/

/-- The superblock is the translation of the code, where it was asked for at the host
address. -/
def VexSB.Current (gen : GenLLVM) (code : GuestPtr → Option Vex.IRSB) (sb : VexSB) : Prop :=
  ∃ irsb, code sb.guestAddr = some irsb ∧ VexXlate.xlate gen sb.guestAddr irsb = .ok (some sb)

def CacheState.codeAt (c : CacheState) (base : BitVec 64) (a : GuestPtr) : Option Vex.IRSB :=
  c.code (base + a) a

/-- Everything that is held is a translation of the code that is there. -/
def CacheState.Current (gen : GenLLVM) (base : BitVec 64) (c : CacheState) : Prop :=
  ∀ sb, c.view.Contains sb → sb.Current gen (c.codeAt base)

section Current

variable {gen : GenLLVM} {base : BitVec 64} {a : GuestPtr} {s t : CacheState}

theorem codeAt_congr (h : t.code = s.code) : t.codeAt base = s.codeAt base := by
  unfold CacheState.codeAt
  rw [h]

theorem current_of_view (hcode : t.code = s.code)
    (h : ∀ sb, t.view.Contains sb → sb.Current gen (s.codeAt base)) : t.Current gen base := fun sb hsb => by
  rw [codeAt_congr hcode]
  exact h sb hsb

/-- Nothing new is held, and the code is the same. -/
theorem CacheState.Current.mono (h : s.Current gen base) (hcode : t.code = s.code)
    (hc : ∀ sb, t.view.Contains sb → s.view.Contains sb) : t.Current gen base :=
  current_of_view hcode fun sb hsb => h sb (hc sb hsb)

theorem current_of_translate {sb : VexSB} (h : s.translate gen (base + a) a = .ok (some sb)) :
    sb.Current gen (s.codeAt base) := by
  have ha := translate_guestAddr h
  unfold CacheState.translate at h
  cases hc : s.code (base + a) a with
  | none =>
      rw [hc] at h
      cases h
  | some irsb =>
      rw [hc] at h
      refine ⟨irsb, ?_, ?_⟩
      · rw [ha]
        exact hc
      · rw [ha]
        exact h

theorem VexJITCache.GotVSB.current {r : Option VSB} {w : CacheView} (h : GotVSB gen (base + a) a s r w)
    (hs : s.Current gen base) : ∀ sb, w.Contains sb → sb.Current gen (s.codeAt base) := by
  cases h with
  | found h => exact hs
  | untranslated h ht => exact hs
  | allocated h ht ha =>
      intro sb hsb
      rcases CacheView.contains_alloc hsb with rfl | hsb
      · exact current_of_translate ht
      · exact hs sb hsb

theorem VexJITCache.GotFunc.current {r : Option Function} {w : CacheView}
    (h : GotFunc gen (base + a) a s r w) (hv : s.view.Inv) (hs : s.Current gen base) :
    ∀ sb, w.Contains sb → sb.Current gen (s.codeAt base) := by
  cases h with
  | found h => exact hs
  | untranslated h hg => exact GotVSB.current hg hs
  | emitted h hg hb =>
      obtain ⟨rfl, hc⟩ := hg.cached hv
      exact fun sb hsb => GotVSB.current hg hs sb (CacheView.contains_emit hc hsb)

theorem getVSB_current {r : Option VSB} (hs : s.OK) (hc : s.Current gen base)
    (h : getVSB gen (base + a) a s = .ok (r, t)) : t.Current gen base :=
  current_of_view ((keepsCode_getVSB gen _ _).code_eq s r t h) (GotVSB.current (getVSB_spec hs h).2 hc)

theorem getFunc_current {r : Option Function} (hs : s.OK) (hv : s.view.Inv) (hc : s.Current gen base)
    (h : getFunc gen (base + a) a s = .ok (r, t)) : t.Current gen base :=
  current_of_view ((keepsCode_getFunc gen _ _).code_eq s r t h)
    (GotFunc.current (getFunc_spec hs h).2 hv hc)

/-- What `getFPtr` translates, the exits it prefetches included, is the code that is
there. It prefetches where guest addresses are host addresses. -/
theorem getFPtr_current {p : FPtr} (hs : s.OK) (hv : s.view.Inv) (hc : s.Current gen base)
    (h : getFPtr gen (base + a) a s = .ok (p, t)) : t.Current gen base := by
  have hcode := (keepsCode_getFPtr gen _ _).code_eq s p t h
  have hJ : KeptByGet gen fun _ => True := ⟨fun _ _ _ _ => trivial, fun _ _ _ _ _ => trivial⟩
  obtain ⟨ok, ⟨-, he⟩ | ⟨-, r, u, hf, -, hcomp⟩⟩ :=
    getFPtr_spec (fetchInv_reached hJ) (fun q v hq => hq.jit) hs ⟨hv, trivial⟩ h
  · exact hc.mono hcode fun sb hsb => he ▸ hsb
  · have hu : u.OK ∧ u.view.Inv ∧ u.Current gen base ∧ u.code = s.code := by
      refine (fetch_along (fun u => u.OK ∧ u.view.Inv ∧ u.Current gen base ∧ u.code = s.code)
        (fun _ => True) hf (fun s₁ s₂ h₁ h₂ => ?_) fun e x q y hasks hx hg => ⟨?_, fun _ _ => trivial⟩).1
      · obtain ⟨-, hv₁, ok₁⟩ := getCachedFPtr_spec hs a h₁
        have hcode₁ := (keepsCode_getCachedFPtr a).code_eq s _ s₁ h₁
        have hc₁ : s₁.Current gen base := hc.mono hcode₁ fun sb hsb => hv₁ ▸ hsb
        obtain ⟨ok₂, g⟩ := getFunc_spec ok₁ h₂
        exact ⟨ok₂, g.inv (hv₁ ▸ hv), getFunc_current ok₁ (hv₁ ▸ hv) hc₁ h₂,
          ((keepsCode_getFunc gen _ _).code_eq s₁ _ s₂ h₂).trans hcode₁⟩
      · obtain ⟨okx, hvx, hcx, hcodex⟩ := hx
        obtain ⟨oky, g⟩ := getFunc_spec okx hg
        -- the host address of an exit is the exit itself
        have hbase : base = 0 := by
          have := hasks.1
          simpa using this
        have hg' : getFunc gen (base + e) e x = .ok (q, y) := by
          rw [hbase, zero_add]
          exact hg
        exact ⟨oky, g.inv hvx, getFunc_current okx hvx hcx hg',
          ((keepsCode_getFunc gen _ _).code_eq x _ y hg).trans hcodex⟩
    obtain ⟨-, -, hcu, hcodeu⟩ := hu
    exact hcu.mono (hcode.trans hcodeu.symm) fun sb hsb => CacheView.contains_compiled hcomp hsb

theorem setMaxCache_current {x : ℕ} {r : Unit} (hs : s.OK) (hc : s.Current gen base)
    (h : setMaxCache x s = .ok (r, t)) : t.Current gen base := by
  refine hc.mono ((keepsCode_setMaxCache x).code_eq s r t h) fun sb hsb => ?_
  obtain ⟨-, hv | hv⟩ := setMaxCache_spec hs h
  · rwa [hv] at hsb
  · rw [hv] at hsb
    exact CacheView.contains_flush hsb

/-- Nothing is held at first. -/
theorem current_init (code : HostPtr → GuestPtr → Option Vex.IRSB) (rand : ℕ → ℕ) :
    (CacheState.init code rand).Current gen base := fun sb h => by
  cases h with
  | linked h => cases h
  | _ h => cases h

theorem flushRange_current {b e : GuestPtr} {r : Unit} (hs : s.OK) (hc : s.Current gen base)
    (h : flushRange b e s = .ok (r, t)) : t.Current gen base := by
  obtain ⟨-, ks, -, -, hv⟩ := flushRange_spec hs h
  refine hc.mono ((keepsCode_flushRange b e).code_eq s r t h) fun sb hsb => ?_
  rw [hv] at hsb
  exact CacheView.contains_flushRange hsb

end Current

end VexLLVM
