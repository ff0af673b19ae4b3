import VexLLVM.Exec.VexExec

/-!
# Where compiled code comes from

Every function of the caches was emitted from its superblock, and every superblock
was made by `VexSB::create`, from some block of the decoder.
-/

namespace VexLLVM

open LLVM

def VexSB.Created (gen : GenLLVM) (sb : VexSB) : Prop := ∃ a irsb, VexSB.create gen a irsb = some sb

structure Function.Emitted (gen : GenLLVM) (f : Function) : Prop where
  created : f.vsb.sb.Created gen
  body : f.vsb.sb.emit gen = .ok f.body

theorem VexXlate.created {gen : GenLLVM} {a : GuestPtr} {irsb : Vex.IRSB} {sb : VexSB}
    (h : VexXlate.xlate gen a irsb = .ok (some sb)) : sb.Created gen := by
  refine ⟨a, irsb, ?_⟩
  unfold VexXlate.xlate at h
  split at h
  · cases h
  · next hc =>
      split at h
      · cases h
      · cases h
      · split at h
        · cases h
          exact hc
        · cases h

structure CacheView.Emitted (gen : GenLLVM) (v : CacheView) : Prop where
  vexsb : ∀ a x, v.vexsb a = some x → x.sb.Created gen
  fns : ∀ f ∈ v.genMod.fns, f.Emitted gen
  engine : ∀ n p, v.funcAddrs.lookup n = some p → p.fn.Emitted gen
  jit : ∀ a p, v.jit a = some p → p.fn.Emitted gen

namespace CacheView.Emitted

variable {gen : GenLLVM} {v w : CacheView}

/-- What is left of the caches comes from where it came from. -/
theorem mono (h : v.Emitted gen) (hx : ∀ a x, w.vexsb a = some x → v.vexsb a = some x)
    (hf : w.genMod.fns ⊆ v.genMod.fns) (he : w.funcAddrs = v.funcAddrs)
    (hj : ∀ a p, w.jit a = some p → v.jit a = some p) : w.Emitted gen :=
  ⟨fun a x hw => h.vexsb a x (hx a x hw), fun f hw => h.fns f (hf hw),
    fun n p hw => h.engine n p (he ▸ hw), fun a p hw => h.jit a p (hj a p hw)⟩

theorem release (h : v.Emitted gen) (f : Function) : (v.release f).Emitted gen :=
  h.mono (fun _ _ => id) (List.filter_subset_self _) rfl fun _ _ => id

theorem foldl_release (h : v.Emitted gen) (fs : List Function) :
    (fs.foldl CacheView.release v).Emitted gen := by
  induction fs generalizing v with
  | nil => exact h
  | cons f fs ih => exact ih (h.release f)

theorem evict (h : v.Emitted gen) (a : GuestPtr) : (v.evict a).Emitted gen := by
  have key : ∀ w : CacheView, w.Emitted gen → w.vexsb = v.vexsb → w.jit = v.jit →
      CacheView.Emitted gen { w with
        vexsb := Function.update v.vexsb a none
        func := Function.update v.func a none
        jit := Function.update v.jit a none
        flushed := Function.update v.flushed a v.next } := by
    intro w hw hx hj
    refine hw.mono (fun b x hb => ?_) (List.Subset.refl _) rfl fun b p hb => ?_
    · simp only [Function.update_apply] at hb
      split at hb
      · cases hb
      · exact hx ▸ hb
    · simp only [Function.update_apply] at hb
      split at hb
      · cases hb
      · exact hj ▸ hb
  rw [CacheView.evict]
  cases v.func a with
  | none => exact key v h rfl rfl
  | some f => exact key _ ((h.release f).release f) rfl rfl

theorem alloc (h : v.Emitted gen) (victim : Option GuestPtr) (a : GuestPtr) {sb : VexSB}
    (hsb : sb.Created gen) : (v.alloc victim a sb).Emitted gen := by
  have key : ∀ {w : CacheView}, w.Emitted gen →
      CacheView.Emitted gen { w with vexsb := Function.update w.vexsb a (some ⟨v.next, sb⟩) } := by
    intro w hw
    refine ⟨fun b x hb => ?_, hw.fns, hw.engine, hw.jit⟩
    simp only [Function.update_apply] at hb
    split at hb
    · cases hb
      exact hsb
    · exact hw.vexsb b x hb
  have ht : CacheView.Emitted gen { v with next := v.next + 1 } := ⟨h.vexsb, h.fns, h.engine, h.jit⟩
  cases victim with
  | none => exact key ht
  | some c => exact key (ht.evict c)

theorem emit (h : v.Emitted gen) {x : VSB} {body : LLVM.Func} (hx : v.vexsb x.guestAddr = some x)
    (hb : x.sb.emit gen = .ok body) : (v.emit x body).Emitted gen := by
  refine ⟨h.vexsb, fun f hf => ?_, h.engine, h.jit⟩
  rcases List.mem_cons.1 hf with rfl | hf
  · exact ⟨h.vexsb _ _ hx, hb⟩
  · exact h.fns f hf

theorem flushRange (h : v.Emitted gen) (b e : GuestPtr) (ks : List GuestPtr) :
    (v.flushRange b e ks).Emitted gen := by
  have hr := h.foldl_release (ks.filterMap v.func)
  refine ⟨fun a x hx => ?_, hr.fns, hr.engine, fun a p hp => ?_⟩
  · simp only [CacheView.flushRange, CacheView.flushFuncs] at hx
    split at hx
    · cases hx
    · exact h.vexsb a x hx
  · simp only [CacheView.flushRange] at hp
    split at hp
    · cases hp
    · exact h.jit a p hp

/-- The module is compiled: what the engine has is what the module had. -/
theorem compile {a : GuestPtr} {f : Function} {L : List (GuestPtr × FnName)} {p : FPtr}
    (h : v.Emitted gen) (hc : VexJITCache.Compiled v a f L p w) : w.Emitted gen := by
  have hengine : ∀ n x, w.funcAddrs.lookup n = some x → x.fn.Emitted gen := fun n x hx => by
    rcases hc.lookup hx with hx | ⟨hm, -⟩
    · exact h.engine n x hx
    · exact h.fns _ hm
  refine ⟨hc.vexsb ▸ h.vexsb, fun g hg => ?_, hengine, fun b x hx => ?_⟩
  · rw [hc.genMod] at hg
    cases hg
  · rcases hc.entered hx with ⟨n, -, hl⟩ | hx
    · exact hengine n x hl
    · exact h.jit b x hx

end CacheView.Emitted

theorem kept_emitted (gen : GenLLVM) : VexJITCache.Kept gen (CacheView.Emitted gen) where
  alloc _ h _ hx := h.alloc _ _ (VexXlate.created hx.choose_spec)
  emit _ h hx _ hb := h.emit hx hb
  evict a _ h := h.evict a
  flush _ h := ⟨fun _ _ hx => (by cases hx), h.fns, h.engine, fun _ _ hp => (by cases hp)⟩
  flushRange _ h _ _ := h.flushRange _ _ _

theorem CacheRun.emitted {gen : GenLLVM} {C : CacheState → CacheOp → Prop}
    {code : HostPtr → GuestPtr → Option Vex.IRSB} {rand : ℕ → ℕ} {ops : List CacheOp}
    {s : CacheState} (run : CacheRun gen C (.init code rand) ops s) : s.view.Emitted gen := by
  refine (run.keeps (fun s => s.OK ∧ s.view.Inv ∧ s.view.Emitted gen)
    ⟨.init code rand, .init code rand, ⟨fun _ _ h => (by cases h), fun _ h => (by cases h),
      fun _ _ h => (by cases h), fun _ _ h => (by cases h)⟩⟩ fun s op r t hs _ h => ?_).2.2
  exact VexJITCache.exec_keeps (kept_emitted gen) hs.1 hs.2.1 hs.2.2
    (fun _ _ _ _ _ hj hc => hj.compile hc) h

/-- Code the caches hand out. -/
theorem CacheState.Reachable.emitted {gen : GenLLVM} {c d : CacheState} {a : GuestPtr} {p : FPtr}
    (hc : c.Reachable gen) (h : VexJITCache.getCachedFPtr a c = .ok (some p, d)) :
    p.fn.Emitted gen := by
  have hp := (getCachedFPtr_spec hc.ok a h).1
  obtain ⟨code, rand, ops, run⟩ := hc
  exact run.emitted.jit a p hp.symm

end VexLLVM
