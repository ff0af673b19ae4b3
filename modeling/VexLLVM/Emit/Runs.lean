import VexLLVM.LLVM.Walk
import VexLLVM.Emit.Builds

/-!
# What emitted code does when it runs

`Runs` is the judgement emitted code is followed with at run time: from a frame at
the insertion point a finished function either arrives at the insertion point
after the code, or leaves through a return in it. The results a frame has are
kept on the way, as instructions are numbered upwards.

With `total` the function is shown not to get stuck; without it, only frames are
looked at from which the function does return.
-/

namespace LLVM

variable {ext : Extern} {G : Func} {fr fr' : Frame}

/-- The function returns from the frame; asked for only where `total` is `false`. -/
def Func.Alive (total : Bool) (ext : Extern) (G : Func) (fr : Frame) : Prop :=
  total = true ∨ ∃ n r, G.run ext n fr = some r

/-- The function returns, at a frame as described. -/
def Func.Leaves (ext : Extern) (G : Func) (fr : Frame) (R : Frame → RVal → Prop) : Prop :=
  ∃ fr' v, G.Reach ext fr fr' ∧ G.step ext fr' = .done v fr'.m ∧ R fr' v

namespace Func

variable {total : Bool} {R R' : Frame → RVal → Prop}

theorem Alive.step (h : G.Alive total ext fr) (hs : G.step ext fr = .next fr') :
    G.Alive total ext fr' := by
  refine h.imp_right ?_
  rintro ⟨n, r, hr⟩
  cases n with
  | zero => cases hr
  | succ n =>
      rw [run, hs] at hr
      exact ⟨n, r, hr⟩

theorem Alive.reach (h : G.Alive total ext fr) (hr : G.Reach ext fr fr') :
    G.Alive total ext fr' := by
  induction hr with
  | refl => exact h
  | tail _ hs ih => exact ih.step hs

/-- A function that returns is not stuck. -/
theorem Alive.not_stuck (h : G.Alive total ext fr) (ht : total = false) :
    G.step ext fr ≠ .stuck := by
  intro hs
  rcases h with h | ⟨n, r, hr⟩
  · rw [ht] at h
    cases h
  · cases n with
    | zero => cases hr
    | succ n =>
        rw [run, hs] at hr
        cases hr

theorem Leaves.of_reach (h : G.Leaves ext fr' R) (hr : G.Reach ext fr fr') : G.Leaves ext fr R := by
  obtain ⟨fr₂, v, hr', hs, hR⟩ := h
  exact ⟨fr₂, v, hr.trans hr', hs, hR⟩

theorem Leaves.mono (h : G.Leaves ext fr R) (hR : ∀ fr v, R fr v → R' fr v) :
    G.Leaves ext fr R' := by
  obtain ⟨fr', v, hr, hs, h⟩ := h
  exact ⟨fr', v, hr, hs, hR fr' v h⟩

end Func

end LLVM

namespace VexLLVM

open LLVM LLVM.Code Vex StateExcept

/-! ## Running -/

abbrev Assertion := GenState → Frame → Prop

/-- From the frame at `σ` the function reaches the insertion point of `σ'`. -/
def Arrives (ext : Extern) (G : Func) (fr : Frame) (σ σ' : GenState) (Q : Assertion) : Prop :=
  ∃ fr', G.Reach ext fr fr' ∧ fr'.At σ'.toBuilder ∧ fr.Keeps fr' σ.nextId ∧ Q σ' fr'

/-- From a frame in `P` the emitted code arrives in `Q`, or leaves in `R`. -/
def Runs {α : Type} (total : Bool) (ext : Extern) (P : Assertion) (m : EmitM α)
    (Q : α → Assertion) (R : Frame → RVal → Prop) : Prop :=
  ∀ σ a σ' G fr, m σ = .ok (a, σ') → σ.toBuilder.OK → Builder.Extends σ'.func G →
    G.Alive total ext fr → fr.At σ.toBuilder → P σ fr →
      Arrives ext G fr σ σ' (Q a) ∨ G.Leaves ext fr R

variable {α β : Type} {total : Bool} {ext : Extern} {P P' P₁ Q₀ : Assertion} {m : EmitM α}
  {Q Q' : α → Assertion} {R R' : Frame → RVal → Prop} {σ σ' : GenState} {fr fr' : Frame}

theorem Runs.conseq (h : Runs total ext P m Q R) (hP : ∀ σ fr, P' σ fr → P σ fr)
    (hQ : ∀ a σ fr, Q a σ fr → Q' a σ fr) (hR : ∀ fr v, R fr v → R' fr v) :
    Runs total ext P' m Q' R' := by
  intro σ a σ' G fr hm hok hG hl hat hp
  rcases h σ a σ' G fr hm hok hG hl hat (hP σ fr hp) with ⟨fr', hr, hat', hk, hq⟩ | hleave
  · exact .inl ⟨fr', hr, hat', hk, hQ a σ' fr' hq⟩
  · exact .inr (hleave.mono hR)

theorem Runs.post (h : Runs total ext P m Q R) (hQ : ∀ a σ fr, Q a σ fr → Q' a σ fr) :
    Runs total ext P m Q' R :=
  h.conseq (fun _ _ => id) hQ fun _ _ => id

theorem Runs.pre (h : Runs total ext P m Q R) (hP : ∀ σ fr, P' σ fr → P σ fr) :
    Runs total ext P' m Q R :=
  h.conseq hP (fun _ _ _ => id) fun _ _ => id

theorem runs_pure (a : α) : Runs total ext (Q a) (pure a) Q R := by
  intro σ a' σ' G fr hm _ _ _ hat hp
  cases hm
  exact .inl ⟨fr, .refl, hat, .refl _ _, hp⟩

theorem runs_done : Runs total ext P (pure ()) (fun _ => P) R := runs_pure (Q := fun _ => P) ()

theorem runs_throw (e : EmitError) : Runs total ext P (throw e : EmitM α) Q R :=
  fun _ _ _ _ _ hm => by cases hm

theorem Runs.bind {f : α → EmitM β} [Builds m] [∀ a, Builds (f a)] {Q₂ : β → Assertion}
    (h : Runs total ext P m Q R) (hf : ∀ a, Runs total ext (Q a) (f a) Q₂ R) :
    Runs total ext P (m >>= f) Q₂ R := by
  intro σ b σ₂ G fr hm hok hG hl hat hp
  obtain ⟨a, σ₁, h₁, h₂⟩ := bind_eq_ok hm
  have he := (Builds.onward h₁ hok).emits
  have he' := (Builds.onward h₂ he.ok).emits
  rcases h σ a σ₁ G fr h₁ hok (he'.ext.trans hG) hl hat hp with ⟨fr₁, hr, hat₁, hk, hq⟩ | hleave
  · rcases hf a σ₁ b σ₂ G fr₁ h₂ he.ok hG (hl.reach hr) hat₁ hq with
      ⟨fr₂, hr', hat₂, hk', hq'⟩ | hleave
    · exact .inl ⟨fr₂, hr.trans hr', hat₂, hk.trans hk' he.grows.nextId, hq'⟩
    · exact .inr (hleave.of_reach hr)
  · exact .inr hleave

/-- A part of the precondition that is about neither state. -/
theorem runs_of_and {c : Prop} (h : c → Runs total ext P m Q R) :
    Runs total ext (fun σ fr => c ∧ P σ fr) m Q R :=
  fun σ a σ' G fr hm hok hG hl hat hp => h hp.1 σ a σ' G fr hm hok hG hl hat hp.2

theorem runs_exists {ι : Sort*} {P : ι → Assertion} (h : ∀ i, Runs total ext (P i) m Q R) :
    Runs total ext (fun σ fr => ∃ i, P i σ fr) m Q R :=
  fun σ a σ' G fr hm hok hG hl hat ⟨i, hp⟩ => h i σ a σ' G fr hm hok hG hl hat hp

theorem runs_get {f : GenState → EmitM β} {Q₂ : β → Assertion}
    (h : ∀ s, Runs total ext (fun σ fr => σ = s ∧ P σ fr) (f s) Q₂ R) :
    Runs total ext P (get >>= f) Q₂ R := by
  intro σ b σ' G fr hm hok hG hl hat hp
  rw [get_bind] at hm
  exact h σ σ b σ' G fr hm hok hG hl hat ⟨rfl, hp⟩

/-! ## What is kept -/

/-- `σ'` comes after `σ`, on whichever path through the code between them. -/
structure Later (σ σ' : GenState) : Prop where
  values : ∀ t v, σ.values t = some v → σ'.values t = some v
  nextId : σ.nextId ≤ σ'.nextId
  caches : σ'.insertBlock = entryBB → σ.insertBlock = entryBB ∧
    σ'.gepbyteMap = σ.gepbyteMap ∧ σ'.ctxcastMap = σ.ctxcastMap

/-- An assertion that code keeps which changes neither the machine nor results it
knows of. -/
def Lasting (P : Assertion) : Prop :=
  ∀ σ σ' fr fr', Later σ σ' → fr.Keeps fr' σ.nextId → fr'.m = fr.m → P σ fr → P σ' fr'

theorem Lasting.and (h : Lasting P) (h' : Lasting P') : Lasting fun σ fr => P σ fr ∧ P' σ fr :=
  fun σ σ' fr fr' hl hk hm hp =>
    ⟨h σ σ' fr fr' hl hk hm hp.1, h' σ σ' fr fr' hl hk hm hp.2⟩

theorem lasting_const (c : Prop) : Lasting fun _ _ => c := fun _ _ _ _ _ _ _ hp => hp

/-- A known result stays known. -/
theorem Runs.keep [Builds m] (h : Runs total ext P m Q R) (v : Value) (x : RVal) :
    Runs total ext (fun σ fr => P σ fr ∧ fr.Has σ.nextId v x) m
      (fun a σ fr => Q a σ fr ∧ fr.Has σ.nextId v x) R := by
  intro σ a σ' G fr hm hok hG hl hat hp
  have he := (Builds.onward hm hok).emits
  refine (h σ a σ' G fr hm hok hG hl hat hp.1).imp_left ?_
  rintro ⟨fr', hr, hat', hk, hq⟩
  exact ⟨fr', hr, hat', hk, hq, hp.2.keeps hk (Nat.le_refl _) he.grows.nextId⟩

/-! ## Straight-line code -/

theorem Later.of_run {c : Code EmitError α} {a : α} {b : Builder}
    (h : c.run σ.toBuilder = .ok (a, b)) (hok : σ.toBuilder.OK) :
    Later σ { σ with toBuilder := b } where
  values _ _ := id
  nextId := (run_emits h hok).grows.nextId
  caches hb := ⟨(run_insertBlock h).symm.trans hb, rfl, rfl⟩

/-- Code whose instructions all have a value, and change nothing. -/
theorem runs_code (c : Code EmitError α) {q : (Value → Option RVal) → α → Prop} (hP : Lasting P)
    (h : ∀ σ fr ev, P σ fr → fr.KnownTo σ.nextId ev → c.Computes ev fr.m (q ev)) :
    Runs total ext P (code c)
      (fun a σ fr => P σ fr ∧ ∀ ev, fr.KnownTo σ.nextId ev → q ev a) R := by
  intro σ a σ' G fr hm hok hG _ hat hp
  obtain ⟨b, hrun, rfl⟩ := code_eq_ok hm
  obtain ⟨fr', hr, hat', hm', hk, hq⟩ :=
    Computes.run hrun hok hG hat fun ev hev => h σ fr ev hp hev
  exact .inl ⟨fr', hr, hat', hk, hP _ _ fr fr' (.of_run hrun hok) hk hm' hp, hq⟩

/-- A known value of the result of straight-line code. -/
theorem Frame.has_of_known {n : ℕ} {v : Value} {x : RVal}
    (h : ∀ ev, fr.KnownTo n ev → ev v = some x) : fr.Has n v x :=
  Frame.known_eq_some.1 (h _ (.known fr n))

/-- One instruction that the builder does not fold. -/
theorem runs_inst {i : Inst} (hs : i.simplify? = none) {Q : Value → Assertion}
    (hex : total = true → ∀ σ fr, P σ fr → (i.exec ext fr).isSome = true)
    (hq : ∀ σ σ' fr fr' v x, Later σ σ' → fr.Keeps fr' σ.nextId → P σ fr →
      i.exec ext fr = some (x, fr'.m) → fr'.Has σ'.nextId v x → v.ty = i.ty → Q v σ' fr') :
    Runs total ext P (code (create i)) Q R := by
  intro σ v σ' G fr hm hok hG hl hat hp
  have hm : (Except.ok ((σ.toBuilder.create i).1, { σ with toBuilder := (σ.toBuilder.create i).2 }) :
      Except EmitError _) = .ok (v, σ') := hm
  rw [Builder.create_of_none hs] at hm
  cases hm
  have hget := Builder.insert_getElem? i hG hat
  cases hx : i.exec ext fr with
  | none =>
      have hstuck : G.step ext fr = .stuck := by simp [Func.step, hget, hx]
      cases ht : total with
      | true =>
          have hsome := hex ht σ fr hp
          rw [hx] at hsome
          cases hsome
      | false => exact (hl.not_stuck ht hstuck).elim
  | some r =>
      obtain ⟨x, m⟩ := r
      obtain ⟨fr', hr, hat', rfl, hk, hv⟩ := Builder.insert_reach hG hat hx
      refine .inl ⟨fr', hr, hat', hk, hq σ _ fr fr' _ x ?_ hk hp hx hv rfl⟩
      exact ⟨fun _ _ => id, Nat.le_succ _, fun hb => ⟨hb, rfl, rfl⟩⟩

/-! ## Walking through code -/

/-- From a frame in `P` the emitted code is walked through to one in `Q`, without
undefined behaviour exactly if `p`. -/
def Passes {α : Type} (ext : Extern) (P : Assertion) (m : EmitM α) (p : Prop) (Q : α → Assertion) :
    Prop :=
  ∀ σ a σ' G fr, m σ = .ok (a, σ') → σ.toBuilder.OK → Builder.Extends σ'.func G →
    fr.At σ.toBuilder → P σ fr →
      ∃ fr', Walks ext G σ.toBuilder σ'.toBuilder fr fr' p ∧ Q a σ' fr'

section Passes

variable {p q : Prop}

theorem Passes.runs (h : Passes ext P m p Q) : Runs total ext P m Q R := by
  intro σ a σ' G fr hm hok hG _ hat hp
  obtain ⟨fr', hw, hq⟩ := h σ a σ' G fr hm hok hG hat hp
  exact .inl ⟨fr', Func.reach_of_after hw.after, hw.at_, hw.keeps, hq⟩

theorem Passes.congr (h : Passes ext P m p Q) (hpq : p ↔ q) : Passes ext P m q Q := by
  intro σ a σ' G fr hm hok hG hat hp
  obtain ⟨fr', hw, hq⟩ := h σ a σ' G fr hm hok hG hat hp
  exact ⟨fr', hw.congr hpq, hq⟩

theorem Passes.post (h : Passes ext P m p Q) (hQ : ∀ a σ fr, Q a σ fr → Q' a σ fr) :
    Passes ext P m p Q' := by
  intro σ a σ' G fr hm hok hG hat hp
  obtain ⟨fr', hw, hq⟩ := h σ a σ' G fr hm hok hG hat hp
  exact ⟨fr', hw, hQ a σ' fr' hq⟩

/-- What is known of the result of the computation. -/
theorem Passes.result {φ : α → Prop} (h : Passes ext P m p Q)
    (hφ : ∀ σ a σ', m σ = .ok (a, σ') → φ a) :
    Passes ext P m p fun a σ fr => φ a ∧ Q a σ fr := by
  intro σ a σ' G fr hm hok hG hat hp
  obtain ⟨fr', hw, hq⟩ := h σ a σ' G fr hm hok hG hat hp
  exact ⟨fr', hw, hφ σ a σ' hm, hq⟩

theorem passes_pure (a : α) : Passes ext (Q a) (pure a) True Q := by
  intro σ a' σ' G fr hm _ _ hat hp
  cases hm
  exact ⟨fr, .refl hat, hp⟩

theorem Passes.bind {f : α → EmitM β} [Builds m] [∀ a, Builds (f a)] {Q₂ : β → Assertion}
    (h : Passes ext P m p Q) (hf : ∀ a, Passes ext (Q a) (f a) q Q₂) :
    Passes ext P (m >>= f) (p ∧ q) Q₂ := by
  intro σ b σ₂ G fr hm hok hG hat hp
  obtain ⟨a, σ₁, h₁, h₂⟩ := bind_eq_ok hm
  have he := (Builds.onward h₁ hok).emits
  have he' := (Builds.onward h₂ he.ok).emits
  obtain ⟨fr₁, hw, hq⟩ := h σ a σ₁ G fr h₁ hok (he'.ext.trans hG) hat hp
  obtain ⟨fr₂, hw', hq'⟩ := hf a σ₁ b σ₂ G fr₁ h₂ he.ok hG hw.at_ hq
  exact ⟨fr₂, hw.trans hw' he.grows.nextId, hq'⟩

theorem passes_of_and {c : Prop} (h : c → Passes ext P m p Q) :
    Passes ext (fun σ fr => c ∧ P σ fr) m p Q :=
  fun σ a σ' G fr hm hok hG hat hp => h hp.1 σ a σ' G fr hm hok hG hat hp.2

/-- Code whose instructions all have a value, and change nothing. -/
theorem passes_code (c : Code EmitError α) (hc : c.Plain) {q : (Value → Option RVal) → α → Prop}
    (hP : Lasting P) (h : ∀ σ fr ev, P σ fr → fr.KnownTo σ.nextId ev → c.Computes ev fr.m (q ev)) :
    Passes ext P (code c) True
      (fun a σ fr => P σ fr ∧ ∀ ev, fr.KnownTo σ.nextId ev → q ev a) := by
  intro σ a σ' G fr hm hok hG hat hp
  obtain ⟨b, hrun, rfl⟩ := code_eq_ok hm
  obtain ⟨fr', hw, hm', hq⟩ := hc.walks hrun hok hG hat fun ev hev => h σ fr ev hp hev
  exact ⟨fr', hw, hP _ _ fr fr' (.of_run hrun hok) hw.keeps hm' hp, hq⟩

/-- One instruction that the builder does not fold. -/
theorem passes_inst {i : Inst} (hs : i.simplify? = none) {Q : Value → Assertion}
    (hp : ∀ σ fr, P σ fr → (¬ i.Misaligned fr ↔ p))
    (hex : ∀ σ fr, P σ fr → (i.exec ext fr).isSome = true)
    (hq : ∀ σ σ' fr fr' v x, Later σ σ' → fr.Keeps fr' σ.nextId → P σ fr →
      i.exec ext fr = some (x, fr'.m) → fr'.Has σ'.nextId v x → v.ty = i.ty → Q v σ' fr') :
    Passes ext P (code (create i)) p Q := by
  intro σ v σ' G fr hm hok hG hat hpre
  have hm : (Except.ok ((σ.toBuilder.create i).1, { σ with toBuilder := (σ.toBuilder.create i).2 }) :
      Except EmitError _) = .ok (v, σ') := hm
  rw [Builder.create_of_none hs] at hm
  cases hm
  obtain ⟨⟨x, m⟩, hx⟩ := Option.isSome_iff_exists.1 (hex σ fr hpre)
  have hw : Walks ext G _ _ fr _ _ := .insert hG hat hx
  refine ⟨_, hw.congr (hp σ fr hpre), hq σ _ fr _ _ x ?_ hw.keeps hpre hx
    (Walks.has_insert fr _ i x m) rfl⟩
  exact ⟨fun _ _ => id, Nat.le_succ _, fun hb => ⟨hb, rfl, rfl⟩⟩

end Passes

/-! ## Temporaries -/

theorem runs_getRegValue (t : IRTemp) {Q : Value → Assertion}
    (h : ∀ σ fr v, σ.values t = some v → P σ fr → Q v σ fr) (hQ : ∀ v, Lasting (Q v)) :
    Runs total ext P (getRegValue t) Q R := by
  intro σ v σ' G fr hm _ _ _ hat hp
  unfold getRegValue at hm
  cases hv : σ.values t with
  | none =>
      rw [hv] at hm
      cases hm
  | some w =>
      rw [hv] at hm
      cases hm
      refine .inl ⟨fr, .refl, hat, .refl _ _, hQ _ σ _ fr fr ?_ (.refl _ _) rfl (h σ fr _ hv hp)⟩
      exact ⟨fun _ _ => id, Nat.le_refl _, fun hb => ⟨hb, rfl, rfl⟩⟩

theorem runs_setRegValue (t : IRTemp) (v : Value) {Q : Unit → Assertion} (hP : Lasting P)
    (h : ∀ σ fr, σ.values t = some v → P σ fr → Q () σ fr) :
    Runs total ext P (setRegValue t v) Q R := by
  intro σ u σ' G fr hm hok _ _ hat hp
  have hvals := (Builds.onward hm hok).values
  unfold setRegValue at hm
  cases hv : σ.values t with
  | some w =>
      rw [hv] at hm
      cases hm
  | none =>
      rw [hv] at hm
      cases hm
      refine .inl ⟨fr, .refl, hat, .refl _ _, h _ fr (Function.update_self ..)
        (hP σ _ fr fr ⟨hvals, Nat.le_refl _, fun hb => ⟨hb, rfl, rfl⟩⟩ (.refl _ _) rfl hp)⟩

/-! ## Blocks -/

theorem At.newBlock (hok : σ.toBuilder.OK) (h : fr.At σ.toBuilder) :
    fr.At σ.newBlock.toBuilder where
  blk := h.blk
  pos := by
    change fr.pos = (σ.toBuilder.createBlock.2.block σ.insertBlock).insts.length
    rw [Builder.createBlock_block, if_neg (Nat.ne_of_lt hok.lt)]
    exact h.pos

theorem Later.newBlock (σ : GenState) : Later σ σ.newBlock :=
  ⟨fun _ _ => id, Nat.le_refl _, fun hb => ⟨hb, rfl, rfl⟩⟩

theorem Later.trans {σ₁ σ₂ : GenState} (h : Later σ σ₁) (h' : Later σ₁ σ₂) : Later σ σ₂ where
  values t v hv := h'.values t v (h.values t v hv)
  nextId := h.nextId.trans h'.nextId
  caches hb := by
    obtain ⟨hb, hg, hc⟩ := h'.caches hb
    obtain ⟨hb, hg', hc'⟩ := h.caches hb
    exact ⟨hb, hg.trans hg', hc.trans hc'⟩

/-- Into a block that is not the entry, which the caches are not used in. -/
theorem Later.of_ne {σ' : GenState} (hv : ∀ t v, σ.values t = some v → σ'.values t = some v)
    (hn : σ.nextId ≤ σ'.nextId) (hne : σ'.insertBlock ≠ entryBB) : Later σ σ' :=
  ⟨hv, hn, fun hb => (hne hb).elim⟩

/-- The terminator of a block that has been ended, from the end of the block. -/
theorem endBlock_step {t : Term} {n : ℕ} (hat : fr.At σ.toBuilder)
    {G : Func} (hG : Builder.Extends (σ.endBlock t n).func G) :
    (G.blocks fr.blk).insts[fr.pos]? = none ∧ (G.blocks fr.blk).term = some t :=
  Builder.terminate_getElem? (b := σ.toBuilder) hG hat

theorem At.enter {t : Term} {n : ℕ} (h : σ.toBuilder.Waiting n) (fr : Frame) :
    (fr.goto n).At (σ.endBlock t n).toBuilder :=
  Builder.At.goto (b := σ.toBuilder.terminate t) (by
    rw [Builder.terminate_block, if_neg h.ne, h.empty])

/-- From the end of a block that ended with a branch. -/
theorem step_br {n k : ℕ} (hat : fr.At σ.toBuilder) {G : Func}
    (hG : Builder.Extends (σ.endBlock (.br n) k).func G) : G.step ext fr = .next (fr.goto n) := by
  obtain ⟨hi, ht⟩ := endBlock_step hat hG
  simp [Func.step, hi, ht]

/-- From the end of a block that ended with a conditional branch: it is taken, or the
condition has no value. -/
theorem step_condBr {c : Value} {t f n : ℕ} (hat : fr.At σ.toBuilder) {G : Func}
    (hG : Builder.Extends (σ.endBlock (.condBr c t f) n).func G) :
    (∃ x, fr.eval c = some (.bits x) ∧
        G.step ext fr = .next (fr.goto (if x = 0 then f else t))) ∨
      (¬ ∃ x, fr.eval c = some (.bits x)) ∧ G.step ext fr = .stuck := by
  obtain ⟨hi, ht⟩ := endBlock_step hat hG
  simp only [Func.step, hi, ht]
  split
  · next x hx => exact .inl ⟨x, hx, rfl⟩
  · next hx => exact .inr ⟨fun h => h.elim hx, rfl⟩

/-- A conditional branch is taken: in total runs because its condition has a value. -/
theorem exists_step_condBr {c : Value} {t f n : ℕ} (hat : fr.At σ.toBuilder) {G : Func}
    (hG : Builder.Extends (σ.endBlock (.condBr c t f) n).func G) (hl : G.Alive total ext fr)
    (hc : total = true → ∃ x, fr.eval c = some (.bits x)) :
    ∃ x, fr.eval c = some (.bits x) ∧
      G.step ext fr = .next (fr.goto (if x = 0 then f else t)) := by
  rcases step_condBr hat hG with h | ⟨hne, hstuck⟩
  · exact h
  · cases ht : total with
    | true => exact (hne (hc ht)).elim
    | false => exact (hl.not_stuck ht hstuck).elim

theorem keeps_goto (fr : Frame) (k n : ℕ) : fr.Keeps (fr.goto k) n := fun _ _ => rfl

/-- An assertion that is kept where blocks are made and one of them is entered. -/
structure Opens (P : Assertion) : Prop where
  newBlock : ∀ σ fr, σ.newBlock.toBuilder.OK → P σ fr → P σ.newBlock fr
  enter : ∀ σ fr t n, n ≠ entryBB → (σ.endBlock t n).toBuilder.OK → P σ fr →
    P (σ.endBlock t n) (fr.goto n)

theorem Lasting.opens (h : Lasting P) : Opens P where
  newBlock σ fr _ hp := h σ _ fr fr (.newBlock σ) (.refl _ _) rfl hp
  enter σ fr _ n hne _ hp :=
    h σ _ fr _ (.of_ne (fun _ _ => id) (Nat.le_refl _) hne) (keeps_goto fr n _) rfl hp

theorem Opens.and (h : Opens P) (h' : Opens P') : Opens fun σ fr => P σ fr ∧ P' σ fr where
  newBlock σ fr hok hp := ⟨h.newBlock σ fr hok hp.1, h'.newBlock σ fr hok hp.2⟩
  enter σ fr t n hne hok hp := ⟨h.enter σ fr t n hne hok hp.1, h'.enter σ fr t n hne hok hp.2⟩

/-- A block entered where the condition is not zero. -/
theorem runs_ifThen {cond : EmitM Value} {body : EmitM α} [Builds cond] [Builds body]
    {Qc : Value → Assertion} (hP : Opens P) (hP₁ : Opens P₁) (hQ : Lasting Q₀)
    (hc : Runs total ext P cond Qc R)
    (hg : total = true → ∀ c σ fr, Qc c σ fr → ∃ n, fr.eval c = some (.bits n))
    (ht : ∀ c σ fr n, Qc c σ fr → fr.eval c = some (.bits n) → n ≠ 0 → P₁ σ fr)
    (hf : ∀ c σ fr, Qc c σ fr → fr.eval c = some (.bits 0) → Q₀ σ fr)
    (hb : Runs total ext P₁ body (fun _ => Q₀) R) :
    Runs total ext P (ifThen cond body) (fun _ => Q₀) R := by
  intro σ a σ' G fr hm hok hG hl hat hp
  obtain ⟨c, σ₁, σ₂, hcm, hbm, rfl⟩ := ifThen_eq_ok hm
  have hsuccs : ∀ s ∈ (Term.br (σ.func.nblocks + 1)).succs,
    σ.func.nblocks ≤ s := by simp [Term.succs]
  have hi := IfThen.of_ok hok hcm hbm hsuccs
  -- the function continues what there is at each point
  have hG₂ : Builder.Extends σ₂.func G :=
    (Builder.Extends.terminate hi.then_.all.emits.ok _).trans hG
  have hG₁' := hi.then_.body.emits.ext.trans hG₂
  have hG₁ : Builder.Extends σ₁.func G :=
    (Builder.Extends.terminate hi.cond.emits.ok _).trans hG₁'
  have hne : σ.func.nblocks ≠ entryBB := Nat.ne_of_gt (Nat.lt_of_le_of_lt (Nat.zero_le _) hok.lt)
  have hok₁ := (onward_newBlock hok).emits.ok
  rcases hc _ c σ₁ G fr hcm hi.init.emits.ok hG₁ hl (At.newBlock hok₁ (At.newBlock hok hat))
      (hP.newBlock _ fr hi.init.emits.ok (hP.newBlock σ fr hok₁ hp)) with
    ⟨fr₁, hr₁, hat₁, hk₁, hq₁⟩ | hleave
  swap
  · exact .inr hleave
  obtain ⟨n, hn, hstep⟩ := exists_step_condBr hat₁ hG₁' (hl.reach hr₁)
    fun h => hg h c σ₁ fr₁ hq₁
  have hr₁' := hr₁.tail hstep
  by_cases h0 : n = 0
  · -- the block is passed by
    subst h0
    rw [if_pos rfl] at hr₁'
    refine .inl ⟨_, hr₁', At.enter hi.leave fr₁, hk₁, ?_⟩
    refine hQ σ₁ _ fr₁ _ (.of_ne (fun t v hv => hi.then_.body.values t v hv) ?_
      (Nat.succ_ne_zero _))
      (keeps_goto _ _ _) rfl (hf c σ₁ fr₁ hq₁ hn)
    exact hi.then_.body.emits.grows.nextId
  · rw [if_neg h0] at hr₁'
    have hp₁ : P₁ (σ₁.endBlock (.condBr c σ.func.nblocks (σ.func.nblocks + 1)) σ.func.nblocks)
        (fr₁.goto σ.func.nblocks) :=
      hP₁.enter σ₁ fr₁ _ _ hne hi.then_.enter.emits.ok (ht c σ₁ fr₁ n hq₁ hn h0)
    rcases hb _ a σ₂ G _ hbm hi.then_.enter.emits.ok hG₂ (hl.reach hr₁')
        (At.enter hi.then_.waiting fr₁) hp₁ with ⟨fr₂, hr₂, hat₂, hk₂, hq₂⟩ | hleave
    · refine .inl ⟨_, (hr₁'.trans hr₂).tail (step_br hat₂ hG), At.enter hi.leave fr₂, ?_, ?_⟩
      · exact (hk₁.trans hk₂ hi.cond.emits.grows.nextId).trans (keeps_goto _ _ _) (Nat.le_refl _)
      · exact hQ σ₂ _ fr₂ _ (.of_ne (fun _ _ => id) (Nat.le_refl _) (Nat.succ_ne_zero _))
          (keeps_goto _ _ _) rfl hq₂
    · exact .inr (hleave.of_reach hr₁')

/-- The two blocks an `ifThenElse` merges are not the same one. -/
theorem IfThenElse.ne {σ₁ σ₂ σ₃ : GenState} {c : Value} {k₁ k₂ : ℕ}
    (hi : IfThenElse σ σ₁ σ₂ σ₃ c k₁ k₂) : σ₂.insertBlock ≠ σ₃.insertBlock := by
  intro he
  have hterm : ((σ₂.endBlock (.br (σ.func.nblocks + 2)) k₂).func.blocks σ₂.insertBlock).term =
      some (.br (σ.func.nblocks + 2)) := by
    change ((σ₂.toBuilder.terminate _).block σ₂.insertBlock).term = _
    rw [Builder.terminate_block, if_pos rfl]
  have hblk := (hi.second.body.emits.ext σ₂.insertBlock).2 _ hterm
  have hopen := hi.second.all.emits.ok.isOpen
  rw [Builder.current, ← he] at hopen
  rw [← hblk] at hterm
  cases hopen.symm.trans hterm

/-- What the emitted code hands back is known, whatever the run: from a frame in `P`
it would be. -/
def Hands (P : Assertion) (m : EmitM α) (φ : α → Prop) : Prop :=
  ∀ σ a σ' G fr, m σ = .ok (a, σ') → σ.toBuilder.OK → Builder.Extends σ'.func G →
    fr.At σ.toBuilder → P σ fr → φ a

theorem hands_true (P : Assertion) (m : EmitM α) : Hands P m fun _ => True :=
  fun _ _ _ _ _ _ _ _ _ _ => trivial

theorem Runs.hands {φ : α → Prop} (h : Runs true ext P m Q fun _ _ => False)
    (hφ : ∀ a σ fr, Q a σ fr → φ a) : Hands P m φ := by
  intro σ a σ' G fr hm hok hG hat hp
  rcases h σ a σ' G fr hm hok hG (.inl rfl) hat hp with ⟨fr', -, -, -, hq⟩ | ⟨_, _, _, _, hno⟩
  · exact hφ a σ' fr' hq
  · exact hno.elim

/-- Two alternative blocks, and the block after them, which is entered from either.
Of the one that is not run, what it hands back is still known. -/
theorem runs_ifThenElse {b : Bool} {cond first second : EmitM Value} [Builds cond] [Builds first]
    [Builds second] {Qc Q₁ Q₂ : Value → Assertion} {Pt Pf : Assertion} {φ₁ φ₂ : Value → Prop}
    (hP : Lasting P) (hPt : Lasting Pt) (hPf : Lasting Pf) (hP₁ : Lasting P₁)
    (hQ₁ : ∀ v, Lasting (Q₁ v)) (hQ₂ : ∀ v, Lasting (Q₂ v))
    (hc : Runs total ext P cond Qc R)
    (hg : total = true → ∀ c σ fr, Qc c σ fr → ∃ n, fr.eval c = some (.bits n))
    (ht : ∀ c σ fr n, Qc c σ fr → fr.eval c = some (.bits n) → n ≠ 0 → Pt σ fr)
    (hf : ∀ c σ fr, Qc c σ fr → fr.eval c = some (.bits 0) → Pf σ fr)
    (hq : ∀ c σ fr, Qc c σ fr → P₁ σ fr)
    (h₁ : Runs total ext (if b then Pf else Pt) first Q₁ R)
    (h₂ : Runs total ext (if b then Pt else Pf) second Q₂ R)
    (hφ₁ : Hands P₁ first φ₁) (hφ₂ : Hands P₁ second φ₂) :
    Runs total ext P (ifThenElse b cond first second) (fun r σ fr =>
      (φ₁ r.1.1 ∧ φ₂ r.2.1 ∧ r.1.2 ≠ r.2.2) ∧
        ((fr.prev = r.1.2 ∧ Q₁ r.1.1 σ fr) ∨ fr.prev = r.2.2 ∧ Q₂ r.2.1 σ fr)) R := by
  intro σ r σ' G fr hm hok hG hl hat hp
  obtain ⟨c, σ₁, x, σ₂, y, σ₃, hcm, hxm, hym, rfl, rfl⟩ := ifThenElse_eq_ok hm
  have hi := IfThenElse.of_ok hok (by cases b <;> simp) hcm hxm hym
  -- the function continues what there is at each point
  have hG₃ : Builder.Extends σ₃.func G :=
    (Builder.Extends.terminate hi.second.all.emits.ok _).trans hG
  have hG₂' := hi.second.body.emits.ext.trans hG₃
  have hG₂ : Builder.Extends σ₂.func G :=
    (Builder.Extends.terminate hi.first.all.emits.ok _).trans hG₂'
  have hG₁' := hi.first.body.emits.ext.trans hG₂
  have hG₁ : Builder.Extends σ₁.func G := (Builder.Extends.terminate hi.cond.emits.ok _).trans hG₁'
  have hpos : 0 < σ.func.nblocks := Nat.lt_of_le_of_lt (Nat.zero_le _) hok.lt
  have hnew : Later σ σ.newBlock.newBlock.newBlock :=
    ((Later.newBlock σ).trans (.newBlock _)).trans (.newBlock _)
  have hok₂ := (onward_newBlock hok).emits.ok
  have hok₃ := (onward_newBlock hok₂).emits.ok
  rcases hc _ c σ₁ G fr hcm hi.init.emits.ok hG₁ hl
      (At.newBlock hok₃ (At.newBlock hok₂ (At.newBlock hok hat)))
      (hP _ _ fr fr hnew (.refl _ _) rfl hp) with ⟨fr₁, hr₁, hat₁, hk₁, hq₁⟩ | hleave
  swap
  · exact .inr hleave
  obtain ⟨n, hn, hstep⟩ := exists_step_condBr hat₁ hG₁' (hl.reach hr₁) fun h => hg h c σ₁ fr₁ hq₁
  have hr₁' := hr₁.tail hstep
  have hfirst : (if b then σ.func.nblocks + 1 else σ.func.nblocks) ≠ entryBB := by
    cases b
    · exact Nat.ne_of_gt hpos
    · exact Nat.succ_ne_zero _
  have hsecond : (if b then σ.func.nblocks else σ.func.nblocks + 1) ≠ entryBB := by
    cases b
    · exact Nat.succ_ne_zero _
    · exact Nat.ne_of_gt hpos
  have hnext : σ₁.nextId ≤ σ₂.nextId := hi.first.body.emits.grows.nextId
  -- either block, entered from the condition
  have henter : ∀ {P' : Assertion} {t : Term}, Lasting P' → P' σ₁ fr₁ →
      P' (σ₁.endBlock t (if b then σ.func.nblocks + 1 else σ.func.nblocks))
        (fr₁.goto (if b then σ.func.nblocks + 1 else σ.func.nblocks)) := fun hP' hp' =>
    hP' σ₁ _ fr₁ _ (.of_ne (fun _ _ => id) (Nat.le_refl _) hfirst) (keeps_goto _ _ _) rfl hp'
  have henter' : ∀ {P' : Assertion} {t : Term}, Lasting P' → P' σ₁ fr₁ →
      P' (σ₂.endBlock t (if b then σ.func.nblocks else σ.func.nblocks + 1))
        (fr₁.goto (if b then σ.func.nblocks else σ.func.nblocks + 1)) := fun hP' hp' =>
    hP' σ₁ _ fr₁ _ (.of_ne (fun t v hv => hi.first.body.values t v hv) hnext hsecond)
      (keeps_goto _ _ _) rfl hp'
  have hok₁' := hi.first.enter.emits.ok
  have hok₂' := hi.second.enter.emits.ok
  have hp₁ := hq c σ₁ fr₁ hq₁
  have hout : φ₁ x ∧ φ₂ y ∧ σ₂.insertBlock ≠ σ₃.insertBlock :=
    ⟨hφ₁ _ x σ₂ G _ hxm hok₁' hG₂ (At.enter hi.first.waiting fr₁) (henter hP₁ hp₁),
      hφ₂ _ y σ₃ G _ hym hok₂' hG₃ (At.enter hi.second.waiting fr₁) (henter' hP₁ hp₁), hi.ne⟩
  -- which of the two blocks is entered, and what is known there
  have hcases : ((if n = 0 then σ.func.nblocks + 1 else σ.func.nblocks) =
        (if b then σ.func.nblocks + 1 else σ.func.nblocks) ∧ (if b then Pf else Pt) σ₁ fr₁) ∨
      (if n = 0 then σ.func.nblocks + 1 else σ.func.nblocks) =
        (if b then σ.func.nblocks else σ.func.nblocks + 1) ∧ (if b then Pt else Pf) σ₁ fr₁ := by
    by_cases h0 : n = 0
    · subst h0
      cases b with
      | true => exact .inl ⟨rfl, hf c σ₁ fr₁ hq₁ hn⟩
      | false => exact .inr ⟨rfl, hf c σ₁ fr₁ hq₁ hn⟩
    · rw [if_neg h0]
      cases b with
      | true => exact .inr ⟨rfl, ht c σ₁ fr₁ n hq₁ hn h0⟩
      | false => exact .inl ⟨rfl, ht c σ₁ fr₁ n hq₁ hn h0⟩
  have hPf' : Lasting (if b then Pf else Pt) := by cases b <;> assumption
  have hPt' : Lasting (if b then Pt else Pf) := by cases b <;> assumption
  rcases hcases with ⟨hto, hp₁⟩ | ⟨hto, hp₂⟩
  · rw [hto] at hr₁'
    rcases h₁ _ x σ₂ G _ hxm hok₁' hG₂ (hl.reach hr₁') (At.enter hi.first.waiting fr₁)
        (henter hPf' hp₁) with ⟨fr₂, hr₂, hat₂, hk₂, hq₂⟩ | hleave
    · refine .inl ⟨_, (hr₁'.trans hr₂).tail (step_br hat₂ hG₂'), At.enter hi.leave fr₂, ?_, hout,
        .inl ⟨hat₂.blk, ?_⟩⟩
      · exact (hk₁.trans hk₂ hi.cond.emits.grows.nextId).trans (keeps_goto _ _ _) (Nat.le_refl _)
      · exact hQ₁ x σ₂ _ fr₂ _ (.of_ne (fun t v hv => hi.second.body.values t v hv)
          hi.second.body.emits.grows.nextId (Nat.succ_ne_zero _)) (keeps_goto _ _ _) rfl hq₂
    · exact .inr (hleave.of_reach hr₁')
  · rw [hto] at hr₁'
    rcases h₂ _ y σ₃ G _ hym hok₂' hG₃ (hl.reach hr₁') (At.enter hi.second.waiting fr₁)
        (henter' hPt' hp₂) with ⟨fr₂, hr₂, hat₂, hk₂, hq₂⟩ | hleave
    · refine .inl ⟨_, (hr₁'.trans hr₂).tail (step_br hat₂ hG), At.enter hi.leave fr₂, ?_, hout,
        .inr ⟨hat₂.blk, ?_⟩⟩
      · exact (hk₁.trans hk₂ (hi.cond.emits.grows.nextId.trans hnext)).trans (keeps_goto _ _ _)
          (Nat.le_refl _)
      · exact hQ₂ y σ₃ _ fr₂ _ (.of_ne (fun _ _ => id) (Nat.le_refl _) (Nat.succ_ne_zero _))
          (keeps_goto _ _ _) rfl hq₂
    · exact .inr (hleave.of_reach hr₁')

end VexLLVM
