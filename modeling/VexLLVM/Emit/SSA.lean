import VexLLVM.Emit.Flow
import VexLLVM.Emit.OpSpec

/-!
# Values used where they are available

`EmitsSSA G vs L m out` says of a computation what `G`, the finished function, has to
show for it: started where the values `vs` and the temporaries outside `L` are
available, it uses values only where they are, and so are its results `out` where it
ends. There is a rule for each way computations are put together.
-/

namespace LLVM

/-- Values that stand in no block. -/
def Value.Free (v : Value) : Prop := v.isConst = true ∨ ∃ i t, v = .arg i t

theorem Value.Free.of_isConst {v : Value} (h : v.isConst = true) : v.Free := .inl h

@[simp] theorem Value.free_const (t : Ty) (n : ℕ) : (const t n).Free := .inl rfl

@[simp] theorem Value.free_undef (t : Ty) : (undef t).Free := .inl rfl

theorem Value.Free.arg (i : ℕ) (t : Ty) : (Value.arg i t).Free := .inr ⟨i, t, rfl⟩

theorem Value.Free.available {v : Value} (h : v.Free) (G : Func) (k : ℕ) : G.Available v k := by
  rcases h with h | ⟨i, t, rfl⟩
  · exact .of_isConst h k
  · exact .arg i t k

namespace Code

variable {ε α β : Type} {vs : List Value} {c c' : Code ε α} {f : α → Code ε β}
  {out : α → List Value} {out' : β → List Value}

/-- The code uses only `vs`, free values and its own, and so are its results `out`. -/
def Draws (vs : List Value) (c : Code ε α) (out : α → List Value) : Prop :=
  ∀ S : Value → Prop, (∀ v : Value, v.Free → S v) → (∀ v ∈ vs, S v) → ∀ ok,
    c.Ensures S True (fun a _ => ∀ w ∈ out a, S w) ok

theorem Draws.bind (h : Draws vs c out) (hf : ∀ a, Draws (out a ++ vs) (f a) out') :
    Draws vs (c >>= f) out' := fun S hS hvs ok =>
  Ensures.bind <| (h S hS hvs ok).mono fun a ok' ha => hf a S hS (fun v hv =>
    (List.mem_append.1 hv).elim (ha v) (hvs v)) ok'

theorem Draws.ite {p : Prop} [Decidable p] (h : Draws vs c out) (h' : Draws vs c' out) :
    Draws vs (if p then c else c') out := by
  split
  · exact h
  · exact h'

end Code

end LLVM

namespace VexLLVM

open LLVM LLVM.Code Vex StateExcept

variable {G : Func} {L : IRTemp → Prop} {vs ws us : List Value} {σ σ₁ σ₂ σ₃ σ' : GenState}
  {α β : Type}

/-- What is available where code is inserted: the temporaries outside `L`, the cached
pointers while they are used, and the values `vs`. -/
structure Live (G : Func) (L : IRTemp → Prop) (vs : List Value) (σ : GenState) : Prop where
  values : ∀ t v, ¬L t → σ.values t = some v → G.Available v σ.insertBlock
  casts : σ.insertBlock = entryBB → ∀ t v, σ.ctxcastMap t = some v → G.Available v σ.insertBlock
  geps : σ.insertBlock = entryBB → ∀ q v, σ.gepbyteMap q = some v → G.Available v σ.insertBlock
  held : ∀ v ∈ vs, G.Available v σ.insertBlock

/-- What is shown of emitting code: values were used, and temporaries read, only where
they are available, and the results are available where it ends. -/
structure Shown (G : Func) (L : IRTemp → Prop) (ws : List Value) (σ σ' : GenState) : Prop where
  live : Live G L ws σ'
  uses : ∀ v k, Builder.Uses σ.toBuilder σ'.toBuilder v k → G.Available v k
  reads : ∀ q ∈ σ'.reads, q ∈ σ.reads ∨ ∃ v, σ'.values q.1 = some v ∧ G.Available v q.2

structure EmitsSSA (G : Func) (L : IRTemp → Prop) (vs : List Value) (m : EmitM α)
    (out : α → List Value) : Prop where
  shown : ∀ {σ σ' : GenState} {a : α}, m σ = .ok (a, σ') → σ.toBuilder.OK → σ.toBuilder.Targets →
    σ'.toBuilder.Finishes σ.func.nblocks G → Live G L vs σ → Shown G L (out a) σ σ'

namespace Live

theorem mono (h : Live G L vs σ) (hw : ws ⊆ vs) : Live G L ws σ :=
  ⟨h.values, h.casts, h.geps, fun v hv => h.held v (hw hv)⟩

theorem append (h : Live G L vs σ) (hw : ∀ v ∈ ws, G.Available v σ.insertBlock) :
    Live G L (ws ++ vs) σ :=
  ⟨h.values, h.casts, h.geps, fun v hv => (List.mem_append.1 hv).elim (hw v) (h.held v)⟩

/-- In a block other than the entry that is below. -/
theorem enter (h : Live G L vs σ) (hv : ∀ t, σ'.values t = σ.values t ∨ L t)
    (hb : G.Below σ.insertBlock σ'.insertBlock) (hk : σ'.insertBlock ≠ entryBB) :
    Live G L vs σ' where
  values t v ht hs := by
    rcases hv t with he | hl
    · exact (h.values t v ht (he ▸ hs)).mono hb
    · exact absurd hl ht
  casts h0 := absurd h0 hk
  geps h0 := absurd h0 hk
  held v hv := (h.held v hv).mono hb

end Live

namespace Shown

/-- Nothing is emitted. -/
theorem of_same (h : Live G L ws σ') (hok : σ.toBuilder.OK) (hb : σ'.toBuilder = σ.toBuilder)
    (hr : σ'.reads = σ.reads) : Shown G L ws σ σ' where
  live := h
  uses v k hu := by
    rw [hb] at hu
    exact absurd hu (Builder.Uses.irrefl hok)
  reads _ hq := .inl (hr ▸ hq)

theorem trans (ho' : σ₁.Onward σ₂) (h : Shown G L ws σ σ₁)
    (h' : Shown G L us σ₁ σ₂) : Shown G L us σ σ₂ where
  live := h'.live
  uses v k hu := (hu.split ho'.emits.ext ho'.emits.grows).elim (h.uses v k) (h'.uses v k)
  reads q hq := by
    rcases h'.reads q hq with hq | hq
    · refine (h.reads q hq).imp_right ?_
      rintro ⟨v, hv, ha⟩
      exact ⟨v, ho'.values q.1 v hv, ha⟩
    · exact .inr hq

theorem append (h : Shown G L ws σ σ') (hv : ∀ v ∈ vs, G.Available v σ'.insertBlock) :
    Shown G L (ws ++ vs) σ σ' :=
  ⟨⟨h.live.values, h.live.casts, h.live.geps,
    fun v h' => (List.mem_append.1 h').elim (h.live.held v) (hv v)⟩, h.uses, h.reads⟩

theorem newBlock (h : Shown G L ws σ σ') (hok : σ'.toBuilder.OK) : Shown G L ws σ σ'.newBlock :=
  ⟨⟨h.live.values, h.live.casts, h.live.geps, h.live.held⟩,
    fun v k hu => h.uses v k (hu.of_createBlock hok), h.reads⟩

/-- The current block is ended and another gone on with. -/
theorem endBlock {t : Term} {n : ℕ} (h : Shown G L ws σ σ')
    (ho : ∀ v ∈ t.operands, G.Available v σ'.insertBlock) (hl : Live G L us (σ'.endBlock t n)) :
    Shown G L us σ (σ'.endBlock t n) where
  live := hl
  uses v k hu := by
    rcases hu.of_endBlock with hu | ⟨hv, rfl⟩
    · exact h.uses v k hu
    · exact ho v hv
  reads := h.reads

end Shown

namespace EmitsSSA

variable {m m' : EmitM α} {f : α → EmitM β} {out : α → List Value} {out' : β → List Value}

theorem mono (h : EmitsSSA G L vs m out) (hv : vs ⊆ us) : EmitsSSA G L us m out :=
  ⟨fun hm hok ht hG hl => h.shown hm hok ht hG (hl.mono hv)⟩

theorem pure {a : α} (h : out a ⊆ vs) : EmitsSSA G L vs (pure a) out where
  shown hm hok _ _ hl := by
    cases hm
    exact .of_same (hl.mono h) hok rfl rfl

theorem throw {e : EmitError} : EmitsSSA G L vs (throw e : EmitM α) out := ⟨fun hm => by cases hm⟩

/-- One computation after another, which goes on with the results of the first. -/
theorem bind_of [Builds m] [∀ a, Builds (f a)] [Flows VexStmt.AnyTmp m]
    [∀ a, Flows VexStmt.AnyTmp (f a)] (h : EmitsSSA G L vs m out)
    (hf : ∀ a, (∃ s s', m s = .ok (a, s')) → EmitsSSA G L (out a ++ vs) (f a) out') :
    EmitsSSA G L vs (m >>= f) out' where
  shown {σ σ' b} hm hok ht hG hl := by
    obtain ⟨a, σ₁, h₁, h₂⟩ := bind_eq_ok hm
    have ho := Builds.onward h₁ hok
    have ho' := Builds.onward h₂ ho.emits.ok
    have hw : Flow VexStmt.AnyTmp σ σ₁ := Flows.flow h₁ hok
    have hG₁ := hG.of_grows ho'.emits.grows ho'.emits.ext (Nat.le_refl _)
    have hG₂ := hG.of_grows (.refl ho'.emits.ok) (.refl _) ho.emits.grows.nblocks
    have hs := (h.shown h₁ hok ht hG₁ hl).append fun v hv =>
      (hl.held v hv).mono (hw.below ht G hG₁)
    exact hs.trans ho' ((hf a ⟨σ, σ₁, h₁⟩).shown h₂ ho.emits.ok (hw.targets ht) hG₂ hs.live)

theorem bind [Builds m] [∀ a, Builds (f a)] [Flows VexStmt.AnyTmp m]
    [∀ a, Flows VexStmt.AnyTmp (f a)] (h : EmitsSSA G L vs m out)
    (hf : ∀ a, EmitsSSA G L (out a ++ vs) (f a) out') : EmitsSSA G L vs (m >>= f) out' :=
  h.bind_of fun a _ => hf a

theorem ite {c : Prop} [Decidable c] (h : c → EmitsSSA G L vs m out)
    (h' : ¬c → EmitsSSA G L vs m' out) : EmitsSSA G L vs (if c then m else m') out := by
  split
  · next hc => exact h hc
  · next hc => exact h' hc

theorem code {c : Code EmitError α} (h : Draws vs c out) : EmitsSSA G L vs (code c) out where
  shown {σ σ' a} hm hok _ hG hl := by
    obtain ⟨b, hrun, rfl⟩ := code_eq_ok hm
    have hk := run_insertBlock hrun
    have hS : Covers b fun v => G.Available v σ.insertBlock := by
      refine ⟨fun v hv => .of_isConst hv _, fun id i hi id' t h => ?_⟩
      cases h
      exact ⟨_, ⟨i, (hG.ext b.insertBlock).1.subset hi⟩, hk ▸ .refl _⟩
    obtain ⟨⟨ok, ho, -⟩, hu⟩ :=
      (h _ (fun v hv => hv.available G _) hl.held True).run hrun hok hS
    refine ⟨⟨?_, ?_, ?_, ?_⟩, fun v k h => ?_, fun q hq => .inl hq⟩
    · exact fun t v hn hv => hk ▸ hl.values t v hn hv
    · exact fun h0 t v hv => hk ▸ hl.casts (hk ▸ h0) t v hv
    · exact fun h0 q v hv => hk ▸ hl.geps (hk ▸ h0) q v hv
    · exact fun w hw => hk ▸ ho w hw
    · obtain ⟨hv, rfl⟩ := hu v k h
      exact hv

/-- What a phi takes is available at the ends of the blocks it is taken from. -/
theorem phi {t : Ty} {inc : List (Value × ℕ)} (h : ∀ p ∈ inc, G.Available p.1 p.2) :
    EmitsSSA G L vs (VexLLVM.code (create (.phi t inc))) fun v => [v] where
  shown {σ σ' a} hm hok _ hG hl := by
    cases hm
    have hk := create_insertBlock σ.toBuilder (.phi t inc)
    have hc : σ.toBuilder.create (.phi t inc) = σ.toBuilder.insert (.phi t inc) :=
      Builder.create_of_none (by simp [Inst.simplify?, Inst.sameTypeCast?, Inst.constFold?, Inst.eval])
    refine ⟨⟨?_, ?_, ?_, fun v hv => ?_⟩, fun v k hu => ?_, fun q hq => .inl hq⟩
    · exact fun t v hn hv => hk ▸ hl.values t v hn hv
    · exact fun h0 t v hv => hk ▸ hl.casts (hk ▸ h0) t v hv
    · exact fun h0 q v hv => hk ▸ hl.geps (hk ▸ h0) q v hv
    · rw [List.mem_singleton.1 hv, hc]
      rintro id t' h
      cases h
      refine ⟨_, ⟨.phi t inc, (hG.ext σ.insertBlock).1.subset ?_⟩, .refl _⟩
      change _ ∈ ((σ.toBuilder.create (.phi t inc)).2.block σ.insertBlock).insts
      rw [hc]
      exact Builder.mem_insert_block.2 (.inr ⟨rfl, rfl⟩)
    · rcases Builder.uses_create hok hu with ⟨hv, -⟩ | hv
      · cases hv
      · exact h (v, k) hv

theorem getRegValue {t : IRTemp} (ht : ¬L t) : EmitsSSA G L vs (getRegValue t) fun v => [v] where
  shown {σ σ' a} hm hok _ _ hl := by
    unfold VexLLVM.getRegValue at hm
    cases hv : σ.values t with
    | none =>
        rw [hv] at hm
        cases hm
    | some v =>
        rw [hv] at hm
        cases hm
        have ha := hl.values t a ht hv
        refine ⟨⟨hl.values, hl.casts, hl.geps, fun _ hw => List.mem_singleton.1 hw ▸ ha⟩,
          fun _ _ hu => (hu.irrefl hok).elim, fun q hq => ?_⟩
        rcases List.mem_cons.1 hq with rfl | hq
        · exact .inr ⟨a, hv, ha⟩
        · exact .inl hq

theorem setRegValue {t : IRTemp} {v : Value} (h : L t ∨ v ∈ vs ∨ v.Free) :
    EmitsSSA G L vs (setRegValue t v) fun _ => [] where
  shown {σ σ' a} hm hok _ _ hl := by
    unfold VexLLVM.setRegValue at hm
    cases hv : σ.values t with
    | some w =>
        rw [hv] at hm
        cases hm
    | none =>
        rw [hv] at hm
        cases hm
        refine .of_same ⟨fun t' w hn hw => ?_, hl.casts, hl.geps, by simp⟩ hok rfl rfl
        by_cases he : t' = t
        · subst he
          obtain rfl : v = w := by simpa using hw
          rcases h with h | h | h
          · exact absurd h hn
          · exact hl.held v h
          · exact h.available G _
        · exact hl.values t' w hn ((Function.update_of_ne he _ _).symm.trans hw)

theorem emitAll {ms : List (EmitM Value)} (hb : ∀ m ∈ ms, Builds m)
    (hf : ∀ m ∈ ms, Flows VexStmt.AnyTmp m) (h : ∀ m ∈ ms, EmitsSSA G L [] m fun v => [v]) :
    EmitsSSA G L vs (emitAll ms) fun as => as := by
  induction ms generalizing vs with
  | nil => exact .pure (List.nil_subset _)
  | cons m ms ih =>
      have := hb m List.mem_cons_self
      have := hf m List.mem_cons_self
      have hb' := fun m' hm' => hb m' (List.mem_cons_of_mem m hm')
      have hf' := fun m' hm' => hf m' (List.mem_cons_of_mem m hm')
      have := builds_emitAll hb'
      have := flows_emitAll hb' hf'
      unfold VexLLVM.emitAll
      exact ((h m List.mem_cons_self).mono (List.nil_subset _)).bind fun a =>
        (ih hb' hf' fun m' hm' => h m' (List.mem_cons_of_mem m hm')).bind fun as =>
          .pure (by simp)

/-- Code that a branch goes around: what it sets is in `L`. -/
theorem ifThen_shown {cond : EmitM Value} {body : EmitM α} [Builds cond] [Builds body]
    [Flows L cond] [Flows L body] (hc : EmitsSSA G L vs cond fun c => [c])
    (hb : EmitsSSA G L vs body fun _ => []) {c : Value} {a : α} {t : Term} (hok : σ.toBuilder.OK)
    (h₁ : cond σ.newBlock.newBlock = .ok (c, σ₁))
    (h₂ : body (σ₁.endBlock (.condBr c σ.func.nblocks (σ.func.nblocks + 1)) σ.func.nblocks) =
      .ok (a, σ₂)) (hs : ∀ s ∈ t.succs, s = σ.func.nblocks + 1) (ho : ∀ v ∈ t.operands, v.Free)
    (ht : σ.toBuilder.Targets)
    (hG : (σ₂.endBlock t (σ.func.nblocks + 1)).toBuilder.Finishes σ.func.nblocks G)
    (hl : Live G L vs σ) : Shown G L [] σ (σ₂.endBlock t (σ.func.nblocks + 1)) := by
  have hi : IfThen σ σ₁ σ₂ _ t := IfThen.of_ok hok h₁ h₂ fun s h => hs s h ▸ Nat.le_succ _
  have hf : Flow L _ σ₂ := Flows.flow h₂ hi.then_.enter.emits.ok
  have hnn : Flow L σ σ.newBlock.newBlock := Flow.newBlock_newBlock hok
  have hw := hi.paths hok hs (Flows.flow (L := L) h₁ hi.init.emits.ok) hf ht hG
  have hok₁ := (onward_newBlock hok).emits.ok
  have hs₀ := ((Shown.of_same hl hok rfl rfl).newBlock hok).newBlock hok₁
  have hs₁ := (hc.shown h₁ hi.init.emits.ok (hnn.targets ht) hw.cond hs₀.live).append
    fun v hv => (hl.held v hv).mono hw.up
  have hl₁ := hs₁.live.mono (List.subset_append_right [c] vs)
  have hpos : σ.func.nblocks ≠ 0 := Nat.ne_of_gt (Nat.lt_of_le_of_lt (Nat.zero_le _) hok.lt)
  have hlb : Live G L vs (σ₁.endBlock (.condBr c σ.func.nblocks (σ.func.nblocks + 1))
      σ.func.nblocks) := hl₁.enter (fun _ => .inl rfl) hw.then_ hpos
  have hin := (hs₀.trans hi.cond hs₁).endBlock
    (fun v hv => hs₁.live.held v (by simp_all [Term.operands])) hlb
  have hs₂ := hin.trans hi.then_.body
    (hb.shown h₂ hi.then_.enter.emits.ok hw.targets hw.body hlb)
  have hm : Live G L vs (σ₂.endBlock t (σ.func.nblocks + 1)) :=
    hl₁.enter hf.sets hw.merge (Nat.succ_ne_zero _)
  exact hs₂.endBlock (fun v hv => (ho v hv).available G _) (hm.mono (List.nil_subset _))

theorem ifThen {cond : EmitM Value} {body : EmitM α} [Builds cond] [Builds body]
    [Flows L cond] [Flows L body] (hc : EmitsSSA G L vs cond fun c => [c])
    (hb : EmitsSSA G L vs body fun _ => []) : EmitsSSA G L vs (ifThen cond body) fun _ => [] where
  shown hm hok ht hG hl := by
    obtain ⟨c, σ₁, σ₂, h₁, h₂, rfl⟩ := ifThen_eq_ok hm
    exact ifThen_shown hc hb hok h₁ h₂ (fun s hs => List.mem_singleton.1 hs)
      (by simp [Term.operands])
      ht hG hl

theorem modify {g : GenState → GenState} (hb : ∀ σ, (g σ).toBuilder = σ.toBuilder)
    (hr : ∀ σ, (g σ).reads = σ.reads) (h : ∀ σ, Live G L vs σ → Live G L [] (g σ)) :
    EmitsSSA G L vs (modify g : EmitM PUnit) fun _ => [] where
  shown {σ σ' a} hm hok _ _ hl := by
    cases hm
    exact .of_same (h σ hl) hok (hb σ) (hr σ)

end EmitsSSA

/-! ## The generator -/

namespace GenLLVM

variable (gen : GenLLVM)

end GenLLVM

/-! ## Expressions -/

namespace VexExpr

def rdTmps : VexExpr → List IRTemp
  | getI _ _ _ ix _ => rdTmps ix
  | rdTmp t => [t]
  | nary op args => (List.finRange op.tagop).flatMap fun i => rdTmps (args i)
  | load _ addr => rdTmps addr
  | ccall _ _ n args => (List.finRange n).flatMap fun i => rdTmps (args i)
  | mux0X cond expr0 exprX => rdTmps cond ++ rdTmps exprX ++ rdTmps expr0
  | null | stub _ _ | abort _ | get _ _ | const _ | gsptr => []

end VexExpr

end VexLLVM
