import VexLLVM.LLVM.Dominance
import VexLLVM.Emit.Builds

/-!
# The flow of control in emitted code

What a computation of the generator does to the flow of control: the block it ends
in is dominated by what dominates the one it starts in, and is reached past any
block that the start is reached past, as are the blocks in which temporaries are
read. Finding this for a computation is left to instances.
-/

namespace LLVM

variable {b b' : Builder} {k : ℕ}

theorem Builder.create_term (b : Builder) (i : Inst) (k : ℕ) :
    ((b.create i).2.block k).term = (b.block k).term := by
  unfold Builder.create
  split
  · rfl
  · rw [Builder.insert_block]
    split
    · next hk => rw [hk, Builder.current]
    · rfl

theorem Code.run_term {ε α : Type} {t : Code ε α} {a : α} (h : t.run b = .ok (a, b')) (k : ℕ) :
    (b'.block k).term = (b.block k).term := by
  induction t generalizing b with
  | ret a' =>
      cases h
      rfl
  | ins i c ih => rw [ih _ h, Builder.create_term]
  | fail e => cases h

/-- An edge that is placed stays. -/
theorem Builder.Extends.edge {F G : Func} (h : Builder.Extends F G) {a k : ℕ} (he : F.Edge a k) :
    G.Edge a k := by
  obtain ⟨t, ht, hs⟩ := he
  exact ⟨t, by rw [(h a).2 t ht]; exact ht, hs⟩

end LLVM

namespace VexLLVM

open LLVM LLVM.Code Vex StateExcept

/-- From `σ` to `σ'` only temporaries in `L` are set, and the flow of control is as
described. -/
structure Flow (L : IRTemp → Prop) (σ σ' : GenState) : Prop where
  sets : ∀ t, σ'.values t = σ.values t ∨ L t
  reads : σ.reads ⊆ σ'.reads
  known : ∀ q ∈ σ'.reads, q ∈ σ.reads ∨ σ'.values q.1 ≠ none
  targets : σ.toBuilder.Targets → σ'.toBuilder.Targets
  below : σ.toBuilder.Targets → ∀ G, σ'.toBuilder.Finishes σ.func.nblocks G →
    G.Below σ.insertBlock σ'.insertBlock
  avoids : ∀ d G, Builder.Extends σ'.func G → d < σ.func.nblocks ∨ σ'.func.nblocks ≤ d →
    G.Avoids d σ.insertBlock →
      G.Avoids d σ'.insertBlock ∧ ∀ q ∈ σ'.reads, q ∈ σ.reads ∨ G.Avoids d q.2

class Flows (L : IRTemp → Prop) {α : Type} (m : EmitM α) : Prop where
  flow : ∀ {σ σ' : GenState} {a : α}, m σ = .ok (a, σ') → σ.toBuilder.OK → Flow L σ σ'

variable {L : IRTemp → Prop} {σ σ₁ σ₂ σ₃ σ' : GenState} {α β : Type}

/-- A temporary that has a value still has one. -/
theorem GenState.Onward.set (h : σ.Onward σ') {t : IRTemp} (ht : σ.values t ≠ none) :
    σ'.values t ≠ none := by
  obtain ⟨v, hv⟩ := Option.ne_none_iff_exists'.1 ht
  rw [h.values t v hv]
  exact Option.some_ne_none v

namespace Flow

/-- Nothing happens to the flow of control. -/
theorem of_same (hv : ∀ t, σ'.values t = σ.values t ∨ L t) (hr : σ'.reads = σ.reads)
    (hk : σ'.insertBlock = σ.insertBlock) (hn : σ'.func.nblocks = σ.func.nblocks)
    (ht : ∀ k, (σ'.block k).term = (σ.block k).term) : Flow L σ σ' where
  sets := hv
  reads := hr ▸ List.Subset.refl _
  known _ hq := .inl (hr ▸ hq)
  targets h a k he := hn ▸ h a k ((Builder.edge_congr ht).1 he)
  below _ _ _ := hk ▸ Func.Below.refl _
  avoids _ _ _ _ ha := ⟨hk ▸ ha, fun _ hq => .inl (hr ▸ hq)⟩

theorem refl (σ : GenState) : Flow L σ σ := of_same (fun _ => .inl rfl) rfl rfl rfl fun _ => rfl

theorem trans (ho : σ.Onward σ₁) (ho' : σ₁.Onward σ₂) (h : Flow L σ σ₁) (h' : Flow L σ₁ σ₂) :
    Flow L σ σ₂ where
  sets t := by
    rcases h'.sets t with ht | ht
    · exact ht ▸ h.sets t
    · exact .inr ht
  reads := List.Subset.trans h.reads h'.reads
  known q hq := by
    rcases h'.known q hq with hq | hq
    · exact (h.known q hq).imp_right ho'.set
    · exact .inr hq
  targets ht := h'.targets (h.targets ht)
  below ht G hG := by
    have hG₁ := hG.of_grows ho'.emits.grows ho'.emits.ext (Nat.le_refl _)
    have hG₂ := hG.of_grows (.refl ho'.emits.ok) (.refl _) ho.emits.grows.nblocks
    exact (h.below ht G hG₁).trans (h'.below (h.targets ht) G hG₂)
  avoids d G hG hd ha := by
    have hle := ho.emits.grows.nblocks
    have hle' := ho'.emits.grows.nblocks
    obtain ⟨ha₁, hr₁⟩ := h.avoids d G (ho'.emits.ext.trans hG) (hd.imp_right hle'.trans) ha
    obtain ⟨ha₂, hr₂⟩ := h'.avoids d G hG (hd.imp_left fun h => h.trans_le hle) ha₁
    refine ⟨ha₂, fun q hq => ?_⟩
    rcases hr₂ q hq with hq | hq
    · exact hr₁ q hq
    · exact .inr hq

theorem newBlock (h : σ.toBuilder.OK) : Flow L σ σ.newBlock where
  sets _ := .inl rfl
  reads := List.Subset.refl _
  known _ hq := .inl hq
  targets ht := ht.createBlock h
  below _ _ _ := Func.Below.refl _
  avoids _ _ _ _ ha := ⟨ha, fun _ hq => .inl hq⟩

/-- Two blocks are made. -/
theorem newBlock_newBlock (h : σ.toBuilder.OK) : Flow L σ σ.newBlock.newBlock :=
  have ho := onward_newBlock h
  (newBlock h).trans ho (onward_newBlock ho.emits.ok) (newBlock ho.emits.ok)

/-- Three blocks are made. -/
theorem newBlocks (h : σ.toBuilder.OK) : Flow L σ σ.newBlock.newBlock.newBlock :=
  have ho := onward_newBlock h
  have ho' := onward_newBlock ho.emits.ok
  (newBlock_newBlock h).trans (ho.trans ho') (onward_newBlock ho'.emits.ok) (newBlock ho'.emits.ok)

end Flow

/-- What a branch into a new block is known to be: the one that was just placed. -/
theorem edge_enter {t : Term} {n a k : ℕ} (h : ∀ a, ¬σ₁.func.Edge a k)
    (he : (σ₁.endBlock t n).func.Edge a k) : a = σ₁.insertBlock := by
  rcases Builder.edge_endBlock.1 he with ⟨ha, -⟩ | ⟨-, he⟩
  · exact ha
  · exact absurd he (h a)

/-- The branches at the end of a block are those of the finished function. -/
theorem edge_of_endBlock {t : Term} {n k : ℕ} {G : Func}
    (hG : Builder.Extends (σ₁.endBlock t n).func G) (hk : k ∈ t.succs) : G.Edge σ₁.insertBlock k :=
  hG.edge (Builder.edge_endBlock.2 (.inl ⟨rfl, hk⟩))

/-- How the new blocks of `ifThen` lie in the finished function. -/
structure IfThen.Paths (σ σ₁ σ₂ : GenState) (t : Term) (G : Func) : Prop where
  cond : σ₁.toBuilder.Finishes (σ.func.nblocks + 2) G
  body : σ₂.toBuilder.Finishes σ₁.func.nblocks G
  targets : (σ₁.endBlock t σ.func.nblocks).toBuilder.Targets
  up : G.Below σ.insertBlock σ₁.insertBlock
  then_ : G.Below σ₁.insertBlock σ.func.nblocks
  merge : G.Below σ₁.insertBlock (σ.func.nblocks + 1)

theorem IfThen.targets {c : Value} {t' : Term} (hok : σ.toBuilder.OK)
    (hi : IfThen σ σ₁ σ₂ (.condBr c σ.func.nblocks (σ.func.nblocks + 1)) t')
    (hc : Flow L σ.newBlock.newBlock σ₁) (ht : σ.toBuilder.Targets) :
    (σ₁.endBlock (.condBr c σ.func.nblocks (σ.func.nblocks + 1))
      σ.func.nblocks).toBuilder.Targets := by
  have hle : σ.func.nblocks + 2 ≤ σ₁.func.nblocks := hi.cond.emits.grows.nblocks
  have hnn : Flow L σ σ.newBlock.newBlock := Flow.newBlock_newBlock hok
  refine (hc.targets (hnn.targets ht)).endBlock (fun s hs => ?_) _
  simp only [Term.succs, List.mem_cons, List.not_mem_nil, or_false] at hs
  omega

theorem IfThen.paths {L' : IRTemp → Prop} {c : Value} {t' : Term} {G : Func} (hok : σ.toBuilder.OK)
    (hi : IfThen σ σ₁ σ₂ (.condBr c σ.func.nblocks (σ.func.nblocks + 1)) t')
    (ht' : ∀ s ∈ t'.succs, s = σ.func.nblocks + 1) (hc : Flow L σ.newBlock.newBlock σ₁)
    (hb : Flow L' (σ₁.endBlock (.condBr c σ.func.nblocks (σ.func.nblocks + 1)) σ.func.nblocks) σ₂)
    (ht : σ.toBuilder.Targets)
    (hG : (σ₂.endBlock t' (σ.func.nblocks + 1)).toBuilder.Finishes σ.func.nblocks G) :
    Paths σ σ₁ σ₂ (.condBr c σ.func.nblocks (σ.func.nblocks + 1)) G := by
  obtain ⟨pend, hG, hp⟩ := hG
  have hnn : Flow L σ σ.newBlock.newBlock := Flow.newBlock_newBlock hok
  have htargets := hi.targets hok hc ht
  have hle : σ.func.nblocks + 2 ≤ σ₁.func.nblocks := hi.cond.emits.grows.nblocks
  have hle₂ : σ₁.func.nblocks ≤ σ₂.func.nblocks := hi.then_.body.emits.grows.nblocks
  have hpos : 0 < σ.func.nblocks := Nat.lt_of_le_of_lt (Nat.zero_le _) hok.lt
  -- the new blocks have the branches that are placed here, and no others
  have hno : ∀ k, σ.func.nblocks ≤ k → k < σ.func.nblocks + 2 → ∀ a, ¬σ₁.func.Edge a k := by
    intro k hk hk₂ a he
    have he' := hi.cond.emits.grows.edge hk₂ he
    have hok₁ := (onward_newBlock hok).emits.ok
    exact ht.not_edge hk ((Builder.edge_createBlock hok).1 ((Builder.edge_createBlock hok₁).1 he'))
  have hG₂ := Builder.Later.of_terminate hi.then_.all.emits.ok hG
  have hGe := hG₂.of_grows hi.then_.body.emits.grows hi.then_.body.emits.ext
  have hG₁ := Builder.Later.of_terminate hi.cond.emits.ok hGe
  have hp₂ : ∀ k, pend k ∨ k ∈ t'.succs → k < σ.func.nblocks ∨ k = σ.func.nblocks + 1 :=
    fun k hk => hk.imp (hp k) (ht' k)
  have hcond : σ₁.toBuilder.Finishes (σ.func.nblocks + 2) G := by
    refine ⟨_, hG₁, fun k hk => ?_⟩
    simp only [Term.succs, List.mem_cons, List.not_mem_nil, or_false] at hk
    rcases hk with hk | hk
    · have := hp₂ k hk
      omega
    · omega
  have hbody : σ₂.toBuilder.Finishes σ₁.func.nblocks G := ⟨_, hG₂, fun k hk => by
    have := hp₂ k hk
    omega⟩
  have hin : G.Below σ₁.insertBlock σ.func.nblocks :=
    hGe.below (by change _ < σ₁.func.nblocks; omega) (fun h => by have := hp₂ _ h; omega)
      (Nat.ne_of_gt hpos)
      fun a he => (edge_enter (hno _ (Nat.le_refl _) (by omega)) he) ▸ Func.Below.refl _
  refine ⟨hcond, hbody, htargets, hc.below (hnn.targets ht) G hcond, hin, ?_⟩
  refine hG.below (by change _ < σ₂.func.nblocks; omega) (fun h => ?_) (Nat.succ_ne_zero _)
    fun a he => ?_
  · have := hp _ h
    omega
  · rcases Builder.edge_endBlock.1 he with ⟨rfl, -⟩ | ⟨-, he⟩
    · exact hin.trans (hb.below htargets G hbody)
    · have he := hi.then_.body.emits.grows.edge (by change _ < σ₁.func.nblocks; omega) he
      exact (edge_enter (hno _ (Nat.le_succ _) (by omega)) he) ▸ Func.Below.refl _

/-- A block, and the block after it, which is entered from both or from the one
before. -/
theorem IfThen.flow {c : Value} {t' : Term} (hok : σ.toBuilder.OK)
    (hi : IfThen σ σ₁ σ₂ (.condBr c σ.func.nblocks (σ.func.nblocks + 1)) t')
    (ht' : ∀ s ∈ t'.succs, s = σ.func.nblocks + 1) (hc : Flow L σ.newBlock.newBlock σ₁)
    (hb : Flow L (σ₁.endBlock (.condBr c σ.func.nblocks (σ.func.nblocks + 1)) σ.func.nblocks) σ₂) :
    Flow L σ (σ₂.endBlock t' (σ.func.nblocks + 1)) := by
  have h₁ := (Flow.newBlock_newBlock hok).trans hi.init hi.cond hc
  have hle : σ.func.nblocks + 2 ≤ σ₁.func.nblocks := hi.cond.emits.grows.nblocks
  have hle₂ : σ₁.func.nblocks ≤ σ₂.func.nblocks := hi.then_.body.emits.grows.nblocks
  refine ⟨fun t => ?_, ?_, fun q hq => ?_, fun ht => ?_, fun ht G hG => ?_, fun d G hG hd ha => ?_⟩
  · rcases hb.sets t with h | h
    · rcases h₁.sets t with h' | h'
      · exact .inl (h.trans h')
      · exact .inr h'
    · exact .inr h
  · exact List.Subset.trans h₁.reads hb.reads
  · rcases hb.known q hq with hq | hq
    · exact (h₁.known q hq).imp_right hi.then_.body.set
    · exact .inr hq
  · refine (hb.targets (hi.targets hok hc ht)).endBlock (fun s hs => ?_) _
    rw [ht' s hs]
    omega
  · have hw := hi.paths hok ht' hc hb ht hG
    exact hw.up.trans hw.merge
  · have hd : d < σ.func.nblocks ∨ σ₂.func.nblocks ≤ d := hd
    have hG₂ : Builder.Extends σ₂.func G :=
      (Builder.Extends.terminate hi.then_.all.emits.ok _).trans hG
    have hGe := hi.then_.body.emits.ext.trans hG₂
    have hG₁ := (Builder.Extends.terminate hi.cond.emits.ok _).trans hGe
    obtain ⟨ha₁, hr₁⟩ := h₁.avoids d G hG₁ (hd.imp_right hle₂.trans) ha
    have hsucc : ∀ k, k = σ.func.nblocks ∨ k = σ.func.nblocks + 1 → G.Avoids d k := fun k hk =>
      ha₁.step (edge_of_endBlock hGe (by simpa [Term.succs] using hk)) (by omega)
    obtain ⟨-, hr₂⟩ := hb.avoids d G hG₂
      (hd.imp_left fun hd => by change _ < σ₁.func.nblocks; omega) (hsucc _ (.inl rfl))
    refine ⟨hsucc _ (.inr rfl), fun q hq => ?_⟩
    rcases hr₂ q hq with hq | hq
    · exact hr₁ q hq
    · exact .inr hq

/-- How the new blocks of `ifThenElse` lie in the finished function. -/
structure IfThenElse.Paths (σ σ₁ σ₂ σ₃ : GenState) (c : Value) (k₁ k₂ : ℕ) (G : Func) : Prop where
  cond : σ₁.toBuilder.Finishes (σ.func.nblocks + 3) G
  first : σ₂.toBuilder.Finishes σ₁.func.nblocks G
  second : σ₃.toBuilder.Finishes σ₂.func.nblocks G
  targets : (σ₁.endBlock (.condBr c σ.func.nblocks (σ.func.nblocks + 1)) k₁).toBuilder.Targets
  targets₂ : (σ₂.endBlock (.br (σ.func.nblocks + 2)) k₂).toBuilder.Targets
  up : G.Below σ.insertBlock σ₁.insertBlock
  in₁ : G.Below σ₁.insertBlock k₁
  in₂ : G.Below σ₁.insertBlock k₂
  merge : G.Below σ₁.insertBlock (σ.func.nblocks + 2)

section IfThenElse

variable {c : Value} {k₁ k₂ : ℕ} (hok : σ.toBuilder.OK) (hi : IfThenElse σ σ₁ σ₂ σ₃ c k₁ k₂)
  (hk : k₁ = σ.func.nblocks ∧ k₂ = σ.func.nblocks + 1 ∨
    k₁ = σ.func.nblocks + 1 ∧ k₂ = σ.func.nblocks)
  (hc : Flow L σ.newBlock.newBlock.newBlock σ₁)
  {L' L'' : IRTemp → Prop}
  (hx : Flow L' (σ₁.endBlock (.condBr c σ.func.nblocks (σ.func.nblocks + 1)) k₁) σ₂)
  (hy : Flow L'' (σ₂.endBlock (.br (σ.func.nblocks + 2)) k₂) σ₃)

include hok hi hc in
theorem IfThenElse.targets (ht : σ.toBuilder.Targets) :
    (σ₁.endBlock (.condBr c σ.func.nblocks (σ.func.nblocks + 1)) k₁).toBuilder.Targets := by
  have hle : σ.func.nblocks + 3 ≤ σ₁.func.nblocks := hi.cond.emits.grows.nblocks
  have hnnn : Flow L σ σ.newBlock.newBlock.newBlock := Flow.newBlocks hok
  refine (hc.targets (hnnn.targets ht)).endBlock (fun s hs => ?_) _
  simp only [Term.succs, List.mem_cons, List.not_mem_nil, or_false] at hs
  omega

include hok hi hc hx in
theorem IfThenElse.targets₂ (ht : σ.toBuilder.Targets) :
    (σ₂.endBlock (.br (σ.func.nblocks + 2)) k₂).toBuilder.Targets := by
  have hle : σ.func.nblocks + 3 ≤ σ₁.func.nblocks := hi.cond.emits.grows.nblocks
  have hle₂ : σ₁.func.nblocks ≤ σ₂.func.nblocks := hi.first.body.emits.grows.nblocks
  refine (hx.targets (hi.targets hok hc ht)).endBlock (fun s hs => ?_) _
  rw [List.mem_singleton.1 hs]
  omega

include hok hi hk hc hx hy in
theorem IfThenElse.paths {G : Func} (ht : σ.toBuilder.Targets)
    (hG : (σ₃.endBlock (.br (σ.func.nblocks + 2)) (σ.func.nblocks + 2)).toBuilder.Finishes
      σ.func.nblocks G) : Paths σ σ₁ σ₂ σ₃ c k₁ k₂ G := by
  obtain ⟨pend, hG, hp⟩ := hG
  have hok₁ := (onward_newBlock hok).emits.ok
  have hok₂ := (onward_newBlock hok₁).emits.ok
  have hnnn : Flow L σ σ.newBlock.newBlock.newBlock := Flow.newBlocks hok
  have htargets := hi.targets hok hc ht
  have htargets₂ := hi.targets₂ hok hc hx ht
  have hle : σ.func.nblocks + 3 ≤ σ₁.func.nblocks := hi.cond.emits.grows.nblocks
  have hle₂ : σ₁.func.nblocks ≤ σ₂.func.nblocks := hi.first.body.emits.grows.nblocks
  have hle₃ : σ₂.func.nblocks ≤ σ₃.func.nblocks := hi.second.body.emits.grows.nblocks
  have hpos : 0 < σ.func.nblocks := Nat.lt_of_le_of_lt (Nat.zero_le _) hok.lt
  have hno : ∀ k, σ.func.nblocks ≤ k → k < σ.func.nblocks + 3 → ∀ a, ¬σ₁.func.Edge a k := by
    intro k hk hk₂ a he
    have he' := hi.cond.emits.grows.edge hk₂ he
    exact ht.not_edge hk ((Builder.edge_createBlock hok).1 ((Builder.edge_createBlock hok₁).1
      ((Builder.edge_createBlock hok₂).1 he')))
  have hG₃ := Builder.Later.of_terminate hi.second.all.emits.ok hG
  have hGe₂ := hG₃.of_grows hi.second.body.emits.grows hi.second.body.emits.ext
  have hG₂ := Builder.Later.of_terminate hi.first.all.emits.ok hGe₂
  have hGe₁ := hG₂.of_grows hi.first.body.emits.grows hi.first.body.emits.ext
  have hG₁ := Builder.Later.of_terminate hi.cond.emits.ok hGe₁
  have hp₃ : ∀ k, pend k ∨ k ∈ (Term.br (σ.func.nblocks + 2)).succs →
      k < σ.func.nblocks ∨ k = σ.func.nblocks + 2 :=
    fun k hk => hk.imp (hp k) List.mem_singleton.1
  have hp₂ : ∀ k, (pend k ∨ k ∈ (Term.br (σ.func.nblocks + 2)).succs) ∨
      k ∈ (Term.br (σ.func.nblocks + 2)).succs → k < σ.func.nblocks ∨ k = σ.func.nblocks + 2 :=
    fun k hk => hk.elim (hp₃ k) fun h => .inr (List.mem_singleton.1 h)
  have hcond : σ₁.toBuilder.Finishes (σ.func.nblocks + 3) G := by
    refine ⟨_, hG₁, fun k hk => ?_⟩
    rcases hk with hk | hk
    · have := hp₂ k hk
      omega
    · simp only [Term.succs, List.mem_cons, List.not_mem_nil, or_false] at hk
      omega
  have hfirst : σ₂.toBuilder.Finishes σ₁.func.nblocks G := ⟨_, hG₂, fun k hk => by
    have := hp₂ k hk
    omega⟩
  have hsecond : σ₃.toBuilder.Finishes σ₂.func.nblocks G := ⟨_, hG₃, fun k hk => by
    have := hp₃ k hk
    omega⟩
  -- the branches into the blocks in the states they are entered in
  have hedge₁ : ∀ {a k}, σ.func.nblocks ≤ k → k < σ.func.nblocks + 3 →
      (σ₁.endBlock (.condBr c σ.func.nblocks (σ.func.nblocks + 1)) k₁).func.Edge a k →
      a = σ₁.insertBlock ∧ k ≠ σ.func.nblocks + 2 := by
    intro a k hk hk' he
    rcases Builder.edge_endBlock.1 he with ⟨rfl, hs⟩ | ⟨-, he⟩
    · simp only [Term.succs, List.mem_cons, List.not_mem_nil, or_false] at hs
      exact ⟨rfl, by omega⟩
    · exact absurd he (hno k hk hk' a)
  have hedge₂ : ∀ {a k}, σ.func.nblocks ≤ k → k < σ.func.nblocks + 3 →
      (σ₂.endBlock (.br (σ.func.nblocks + 2)) k₂).func.Edge a k →
      (a = σ₂.insertBlock ∧ k = σ.func.nblocks + 2) ∨
        a = σ₁.insertBlock ∧ k ≠ σ.func.nblocks + 2 := by
    intro a k hk hk' he
    rcases Builder.edge_endBlock.1 he with ⟨rfl, hs⟩ | ⟨-, he⟩
    · exact .inl ⟨rfl, List.mem_singleton.1 hs⟩
    · exact .inr (hedge₁ hk hk'
        (hi.first.body.emits.grows.edge (by change _ < σ₁.func.nblocks; omega) he))
  have hin₁ : G.Below σ₁.insertBlock k₁ :=
    hGe₁.below (by change _ < σ₁.func.nblocks; omega) (fun h => by have := hp₂ _ h; omega)
      (by omega) fun a he => (hedge₁ (by omega) (by omega) he).1 ▸ Func.Below.refl _
  have hin₂ : G.Below σ₁.insertBlock k₂ := by
    refine hGe₂.below (by change _ < σ₂.func.nblocks; omega)
      (fun h => by have := hp₃ _ h; omega) (by omega) fun a he => ?_
    rcases hedge₂ (by omega) (by omega) he with ⟨-, h⟩ | ⟨rfl, -⟩
    · omega
    · exact Func.Below.refl _
  refine ⟨hcond, hfirst, hsecond, htargets, htargets₂, hc.below (hnnn.targets ht) G hcond,
    hin₁, hin₂, ?_⟩
  refine hG.below (by change _ < σ₃.func.nblocks; omega) (fun h => ?_) (Nat.succ_ne_zero _)
    fun a he => ?_
  · have := hp _ h
    omega
  · rcases Builder.edge_endBlock.1 he with ⟨rfl, -⟩ | ⟨-, he⟩
    · exact hin₂.trans (hy.below htargets₂ G hsecond)
    · rcases hedge₂ (by omega) (by omega) (hi.second.body.emits.grows.edge
        (by change _ < σ₂.func.nblocks; omega) he) with ⟨rfl, -⟩ | ⟨-, h⟩
      · exact hin₁.trans (hx.below htargets G hfirst)
      · exact absurd rfl h

end IfThenElse

/-- Two alternative blocks, and the block that is entered from either. -/
theorem IfThenElse.flow {c : Value} {k₁ k₂ : ℕ} (hok : σ.toBuilder.OK)
    (hi : IfThenElse σ σ₁ σ₂ σ₃ c k₁ k₂)
    (hk : k₁ = σ.func.nblocks ∧ k₂ = σ.func.nblocks + 1 ∨
      k₁ = σ.func.nblocks + 1 ∧ k₂ = σ.func.nblocks)
    (hc : Flow L σ.newBlock.newBlock.newBlock σ₁)
    (hx : Flow L (σ₁.endBlock (.condBr c σ.func.nblocks (σ.func.nblocks + 1)) k₁) σ₂)
    (hy : Flow L (σ₂.endBlock (.br (σ.func.nblocks + 2)) k₂) σ₃) :
    Flow L σ (σ₃.endBlock (.br (σ.func.nblocks + 2)) (σ.func.nblocks + 2)) := by
  have h₁ := (Flow.newBlocks hok).trans hi.init hi.cond hc
  have hle : σ.func.nblocks + 3 ≤ σ₁.func.nblocks := hi.cond.emits.grows.nblocks
  have hle₂ : σ₁.func.nblocks ≤ σ₂.func.nblocks := hi.first.body.emits.grows.nblocks
  have hle₃ : σ₂.func.nblocks ≤ σ₃.func.nblocks := hi.second.body.emits.grows.nblocks
  refine ⟨fun t => ?_, ?_, fun q hq => ?_, fun ht => ?_, fun ht G hG => ?_, fun d G hG hd ha => ?_⟩
  · rcases hy.sets t with h | h
    · rcases hx.sets t with h' | h'
      · rcases h₁.sets t with h'' | h''
        · exact .inl (h.trans (h'.trans h''))
        · exact .inr h''
      · exact .inr h'
    · exact .inr h
  · exact List.Subset.trans h₁.reads (List.Subset.trans hx.reads hy.reads)
  · rcases hy.known q hq with hq | hq
    · rcases hx.known q hq with hq | hq
      · exact (h₁.known q hq).imp_right fun hne => hi.second.body.set (hi.first.body.set hne)
      · exact .inr (hi.second.body.set hq)
    · exact .inr hq
  · refine (hy.targets (hi.targets₂ hok hc hx ht)).endBlock (fun s hs => ?_) _
    rw [List.mem_singleton.1 hs]
    omega
  · have hw := hi.paths hok hk hc hx hy ht hG
    exact hw.up.trans hw.merge
  · have hd : d < σ.func.nblocks ∨ σ₃.func.nblocks ≤ d := hd
    have hG₃ : Builder.Extends σ₃.func G :=
      (Builder.Extends.terminate hi.second.all.emits.ok _).trans hG
    have hGe₂ := hi.second.body.emits.ext.trans hG₃
    have hG₂ : Builder.Extends σ₂.func G :=
      (Builder.Extends.terminate hi.first.all.emits.ok _).trans hGe₂
    have hGe₁ := hi.first.body.emits.ext.trans hG₂
    have hG₁ := (Builder.Extends.terminate hi.cond.emits.ok _).trans hGe₁
    obtain ⟨ha₁, hr₁⟩ := h₁.avoids d G hG₁ (hd.imp_right (hle₂.trans hle₃).trans) ha
    have hsucc : ∀ k, k = σ.func.nblocks ∨ k = σ.func.nblocks + 1 → G.Avoids d k := fun k hk =>
      ha₁.step (edge_of_endBlock hGe₁ (by simpa [Term.succs] using hk)) (by omega)
    obtain ⟨-, hr₂⟩ := hx.avoids d G hG₂
      (by change d < σ₁.func.nblocks ∨ σ₂.func.nblocks ≤ d; omega)
      (hsucc _ (by change k₁ = _ ∨ k₁ = _; omega))
    obtain ⟨ha₃, hr₃⟩ := hy.avoids d G hG₃
      (by change d < σ₂.func.nblocks ∨ σ₃.func.nblocks ≤ d; omega)
      (hsucc _ (by change k₂ = _ ∨ k₂ = _; omega))
    have ha : G.Avoids d (σ.func.nblocks + 2) :=
      ha₃.step (edge_of_endBlock hG (List.mem_singleton_self _)) (by omega)
    refine ⟨ha, fun q hq => ?_⟩
    rcases hr₃ q hq with hq | hq
    · rcases hr₂ q hq with hq | hq
      · exact hr₁ q hq
      · exact .inr hq
    · exact .inr hq

/-! ## Computations -/

section Flows

variable {m m' : EmitM α} {f : α → EmitM β}

theorem flows_of_same (h : ∀ {σ σ' : GenState} {a : α}, m σ = .ok (a, σ') →
    σ'.toBuilder = σ.toBuilder ∧ σ'.reads = σ.reads ∧ ∀ t, σ'.values t = σ.values t ∨ L t) :
    Flows L m :=
  ⟨fun hm _ => by
    obtain ⟨hb, hr, hv⟩ := h hm
    exact .of_same hv hr (by rw [hb]) (by rw [hb]) fun k => by rw [hb]⟩

instance flows_pure (a : α) : Flows L (pure a) :=
  flows_of_same fun h => by cases h; exact ⟨rfl, rfl, fun _ => .inl rfl⟩

instance flows_throw (e : EmitError) : Flows L (throw e : EmitM α) := ⟨fun h => by cases h⟩

instance flows_get : Flows L (get : EmitM GenState) :=
  flows_of_same fun h => by cases h; exact ⟨rfl, rfl, fun _ => .inl rfl⟩

theorem flows_get_bind {f : GenState → EmitM β} (h : ∀ s, Flows L (f s)) : Flows L (get >>= f) where
  flow {σ σ' b} hm hok := by
    rw [get_bind] at hm
    exact (h σ).flow hm hok

instance flows_bind [Builds m] [∀ a, Builds (f a)] [Flows L m] [∀ a, Flows L (f a)] :
    Flows L (m >>= f) where
  flow h hok := by
    obtain ⟨a, σ₁, h₁, h₂⟩ := bind_eq_ok h
    have ho := Builds.onward h₁ hok
    exact (Flows.flow h₁ hok).trans ho (Builds.onward h₂ ho.emits.ok) (Flows.flow h₂ ho.emits.ok)

instance flows_map (g : α → β) [Flows L m] : Flows L (g <$> m) where
  flow h hok := by
    obtain ⟨a, h, -⟩ := map_eq_ok h
    exact Flows.flow h hok

instance flows_ite {c : Prop} [Decidable c] [Flows L m] [Flows L m'] :
    Flows L (if c then m else m') := by
  split <;> infer_instance

instance flows_code (c : Code EmitError α) : Flows L (code c) where
  flow {σ σ' a} h _ := by
    obtain ⟨b, hrun, rfl⟩ := code_eq_ok h
    exact .of_same (fun _ => .inl rfl) rfl (run_insertBlock hrun) (run_nblocks hrun) (run_term hrun)

theorem flows_modify {g : GenState → GenState} (hb : ∀ σ, (g σ).toBuilder = σ.toBuilder)
    (hr : ∀ σ, (g σ).reads = σ.reads) (hv : ∀ σ, (g σ).values = σ.values) :
    Flows L (modify g : EmitM PUnit) :=
  flows_of_same fun {σ σ' a} h => by
    cases h
    exact ⟨hb σ, hr σ, fun t => .inl (by rw [hv σ])⟩

instance flows_getRegValue (t : IRTemp) : Flows L (getRegValue t) where
  flow {σ σ' a} h _ := by
    unfold getRegValue at h
    cases hv : σ.values t with
    | none =>
        rw [hv] at h
        cases h
    | some v =>
        rw [hv] at h
        cases h
        refine ⟨fun _ => .inl rfl, List.subset_cons_self _ _, fun q hq => ?_, id,
          fun _ _ _ => .refl _, fun d G _ _ ha => ⟨ha, fun q hq => ?_⟩⟩
        · rcases List.mem_cons.1 hq with rfl | hq
          · exact .inr fun h => Option.some_ne_none _ (hv.symm.trans h)
          · exact .inl hq
        · rcases List.mem_cons.1 hq with rfl | hq
          · exact .inr ha
          · exact .inl hq

theorem flows_setRegValue {t : IRTemp} (ht : L t) (v : Value) : Flows L (setRegValue t v) :=
  flows_of_same fun {σ σ' a} h => by
    unfold setRegValue at h
    cases hv : σ.values t with
    | some w =>
        rw [hv] at h
        cases h
    | none =>
        rw [hv] at h
        cases h
        refine ⟨rfl, rfl, fun t' => ?_⟩
        by_cases he : t' = t
        · exact .inr (he ▸ ht)
        · exact .inl (Function.update_of_ne he _ _)

instance flows_llvmTy (t : IRType) : Flows L (llvmTy t) := by
  unfold llvmTy
  split <;> infer_instance

instance flows_regType (types : List IRType) (t : IRTemp) : Flows L (VexStmt.regType types t) := by
  unfold VexStmt.regType
  infer_instance

theorem flows_emitAll {ms : List (EmitM α)} (hb : ∀ m ∈ ms, Builds m) (h : ∀ m ∈ ms, Flows L m) :
    Flows L (emitAll ms) := by
  induction ms with
  | nil => exact flows_pure []
  | cons m ms ih =>
      have := hb m List.mem_cons_self
      have := h m List.mem_cons_self
      have hb' := fun m' hm' => hb m' (List.mem_cons_of_mem m hm')
      have := builds_emitAll hb'
      have := ih hb' fun m' hm' => h m' (List.mem_cons_of_mem m hm')
      unfold emitAll
      infer_instance

instance flows_ifThen {cond : EmitM Value} {body : EmitM α} [Builds cond] [Builds body]
    [Flows L cond] [Flows L body] : Flows L (ifThen cond body) where
  flow {σ σ' a} h hok := by
    obtain ⟨c, σ₁, σ₂, hc, hb, rfl⟩ := ifThen_eq_ok h
    have hbr : ∀ s ∈ (Term.br (σ.func.nblocks + 1)).succs, σ.func.nblocks ≤ s := by simp [Term.succs]
    have hi := IfThen.of_ok hok hc hb hbr
    exact hi.flow hok (fun s hs => List.mem_singleton.1 hs) (Flows.flow hc hi.init.emits.ok)
      (Flows.flow hb hi.then_.enter.emits.ok)

instance flows_ifThenElse {b : Bool} {cond first second : EmitM Value} [Builds cond] [Builds first]
    [Builds second] [Flows L cond] [Flows L first] [Flows L second] :
    Flows L (ifThenElse b cond first second) where
  flow h hok := by
    obtain ⟨c, σ₁, x, σ₂, y, σ₃, hc, hx, hy, -, rfl⟩ := ifThenElse_eq_ok h
    have hi := IfThenElse.of_ok hok (by cases b <;> simp) hc hx hy
    exact hi.flow hok (by cases b <;> simp) (Flows.flow hc hi.init.emits.ok)
      (Flows.flow hx (hi.cond.emits.ok.endBlock hi.first.waiting))
      (Flows.flow hy (hi.first.all.emits.ok.endBlock hi.second.waiting))

end Flows

namespace GenLLVM

variable (gen : GenLLVM)

instance flows_getCtxPtr (t : Ty) : Flows L (gen.getCtxPtr t) := by
  unfold getCtxPtr
  refine flows_get_bind fun σ => @flows_ite _ _ _ _ _ _ (flows_code _) ?_
  split
  · exact flows_pure _
  · have := fun p => builds_modify (g := fun σ : GenState =>
      { σ with ctxcastMap := Function.update σ.ctxcastMap t (some p) }) (fun _ => rfl) fun _ => rfl
    have := fun p => flows_modify (L := L) (g := fun σ : GenState =>
      { σ with ctxcastMap := Function.update σ.ctxcastMap t (some p) }) (fun _ => rfl) (fun _ => rfl)
      fun _ => rfl
    infer_instance

instance flows_getCtxTyGEP (off : Value) (t : Ty) : Flows L (gen.getCtxTyGEP off t) := by
  unfold getCtxTyGEP
  infer_instance

instance flows_getCtxByteGEP (off : ℕ) (t : Ty) : Flows L (gen.getCtxByteGEP off t) := by
  unfold getCtxByteGEP
  refine @flows_ite _ _ _ _ _ _ (flows_throw _) (flows_get_bind fun σ => ?_)
  split
  · infer_instance
  · have := fun p => builds_modify (g := fun σ : GenState =>
      { σ with gepbyteMap := Function.update σ.gepbyteMap (off, t.bytes) (some p) })
      (fun _ => rfl) fun _ => rfl
    have := fun p => flows_modify (L := L) (g := fun σ : GenState =>
      { σ with gepbyteMap := Function.update σ.gepbyteMap (off, t.bytes) (some p) })
      (fun _ => rfl) (fun _ => rfl) fun _ => rfl
    infer_instance

instance flows_readCtx (off : ℕ) (ty : IRType) : Flows L (gen.readCtx off ty) := by
  unfold readCtx
  infer_instance

instance flows_writeCtx (off : ℕ) (v : Value) : Flows L (gen.writeCtx off v) := by
  unfold writeCtx
  infer_instance

instance flows_getCtxElem (off : ℕ) (bias : ℤ) (len : ℕ) (ix : Value) (t : Ty) :
    Flows L (gen.getCtxElem off bias len ix t) := by
  unfold getCtxElem
  infer_instance

instance flows_readCtxI (off : ℕ) (bias : ℤ) (len : ℕ) (ix : Value) (t : Ty) :
    Flows L (gen.readCtxI off bias len ix t) := by
  unfold readCtxI
  infer_instance

instance flows_writeCtxI (off : ℕ) (bias : ℤ) (len : ℕ) (ix v : Value) :
    Flows L (gen.writeCtxI off bias len ix v) := by
  unfold writeCtxI
  infer_instance

instance flows_store (a d : Value) : Flows L (gen.store a d) := by
  unfold store
  infer_instance

instance flows_load (a : Value) (t : Ty) : Flows L (gen.load a t) := by
  unfold load
  infer_instance

instance flows_loadVex (a : Value) (ty : IRType) : Flows L (gen.loadVex a ty) := by
  unfold loadVex
  infer_instance

instance flows_setExitType (n : ℕ) : Flows L (gen.setExitType n) := by
  unfold setExitType
  infer_instance

end GenLLVM

/-! ## Expressions and statements -/

theorem builds_args (gen : GenLLVM) {n : ℕ} (args : Fin n → VexExpr) :
    ∀ m ∈ List.ofFn fun i => (args i).emit gen, Builds m := fun m hm => by
  obtain ⟨i, rfl⟩ := List.mem_ofFn.1 hm
  infer_instance

instance flows_expr (gen : GenLLVM) (e : VexExpr) : Flows L (e.emit gen) := by
  induction e with
  | null => exact flows_throw _
  | stub n args ih => exact flows_throw _
  | abort e => exact flows_throw _
  | nary op args ih =>
      unfold VexExpr.emit
      have := builds_emitAll (builds_args gen args)
      have : Flows L (emitAll (List.ofFn fun i => (args i).emit gen)) :=
        flows_emitAll (builds_args gen args) fun m hm => by
          obtain ⟨i, rfl⟩ := List.mem_ofFn.1 hm
          exact ih i
      infer_instance
  | ccall f sig n args ih =>
      unfold VexExpr.emit
      have := builds_emitAll (builds_args gen args)
      have : Flows L (emitAll (List.ofFn fun i => (args i).emit gen)) :=
        flows_emitAll (builds_args gen args) fun m hm => by
          obtain ⟨i, rfl⟩ := List.mem_ofFn.1 hm
          exact ih i
      infer_instance
  | _ =>
      unfold VexExpr.emit
      infer_instance

instance builds_emitArgs (gen : GenLLVM) {n : ℕ} (args : Fin n → VexExpr) :
    Builds (emitAll (List.ofFn fun i => (args i).emit gen)) := builds_emitAll (builds_args gen args)

instance flows_emitArgs (gen : GenLLVM) {n : ℕ} (args : Fin n → VexExpr) :
    Flows L (emitAll (List.ofFn fun i => (args i).emit gen)) :=
  flows_emitAll (builds_args gen args) fun m hm => by
    obtain ⟨i, rfl⟩ := List.mem_ofFn.1 hm
    infer_instance

namespace VexStmt

variable (gen : GenLLVM) (types : List IRType)

abbrev AnyTmp : IRTemp → Prop := fun _ => True

instance flows_setTmp (t : IRTemp) (v : Value) : Flows AnyTmp (setRegValue t v) :=
  flows_setRegValue trivial v

instance flows_emitExit (guard : VexExpr) (jk : IRJumpKind) (exitType : GuestExitType)
    (dst : BitVec 64) : Flows L (emitExit gen guard jk exitType dst) where
  flow {σ σ' a} h hok := by
    obtain ⟨c, σ₁, σ₂, hc, hb, rfl⟩ := emitExit_eq_ok h
    have hi : IfThen σ σ₁ σ₂ _ (.ret (constInt 64 dst.toNat)) := IfThen.of_exit hok hc hb
    exact hi.flow hok (fun s hs => absurd hs List.not_mem_nil) (Flows.flow hc hi.init.emits.ok)
      (Flows.flow hb hi.then_.enter.emits.ok)

theorem builds_dirtyArgs (args : List VexExpr) : ∀ m ∈ args.map fun e => e.emit gen, Builds m :=
  fun m hm => by
    obtain ⟨e, -, rfl⟩ := List.mem_map.1 hm
    infer_instance

instance builds_emitDirtyArgs (args : List VexExpr) :
    Builds (emitAll (args.map fun e => e.emit gen)) := builds_emitAll (builds_dirtyArgs gen args)

instance flows_emitDirtyArgs (args : List VexExpr) :
    Flows L (emitAll (args.map fun e => e.emit gen)) :=
  flows_emitAll (builds_dirtyArgs gen args) fun m hm => by
    obtain ⟨e, -, rfl⟩ := List.mem_map.1 hm
    infer_instance

/-- What `emitDirtyCall` does once the arguments are emitted: the call, and the
temporary. -/
def callDirty (f : String) (sig : FnTy) (tmp : Option IRTemp) (vs : List Value) : EmitM Unit :=
  match vs, sig.params with
  | v :: vs, p :: _ => do
      let v ← code (createBitCast v p)
      let call ← code (createCall f sig (v :: vs))
      match tmp with
      | none => pure ()
      | some t => do
          let tmpType ← regType types t
          let r ← code (castResult call sig.ret tmpType)
          setRegValue t r
  | _, _ => throw (.assertion "args_v[0]")

theorem emitDirtyCall_eq (f : String) (sig : FnTy) (tmp : Option IRTemp) (args : List VexExpr) :
    emitDirtyCall gen types f sig tmp args = (do
      let vs ← emitAll (args.map fun e => e.emit gen)
      callDirty types f sig tmp vs) := rfl

instance builds_callDirty (f : String) (sig : FnTy) (tmp : Option IRTemp) (vs : List Value) :
    Builds (callDirty types f sig tmp vs) := by
  cases tmp <;> unfold callDirty <;> split <;> infer_instance

theorem flows_callDirty (f : String) (sig : FnTy) {tmp : Option IRTemp} (vs : List Value)
    (h : ∀ t ∈ tmp, L t) : Flows L (callDirty types f sig tmp vs) := by
  unfold callDirty
  cases tmp with
  | none => split <;> infer_instance
  | some t =>
      have := flows_setRegValue (h t rfl)
      split <;> infer_instance

theorem flows_emitDirtyCall (f : String) (sig : FnTy) {tmp : Option IRTemp} (args : List VexExpr)
    (h : ∀ t ∈ tmp, L t) : Flows L (emitDirtyCall gen types f sig tmp args) := by
  have := fun vs => flows_callDirty types f sig vs h
  rw [emitDirtyCall_eq]
  infer_instance

instance flows_emitDirty (f : String) (sig : FnTy) (guard : VexExpr) (tmp : Option IRTemp)
    (args : List VexExpr) : Flows AnyTmp (emitDirty gen types f sig guard tmp args) := by
  have := @flows_emitDirtyCall AnyTmp gen types f sig tmp args fun _ _ => trivial
  unfold emitDirty
  infer_instance

instance flows_emitCASHi (a : Value) (t : Ty) (eh : VexExpr) : Flows L (emitCASHi gen a t eh) := by
  unfold emitCASHi
  infer_instance

instance flows_emitCASSwap (oldHi : Option IRTemp) (oldLo : IRTemp) (new : VexExpr)
    (a e l : Value) (hi : Option (Value × Value × Value)) :
    Flows AnyTmp (emitCASSwap gen oldHi oldLo new a e l hi) := by
  cases hi <;> cases oldHi <;> unfold emitCASSwap <;> infer_instance

instance flows_emitCAS (oldHi : Option IRTemp) (oldLo : IRTemp) (addr : VexExpr)
    (expectedHi : Option VexExpr) (expected new : VexExpr) :
    Flows AnyTmp (emitCAS gen oldHi oldLo addr expectedHi expected new) := by
  cases expectedHi with
  | none =>
      rw [emitCAS_none]
      infer_instance
  | some eh =>
      rw [emitCAS_some]
      infer_instance

instance flows_emitLLSC (result : IRTemp) (addr : VexExpr) (data : Option VexExpr) :
    Flows AnyTmp (emitLLSC gen types result addr data) := by
  cases data <;> unfold emitLLSC <;> infer_instance

set_option synthInstance.maxSize 256 in
instance flows_emitLoadG (cvt : IRLoadGOp) (dst : IRTemp) (addr alt guard : VexExpr) :
    Flows AnyTmp (emitLoadG gen cvt dst addr alt guard) := by
  unfold emitLoadG
  split <;> infer_instance

instance flows_stmt (s : VexStmt) : Flows AnyTmp (s.emit gen types) := by
  cases s <;> unfold emit <;> infer_instance

end VexStmt

instance flows_emitStmts (gen : GenLLVM) (types : List IRType) (ss : List VexStmt) :
    Flows VexStmt.AnyTmp (VexSB.emitStmts gen types ss) := by
  induction ss with
  | nil => exact flows_pure _
  | cons s ss ih =>
      unfold VexSB.emitStmts
      infer_instance

end VexLLVM
