import VexLLVM.LLVM.Added

/-!
# Dominance

Edges, paths from the entry, and dominance in the usual sense: `d` dominates
`k` when every path from the entry to `k` passes through `d`. The transport
lemmas say which of these facts a later function keeps: a block that waits for
no further branch has its paths already.
-/

namespace LLVM

namespace Func

def Edge (F : Func) (a b : ℕ) : Prop := ∃ t, (F.blocks a).term = some t ∧ b ∈ t.succs

/-- `Path F k p`: `p` lists the blocks of a path from the entry to `k`. -/
inductive Path (F : Func) : ℕ → List ℕ → Prop
  | entry : Path F 0 [0]
  | snoc {a b : ℕ} {p : List ℕ} : Path F a p → F.Edge a b → Path F b (p ++ [b])

def Dominates (F : Func) (d k : ℕ) : Prop := ∀ p, F.Path k p → d ∈ p

/-- Some path from the entry to `k` misses `d`. -/
def Avoids (F : Func) (d k : ℕ) : Prop := ∃ p, F.Path k p ∧ d ∉ p

variable {F : Func}

theorem Path.mem_self {k : ℕ} {p : List ℕ} (h : F.Path k p) : k ∈ p := by
  cases h with
  | entry => simp
  | snoc _ _ => simp

theorem Dominates.refl (k : ℕ) : F.Dominates k k := fun _ h => h.mem_self

/-- A block other than the entry is dominated by what dominates all its
predecessors. -/
theorem Dominates.of_preds {d k : ℕ} (hk : k ≠ 0)
    (h : ∀ a, F.Edge a k → F.Dominates d a) : F.Dominates d k := by
  intro p hp
  cases hp with
  | entry => exact absurd rfl hk
  | snoc hp he => exact List.mem_append_left _ (h _ he _ hp)

/-- What dominates `k` dominates `k'`. -/
def Below (F : Func) (k k' : ℕ) : Prop := ∀ d, F.Dominates d k → F.Dominates d k'

theorem Below.refl (k : ℕ) : F.Below k k := fun _ => id

theorem Below.trans {k k' k'' : ℕ} (h : F.Below k k') (h' : F.Below k' k'') : F.Below k k'' :=
  fun d hd => h' d (h d hd)

theorem Below.of_preds {k k' : ℕ} (hk : k' ≠ 0) (h : ∀ a, F.Edge a k' → F.Below k a) :
    F.Below k k' :=
  fun d hd => .of_preds hk fun a he => h a he d hd

theorem Avoids.entry {d : ℕ} (hd : d ≠ 0) : F.Avoids d 0 :=
  ⟨[0], .entry, by simpa using hd⟩

theorem Avoids.step {d a b : ℕ} (h : F.Avoids d a) (he : F.Edge a b) (hne : b ≠ d) :
    F.Avoids d b := by
  obtain ⟨p, hp, hd⟩ := h
  refine ⟨p ++ [b], hp.snoc he, ?_⟩
  rw [List.mem_append, List.mem_singleton, not_or]
  exact ⟨hd, fun h => hne h.symm⟩

def DefinedIn (F : Func) (id k : ℕ) : Prop := ∃ i, (id, i) ∈ (F.blocks k).insts

/-- The value is defined in a block that dominates `k`; constants and arguments
are available everywhere. -/
def Available (F : Func) (v : Value) (k : ℕ) : Prop :=
  ∀ id t, v = .inst id t → ∃ d, F.DefinedIn id d ∧ F.Dominates d k

theorem Available.of_isConst {v : Value} (h : v.isConst = true) (k : ℕ) :
    F.Available v k := by
  rintro id t rfl
  cases h

theorem Available.arg (i : ℕ) (t : Ty) (k : ℕ) : F.Available (.arg i t) k := by
  intro id t' h
  cases h

theorem Available.mono {v : Value} {k k' : ℕ} (h : F.Available v k)
    (hd : F.Below k k') : F.Available v k' := by
  intro id t hv
  obtain ⟨d, hdef, hdom⟩ := h id t hv
  exact ⟨d, hdef, hd d hdom⟩

end Func

namespace Builder

/-- `G` is finished from `b`: it continues what `b` has built, its instruction
numbers stand in one block each, and into a block of `b` outside `pend` it has no
more edges than `b`. The blocks `pend` still wait for branches. -/
structure Later (b : Builder) (pend : ℕ → Prop) (G : Func) : Prop where
  ext : Extends b.func G
  edges : ∀ a k, k < b.func.nblocks → ¬ pend k → G.Edge a k → b.func.Edge a k

variable {b b' : Builder} {pend : ℕ → Prop} {G : Func}

/-- Branches that are added go to blocks made since. -/
theorem Grows.edge (hg : Grows b b') {a k : ℕ} (hk : k < b.func.nblocks)
    (he : b'.func.Edge a k) : b.func.Edge a k := by
  obtain ⟨t, ht, hs⟩ := he
  by_cases hcase : b.func.nblocks ≤ a ∨ a = b.insertBlock
  · exact absurd (hg.targets a t hcase ht k hs) (Nat.not_le.2 hk)
  · rw [not_or, Nat.not_le] at hcase
    have hb : b'.func.blocks a = b.func.blocks a := hg.frame a hcase.1 hcase.2
    exact ⟨t, by rw [← hb]; exact ht, hs⟩

theorem Later.of_grows (hg : Grows b b') (hx : Extends b.func b'.func)
    (h : Later b' pend G) : Later b pend G where
  ext := hx.trans h.ext
  edges a k hk hp he := hg.edge hk (h.edges a k (hk.trans_le hg.nblocks) hp he)

/-- Ending a block: until then its successors were waiting. -/
theorem Later.of_terminate (hb : b.OK) {t : Term} {k : ℕ}
    (h : Later ((b.terminate t).setInsertPoint k) pend G) :
    Later b (fun j => pend j ∨ j ∈ t.succs) G where
  ext := (Extends.terminate hb t).trans h.ext
  edges a j hj hp he := by
    rw [not_or] at hp
    obtain ⟨t', ht', hs⟩ := h.edges a j hj hp.1 he
    change ((b.terminate t).block a).term = some t' at ht'
    rw [terminate_block] at ht'
    split at ht'
    · cases ht'
      exact absurd hs hp.2
    · exact ⟨t', ht', hs⟩

theorem Later.refl (b : Builder) : Later b (fun _ => False) b.func := ⟨.refl _, fun _ _ _ _ => id⟩

theorem Later.mono {pend' : ℕ → Prop} (h : Later b pend G)
    (hp : ∀ k, pend k → pend' k) : Later b pend' G :=
  ⟨h.ext, fun a k hk hn => h.edges a k hk fun hk' => hn (hp k hk')⟩

/-- A block with all its branches is below what is above the blocks they come from. -/
theorem Later.below (h : Later b pend G) {o k : ℕ} (hk : k < b.func.nblocks) (hp : ¬pend k)
    (h0 : k ≠ 0) (ho : ∀ a, b.func.Edge a k → G.Below o a) : G.Below o k :=
  Func.Below.of_preds h0 fun a he => ho a (h.edges a k hk hp he)

/-- `G` is finished from `b`, with branches still to come into blocks below `n` only. -/
def Finishes (b : Builder) (n : ℕ) (G : Func) : Prop :=
  ∃ pend, Later b pend G ∧ ∀ k, pend k → k < n

theorem Finishes.ext {n : ℕ} (h : b.Finishes n G) : Extends b.func G := by
  obtain ⟨_, hG, -⟩ := h
  exact hG.ext

theorem Finishes.of_grows (hg : Grows b b') (hx : Extends b.func b'.func) {n m : ℕ}
    (h : b'.Finishes n G) (hle : n ≤ m) : b.Finishes m G := by
  obtain ⟨pend, hG, hp⟩ := h
  exact ⟨pend, hG.of_grows hg hx, fun k hk => (hp k hk).trans_le hle⟩

/-- A branch the builder has placed is an edge of the finished function. -/
theorem Later.edge (h : Later b pend G) {a k : ℕ} (he : b.func.Edge a k) : G.Edge a k := by
  obtain ⟨t, ht, hs⟩ := he
  exact ⟨t, by rw [(h.ext a).2 t ht]; exact ht, hs⟩

/-- All branches go to blocks that have been made. -/
def Targets (b : Builder) : Prop := ∀ a k, b.func.Edge a k → k < b.func.nblocks

theorem Targets.empty : Builder.empty.Targets := by
  rintro a k ⟨t, ht, -⟩
  cases ht

/-- Instructions change no branches. -/
theorem edge_congr {b b' : Builder} (h : ∀ k, (b'.block k).term = (b.block k).term) {a k : ℕ} :
    b'.func.Edge a k ↔ b.func.Edge a k := by
  have ht : (b'.func.blocks a).term = (b.func.blocks a).term := h a
  rw [Func.Edge, Func.Edge, ht]

theorem edge_createBlock (hb : b.OK) {a k : ℕ} :
    b.createBlock.2.func.Edge a k ↔ b.func.Edge a k := by
  refine edge_congr fun j => ?_
  rw [createBlock_block]
  split
  · next hj =>
      rw [hj, hb.fresh b.func.nblocks (Nat.le_refl _)]
  · rfl

theorem edge_endBlock {t : Term} {n a k : ℕ} : (b.endBlock t n).func.Edge a k ↔
    (a = b.insertBlock ∧ k ∈ t.succs) ∨ (a ≠ b.insertBlock ∧ b.func.Edge a k) := by
  have hblk : (b.endBlock t n).func.blocks a =
      if a = b.insertBlock then { b.current with term := some t } else b.func.blocks a :=
    terminate_block b t a
  rw [Func.Edge, hblk]
  split
  · next h => simp [h]
  · next h => simp [h, Func.Edge]

theorem Targets.createBlock (h : b.Targets) (hb : b.OK) : b.createBlock.2.Targets :=
  fun a k he => Nat.lt_succ_of_lt (h a k ((edge_createBlock hb).1 he))

theorem Targets.endBlock (h : b.Targets) {t : Term} (ht : ∀ s ∈ t.succs, s < b.func.nblocks)
    (n : ℕ) :
    (b.endBlock t n).Targets := fun a k he => by
  rcases edge_endBlock.1 he with ⟨-, hk⟩ | ⟨-, he⟩
  · exact ht k hk
  · exact h a k he

/-- No branches go to a block that has just been made. -/
theorem Targets.not_edge (h : b.Targets) {a k : ℕ} (hk : b.func.nblocks ≤ k) : ¬b.func.Edge a k :=
  fun he => absurd (h a k he) (Nat.not_lt.2 hk)

end Builder

end LLVM
