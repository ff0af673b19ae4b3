import VexLLVM.LLVM.Builder

/-!
# What a stretch of building adds

`Emits b b'` collects what holds between the builder before and after: the
invariant, continuation and growth. The instructions and terminators placed in
between, and the values they use, split along any builder on the way.
-/

namespace LLVM

namespace Builder

/-- Building went from `b` to `b'`. -/
structure Emits (b b' : Builder) : Prop where
  ok : b'.OK
  ext : Extends b.func b'.func
  grows : Grows b b'

theorem Emits.refl {b : Builder} (h : b.OK) : Emits b b := ⟨h, .refl _, .refl h⟩

theorem Emits.trans {b b' b'' : Builder} (h : Emits b b') (h' : Emits b' b'') : Emits b b'' :=
  ⟨h'.ok, h.ext.trans h'.ext, h.grows.trans h'.grows⟩

theorem Emits.create {b : Builder} (h : b.OK) (i : Inst) : Emits b (b.create i).2 := by
  cases hs : i.simplify? with
  | some v =>
      rw [create_of_some hs]
      exact .refl h
  | none =>
      rw [create_of_none hs]
      exact ⟨h.insert i, .insert h i, (Grows.refl h).insert i⟩

theorem Emits.createBlock {b : Builder} (h : b.OK) : Emits b b.createBlock.2 :=
  ⟨h.createBlock, .createBlock h, (Grows.refl h).createBlock⟩

def Added (b b' : Builder) (k : ℕ) (i : Inst) : Prop :=
  ∃ id, b.nextId ≤ id ∧ (id, i) ∈ (b'.block k).insts

def Ended (b b' : Builder) (k : ℕ) (t : Term) : Prop :=
  (b.block k).term = none ∧ (b'.block k).term = some t

/-- Something placed after `b` uses `v` in the block `k`: a phi uses its
incoming values at the ends of the blocks they come from. -/
inductive Uses (b b' : Builder) (v : Value) (k : ℕ) : Prop
  | operand {i : Inst} : Added b b' k i → v ∈ i.operands → Uses b b' v k
  | incoming {i : Inst} {j : ℕ} : Added b b' j i → (v, k) ∈ i.incoming → Uses b b' v k
  | term {t : Term} : Ended b b' k t → v ∈ t.operands → Uses b b' v k

variable {b b' b'' : Builder} {k : ℕ} {i : Inst} {t : Term} {v : Value}

theorem Added.of_id_lt (h : b.OK) : ¬ Added b b k i := by
  rintro ⟨id, hid, hm⟩
  exact absurd (h.ids k _ hm) (Nat.not_lt.2 hid)

theorem Added.mono (h : Extends b'.func b''.func) (ha : Added b b' k i) : Added b b'' k i := by
  obtain ⟨id, hid, hm⟩ := ha
  exact ⟨id, hid, (h k).1.subset hm⟩

theorem Added.of_le (h : b.nextId ≤ b'.nextId) (ha : Added b' b'' k i) : Added b b'' k i := by
  obtain ⟨id, hid, hm⟩ := ha
  exact ⟨id, h.trans hid, hm⟩

theorem Added.split (h : Grows b' b'') (ha : Added b b'' k i) :
    Added b b' k i ∨ Added b' b'' k i := by
  obtain ⟨id, hid, hm⟩ := ha
  rcases h.newIds k _ hm with hm' | hn
  · exact Or.inl ⟨id, hid, hm'⟩
  · exact Or.inr ⟨id, hn, hm⟩

theorem added_trans (hg : b.nextId ≤ b'.nextId) (h : Emits b' b'') :
    Added b b'' k i ↔ Added b b' k i ∨ Added b' b'' k i :=
  ⟨Added.split h.grows, fun ha => ha.elim (Added.mono h.ext) (Added.of_le hg)⟩

theorem added_create {j : Inst} (h : b.OK) :
    Added b (b.create i).2 k j ↔ i.simplify? = none ∧ k = b.insertBlock ∧ j = i := by
  cases hs : i.simplify? with
  | some v =>
      rw [create_of_some hs]
      simp [Added.of_id_lt h]
  | none =>
      rw [create_of_none hs]
      simp only [true_and]
      constructor
      · rintro ⟨id, hid, hm⟩
        rcases mem_insert_block.1 hm with hm | ⟨hk, heq⟩
        · exact absurd (h.ids k _ hm) (Nat.not_lt.2 hid)
        · cases heq
          exact ⟨hk, rfl⟩
      · rintro ⟨rfl, rfl⟩
        exact ⟨b.nextId, Nat.le_refl _, mem_insert_block.2 (Or.inr ⟨rfl, rfl⟩)⟩

theorem Ended.split (h : Extends b'.func b''.func) (he : Ended b b'' k t) :
    Ended b b' k t ∨ Ended b' b'' k t := by
  cases ht : (b'.block k).term with
  | none => exact Or.inr ⟨ht, he.2⟩
  | some t' =>
      have hb : b''.block k = b'.block k := (h k).2 t' ht
      rw [Ended, hb] at he
      exact Or.inl he

theorem Ended.irrefl (he : Ended b b k t) : False := by
  have h := he.1
  rw [he.2] at h
  cases h

theorem Uses.split (h : Extends b'.func b''.func) (hg : Grows b' b'') (hu : Uses b b'' v k) :
    Uses b b' v k ∨ Uses b' b'' v k := by
  cases hu with
  | operand ha hv => exact (ha.split hg).imp (.operand · hv) (.operand · hv)
  | incoming ha hv => exact (ha.split hg).imp (.incoming · hv) (.incoming · hv)
  | term he hv => exact (he.split h).imp (.term · hv) (.term · hv)

theorem Uses.irrefl (h : b.OK) (hu : Uses b b v k) : False := by
  cases hu with
  | operand ha _ => exact Added.of_id_lt h ha
  | incoming ha _ => exact Added.of_id_lt h ha
  | term he _ => exact he.irrefl

/-- Creating an instruction uses its operands in the current block, and a phi
its incoming values where they come from. -/
theorem uses_create (h : b.OK) (hu : Uses b (b.create i).2 v k) :
    v ∈ i.operands ∧ k = b.insertBlock ∨ (v, k) ∈ i.incoming := by
  cases hu with
  | operand ha hv =>
      obtain ⟨_, hk, rfl⟩ := (added_create h).1 ha
      exact Or.inl ⟨hv, hk⟩
  | incoming ha hv =>
      obtain ⟨_, _, rfl⟩ := (added_create h).1 ha
      exact Or.inr hv
  | term he _ =>
      have hb : ((b.create i).2.block k).term = (b.block k).term := by
        cases hs : i.simplify? with
        | some v => rw [create_of_some hs]
        | none =>
            rw [create_of_none hs, insert_block]
            split
            · next hk => rw [hk, current]
            · rfl
      rw [Ended, hb] at he
      exact (Ended.irrefl (b := b) he).elim

/-! ## Blocks made ahead -/

/-- The block is made and still empty, and the builder is not in it. -/
structure Waiting (b : Builder) (k : ℕ) : Prop where
  lt : k < b.func.nblocks
  ne : k ≠ b.insertBlock
  empty : b.block k = ⟨[], none⟩

/-- The state after the current block is ended and `next` is gone on with. -/
def endBlock (b : Builder) (t : Term) (next : ℕ) : Builder :=
  (b.terminate t).setInsertPoint next

@[simp] theorem endBlock_insertBlock (n : ℕ) : (b.endBlock t n).insertBlock = n := rfl

@[simp] theorem endBlock_nextId (n : ℕ) : (b.endBlock t n).nextId = b.nextId := rfl

theorem Waiting.createBlock (h : b.OK) : b.createBlock.2.Waiting b.func.nblocks where
  lt := Nat.lt_succ_self _
  ne := Nat.ne_of_gt h.lt
  empty := by rw [createBlock_block, if_pos rfl]

theorem Waiting.createBlock_of (h : b.Waiting k) : b.createBlock.2.Waiting k where
  lt := Nat.lt_succ_of_lt h.lt
  ne := h.ne
  empty := by
    rw [createBlock_block, if_neg (Nat.ne_of_lt h.lt)]
    exact h.empty

theorem Waiting.emits (h : b.Waiting k) (he : b.Emits b') : b'.Waiting k where
  lt := h.lt.trans_le he.grows.nblocks
  ne := he.grows.insertBlock_eq_or h.lt h.ne
  empty := by rw [he.grows.frame k h.lt h.ne, h.empty]

theorem Waiting.endBlock (h : b.Waiting k) {n : ℕ} (hne : k ≠ n) :
    (b.endBlock t n).Waiting k where
  lt := h.lt
  ne := hne
  empty := by
    rw [Builder.endBlock, setInsertPoint_block, terminate_block, if_neg h.ne]
    exact h.empty

theorem OK.endBlock (h : b.OK) {n : ℕ} (hn : b.Waiting n) : (b.endBlock t n).OK :=
  h.terminate t hn.lt hn.ne (by rw [hn.empty])

/-- Ending a block on the way, towards blocks made on the way. -/
theorem Emits.endBlock (h : b.Emits b') {n : ℕ} (hn : b'.Waiting n)
    (hge : b.func.nblocks ≤ n) (ht : ∀ s ∈ t.succs, b.func.nblocks ≤ s) :
    b.Emits (b'.endBlock t n) :=
  ⟨h.ok.endBlock hn, h.ext.trans (.terminate h.ok t), (h.grows.terminate ht).setInsertPoint hge⟩

theorem endBlock_insts (t : Term) (n j : ℕ) :
    ((b.endBlock t n).block j).insts = (b.block j).insts := by
  rw [endBlock, setInsertPoint_block, terminate_block]
  split
  · next h => rw [h, current]
  · rfl

/-- Making and ending blocks adds no instructions. -/
theorem added_endBlock {b₀ : Builder} (n : ℕ) :
    Added b₀ (b.endBlock t n) k i ↔ Added b₀ b k i := by
  simp only [Added, endBlock_insts]

theorem added_createBlock (h : b.OK) {b₀ : Builder} :
    Added b₀ b.createBlock.2 k i ↔ Added b₀ b k i := by
  have hk : (b.createBlock.2.block k).insts = (b.block k).insts := by
    rw [createBlock_block]
    split
    · next hk => rw [h.fresh k (Nat.le_of_eq hk.symm)]
    · rfl
  simp only [Added, hk]

/-- Ending a block on the way uses what the terminator reads. -/
theorem Uses.of_endBlock {b₀ : Builder} {n : ℕ} (hu : Uses b₀ (b.endBlock t n) v k) :
    Uses b₀ b v k ∨ v ∈ t.operands ∧ k = b.insertBlock := by
  cases hu with
  | operand ha hv => exact .inl (.operand ((added_endBlock n).1 ha) hv)
  | incoming ha hv => exact .inl (.incoming ((added_endBlock n).1 ha) hv)
  | term he hv =>
      obtain ⟨h₀, h⟩ := he
      change ((b.terminate t).block k).term = _ at h
      rw [terminate_block] at h
      split at h
      · next hk =>
          cases h
          exact .inr ⟨hv, hk⟩
      · exact .inl (.term ⟨h₀, h⟩ hv)

theorem Uses.of_createBlock {b₀ : Builder} (h : b.OK) (hu : Uses b₀ b.createBlock.2 v k) :
    Uses b₀ b v k := by
  cases hu with
  | operand ha hv => exact .operand ((added_createBlock h).1 ha) hv
  | incoming ha hv => exact .incoming ((added_createBlock h).1 ha) hv
  | term he hv =>
      obtain ⟨h₀, ht⟩ := he
      rw [createBlock_block] at ht
      split at ht
      · cases ht
      · exact .term ⟨h₀, ht⟩ hv

end Builder

end LLVM
