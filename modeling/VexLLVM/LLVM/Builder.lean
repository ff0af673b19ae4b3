import VexLLVM.LLVM.Typing
import VexLLVM.LLVM.Eval
import Mathlib.Logic.Function.Basic
import Mathlib.Order.Nat

/-!
# The block builder

A builder holds the function built so far, the block it inserts into and the
number of the next instruction. Creating an instruction goes through the
constant folder first: a cast to the operand's own type hands the operand back,
and an operation on constants gives a constant.

`Grows b₀ b` says what building from `b₀` may have done: it added to the
insertion block of `b₀` and to blocks made since, and every branch it added goes
to a block made since.
-/

namespace LLVM

namespace Inst

/-- The constant an operation on constants folds to. -/
def constFold? (i : Inst) : Option Value :=
  if i.WF && i.operands.all Value.isConst then
    match i.eval Value.constEval with
    | some (.bits n) => some (.const i.ty n)
    | _ => none
  else none

/-- What the builder hands back in place of an instruction, if anything. -/
def simplify? (i : Inst) : Option Value :=
  match i.sameTypeCast? with
  | some v => some v
  | none => i.constFold?

/-- The value the builder's result for `i` has: the operand's own for a cast to
the operand's type, and else what the instruction computes. -/
def createEval (ev : Value → Option RVal) (i : Inst) : Option RVal :=
  match i.sameTypeCast? with
  | some v => ev v
  | none => i.eval ev

theorem eval_congr {ev ev' : Value → Option RVal} (i : Inst)
    (h : ∀ v ∈ i.operands, ev v = ev' v) : i.eval ev = i.eval ev' := by
  cases i <;> simp_all [eval, operands]

theorem constFold?_eq_some {i : Inst} {v : Value} (h : i.constFold? = some v) :
    i.WF = true ∧ (∀ o ∈ i.operands, o.isConst = true) ∧
      ∃ n, i.eval Value.constEval = some (.bits n) ∧ v = .const i.ty n := by
  unfold constFold? at h
  split at h
  · next hc =>
      rw [Bool.and_eq_true, List.all_eq_true] at hc
      split at h
      · next n he => exact ⟨hc.1, hc.2, n, he, (Option.some.inj h).symm⟩
      · cases h
  · cases h

/-- The folder's answer is an operand or a constant, of the instruction's
type. -/
theorem simplify?_spec {i : Inst} {v : Value} (h : i.simplify? = some v) :
    (v ∈ i.operands ∨ v.isConst = true) ∧ v.ty = i.ty ∧ i.createOk = true := by
  unfold simplify? at h
  split at h
  · next w hs =>
      cases h
      have hop := sameTypeCast?_eq_some hs
      exact ⟨Or.inl (by simp [hop.1]), hop.2, by simp [createOk, hs]⟩
  · obtain ⟨hwf, _, n, _, rfl⟩ := constFold?_eq_some h
    exact ⟨Or.inr rfl, rfl, by simp [createOk, hwf]⟩

/-- The folder keeps the value, under any valuation that agrees with the
constants. -/
theorem simplify?_eval {i : Inst} {v : Value} (h : i.simplify? = some v)
    {ev : Value → Option RVal} (hev : ∀ c : Value, c.isConst = true → ev c = c.constEval) :
    ev v = i.createEval ev := by
  unfold simplify? at h
  unfold createEval
  split at h
  · next w hs =>
      cases h
      rfl
  · next hs =>
      obtain ⟨_, hc, n, he, rfl⟩ := constFold?_eq_some h
      have heq : i.eval ev = i.eval Value.constEval :=
        eval_congr i fun o ho => hev o (hc o ho)
      rw [heq, he]
      exact hev _ rfl

theorem wf_of_not_simplify {i : Inst} (h : i.simplify? = none) : i.createOk = i.WF := by
  unfold simplify? at h
  split at h
  · cases h
  · next hs => simp [createOk, hs]

end Inst

structure Builder where
  func : Func
  insertBlock : ℕ
  nextId : ℕ

namespace Builder

def block (b : Builder) (k : ℕ) : Block := b.func.blocks k

def current (b : Builder) : Block := b.block b.insertBlock

def empty : Builder := ⟨⟨1, fun _ => ⟨[], none⟩⟩, 0, 0⟩

def setCurrent (b : Builder) (B : Block) : Builder :=
  { b with func := { b.func with blocks := Function.update b.func.blocks b.insertBlock B } }

def insert (b : Builder) (i : Inst) : Value × Builder :=
  (.inst b.nextId i.ty,
    { b.setCurrent { b.current with insts := b.current.insts ++ [(b.nextId, i)] } with
      nextId := b.nextId + 1 })

def create (b : Builder) (i : Inst) : Value × Builder :=
  match i.simplify? with
  | some v => (v, b)
  | none => b.insert i

def createBlock (b : Builder) : ℕ × Builder :=
  (b.func.nblocks,
    { b with func := ⟨b.func.nblocks + 1,
                      Function.update b.func.blocks b.func.nblocks ⟨[], none⟩⟩ })

def terminate (b : Builder) (t : Term) : Builder :=
  b.setCurrent { b.current with term := some t }

def setInsertPoint (b : Builder) (k : ℕ) : Builder := { b with insertBlock := k }

/-- The builder's invariant: it inserts into an open block of the function,
blocks not made yet are empty, instruction numbers are below the next one, and
a number stands in one block only. -/
structure OK (b : Builder) : Prop where
  lt : b.insertBlock < b.func.nblocks
  isOpen : b.current.term = none
  fresh : ∀ k, b.func.nblocks ≤ k → b.block k = ⟨[], none⟩
  ids : ∀ k, ∀ p ∈ (b.block k).insts, p.1 < b.nextId
  once : ∀ k k', ∀ p ∈ (b.block k).insts, ∀ p' ∈ (b.block k').insts, p.1 = p'.1 → k = k'

/-- `G` continues `F`: blocks only got longer, and a terminated one is as it
was. -/
def Extends (F G : Func) : Prop :=
  ∀ k, (F.blocks k).insts <+: (G.blocks k).insts ∧
    ∀ t, (F.blocks k).term = some t → G.blocks k = F.blocks k

structure Grows (b₀ b : Builder) : Prop where
  nblocks : b₀.func.nblocks ≤ b.func.nblocks
  nextId : b₀.nextId ≤ b.nextId
  frame : ∀ k, k < b₀.func.nblocks → k ≠ b₀.insertBlock → b.block k = b₀.block k
  stay : b.insertBlock = b₀.insertBlock ∨ b₀.func.nblocks ≤ b.insertBlock
  targets : ∀ k t, b₀.func.nblocks ≤ k ∨ k = b₀.insertBlock → (b.block k).term = some t →
    ∀ s ∈ t.succs, b₀.func.nblocks ≤ s
  newIds : ∀ k, ∀ p ∈ (b.block k).insts, p ∈ (b₀.block k).insts ∨ b₀.nextId ≤ p.1

/-! ## The components of one building step -/

section Fields

variable (b : Builder) (i : Inst) (t : Term) (k : ℕ) (B : Block)

@[simp] theorem setCurrent_nblocks : (b.setCurrent B).func.nblocks = b.func.nblocks := rfl

@[simp] theorem setCurrent_insertBlock : (b.setCurrent B).insertBlock = b.insertBlock := rfl

@[simp] theorem setCurrent_nextId : (b.setCurrent B).nextId = b.nextId := rfl

theorem setCurrent_block :
    (b.setCurrent B).block k = if k = b.insertBlock then B else b.block k := by
  simp [block, setCurrent, Function.update_apply]

@[simp] theorem insert_fst : (b.insert i).1 = .inst b.nextId i.ty := rfl

@[simp] theorem insert_nblocks : (b.insert i).2.func.nblocks = b.func.nblocks := rfl

@[simp] theorem insert_insertBlock : (b.insert i).2.insertBlock = b.insertBlock := rfl

@[simp] theorem insert_nextId : (b.insert i).2.nextId = b.nextId + 1 := rfl

theorem insert_block :
    (b.insert i).2.block k =
      if k = b.insertBlock then
        { b.current with insts := b.current.insts ++ [(b.nextId, i)] }
      else b.block k :=
  b.setCurrent_block k _

theorem mem_insert_block {b : Builder} {i : Inst} {k : ℕ} {p : ℕ × Inst} :
    p ∈ ((b.insert i).2.block k).insts ↔
      p ∈ (b.block k).insts ∨ k = b.insertBlock ∧ p = (b.nextId, i) := by
  rw [insert_block]
  split
  · next h =>
      subst h
      simp [current]
  · next h => simp [h]

@[simp] theorem createBlock_fst : b.createBlock.1 = b.func.nblocks := rfl

@[simp] theorem createBlock_nblocks : b.createBlock.2.func.nblocks = b.func.nblocks + 1 := rfl

@[simp] theorem createBlock_insertBlock : b.createBlock.2.insertBlock = b.insertBlock := rfl

@[simp] theorem createBlock_nextId : b.createBlock.2.nextId = b.nextId := rfl

theorem createBlock_block :
    b.createBlock.2.block k = if k = b.func.nblocks then ⟨[], none⟩ else b.block k := by
  simp [block, createBlock, Function.update_apply]

@[simp] theorem terminate_nblocks : (b.terminate t).func.nblocks = b.func.nblocks := rfl

@[simp] theorem terminate_insertBlock : (b.terminate t).insertBlock = b.insertBlock := rfl

@[simp] theorem terminate_nextId : (b.terminate t).nextId = b.nextId := rfl

theorem terminate_block :
    (b.terminate t).block k =
      if k = b.insertBlock then { b.current with term := some t } else b.block k :=
  b.setCurrent_block k _

@[simp] theorem setInsertPoint_func : (b.setInsertPoint k).func = b.func := rfl

@[simp] theorem setInsertPoint_insertBlock : (b.setInsertPoint k).insertBlock = k := rfl

@[simp] theorem setInsertPoint_nextId : (b.setInsertPoint k).nextId = b.nextId := rfl

@[simp] theorem setInsertPoint_block (j : ℕ) : (b.setInsertPoint k).block j = b.block j := rfl

end Fields

theorem create_of_some {b : Builder} {i : Inst} {v : Value} (h : i.simplify? = some v) :
    b.create i = (v, b) := by
  simp [create, h]

theorem create_of_none {b : Builder} {i : Inst} (h : i.simplify? = none) :
    b.create i = b.insert i := by
  simp [create, h]

theorem create_ty (b : Builder) (i : Inst) : (b.create i).1.ty = i.ty := by
  cases h : i.simplify? with
  | some v =>
      rw [create_of_some h]
      exact (Inst.simplify?_spec h).2.1
  | none => rw [create_of_none h, insert_fst, Value.ty_inst]

/-! ## The invariant -/

theorem OK.empty : Builder.empty.OK where
  lt := Nat.one_pos
  isOpen := rfl
  fresh _ _ := rfl
  ids _ p hp := by simp [Builder.empty, block] at hp
  once _ _ p hp := by simp [Builder.empty, block] at hp

section Preserve

variable {b : Builder}

theorem OK.insert (h : b.OK) (i : Inst) : (b.insert i).2.OK where
  lt := h.lt
  isOpen := by
    have ho := h.isOpen
    simp only [current, insert_block, insert_insertBlock] at ho ⊢
    simpa using ho
  fresh k hk := by
    have hne : k ≠ b.insertBlock := by have := h.lt; rw [insert_nblocks] at hk; omega
    rw [insert_block, if_neg hne]
    exact h.fresh k hk
  ids k p hp := by
    rw [insert_nextId]
    rw [insert_block] at hp
    split at hp
    · rw [List.mem_append, List.mem_singleton] at hp
      rcases hp with hp | rfl
      · exact Nat.lt_succ_of_lt (h.ids _ p hp)
      · exact Nat.lt_succ_self _
    · exact Nat.lt_succ_of_lt (h.ids k p hp)
  once k k' p hp p' hp' heq := by
    rcases mem_insert_block.1 hp with hp | ⟨rfl, rfl⟩ <;>
      rcases mem_insert_block.1 hp' with hp' | ⟨rfl, rfl⟩
    · exact h.once k k' p hp p' hp' heq
    · exact absurd heq (Nat.ne_of_lt (h.ids k p hp))
    · exact absurd heq.symm (Nat.ne_of_lt (h.ids k' p' hp'))
    · rfl

theorem OK.createBlock (h : b.OK) : b.createBlock.2.OK where
  lt := Nat.lt_succ_of_lt h.lt
  isOpen := by
    have hne : b.insertBlock ≠ b.func.nblocks := Nat.ne_of_lt h.lt
    rw [current, createBlock_block, createBlock_insertBlock, if_neg hne]
    exact h.isOpen
  fresh k hk := by
    rw [createBlock_block]
    split
    · rfl
    · exact h.fresh k (by rw [createBlock_nblocks] at hk; omega)
  ids k p hp := by
    rw [createBlock_block] at hp
    split at hp
    · simp at hp
    · exact h.ids k p hp
  once k k' p hp p' hp' := by
    have hsub : ∀ j, ∀ q ∈ (b.createBlock.2.block j).insts, q ∈ (b.block j).insts := by
      intro j q hq
      rw [createBlock_block] at hq
      split at hq
      · simp at hq
      · exact hq
    exact h.once k k' p (hsub k p hp) p' (hsub k' p' hp')

/-- Ending the current block and moving on to another open block keeps the
invariant. -/
theorem OK.terminate (h : b.OK) (t : Term) {k : ℕ} (hk : k < b.func.nblocks)
    (hne : k ≠ b.insertBlock) (ho : (b.block k).term = none) :
    ((b.terminate t).setInsertPoint k).OK where
  lt := hk
  isOpen := by
    rw [current, setInsertPoint_block, setInsertPoint_insertBlock, terminate_block, if_neg hne]
    exact ho
  fresh j hj := by
    have hne' : j ≠ b.insertBlock := by
      have := h.lt
      simp only [setInsertPoint_func, terminate_nblocks] at hj
      omega
    rw [setInsertPoint_block, terminate_block, if_neg hne']
    exact h.fresh j hj
  ids j p hp := by
    rw [setInsertPoint_block, terminate_block] at hp
    split at hp
    · exact h.ids _ p hp
    · exact h.ids j p hp
  once j j' p hp p' hp' := by
    have hsub : ∀ n, ∀ q ∈ (((b.terminate t).setInsertPoint k).block n).insts,
        q ∈ (b.block n).insts := by
      intro n q hq
      rw [setInsertPoint_block, terminate_block] at hq
      split at hq
      · next heq =>
          subst heq
          exact hq
      · exact hq
    exact h.once j j' p (hsub j p hp) p' (hsub j' p' hp')

end Preserve

/-! ## Extension -/

theorem Extends.refl (F : Func) : Extends F F :=
  fun _ => ⟨List.prefix_refl _, fun _ _ => rfl⟩

theorem Extends.trans {F G H : Func} (h : Extends F G) (h' : Extends G H) : Extends F H := by
  intro k
  refine ⟨(h k).1.trans (h' k).1, ?_⟩
  intro t ht
  have hG := (h k).2 t ht
  rw [← hG] at ht ⊢
  exact (h' k).2 t ht

theorem Extends.insert {b : Builder} (h : b.OK) (i : Inst) :
    Extends b.func (b.insert i).2.func := by
  intro k
  change (b.block k).insts <+: ((b.insert i).2.block k).insts ∧
    ∀ t, (b.block k).term = some t → (b.insert i).2.block k = b.block k
  rw [insert_block]
  split
  · next hk =>
      subst hk
      refine ⟨List.prefix_append _ _, ?_⟩
      intro t ht
      have ho := h.isOpen
      rw [current, ht] at ho
      cases ho
  · exact ⟨List.prefix_refl _, fun _ _ => rfl⟩

theorem Extends.createBlock {b : Builder} (h : b.OK) :
    Extends b.func b.createBlock.2.func := by
  intro k
  change (b.block k).insts <+: (b.createBlock.2.block k).insts ∧
    ∀ t, (b.block k).term = some t → b.createBlock.2.block k = b.block k
  rw [createBlock_block]
  split
  · next hk =>
      have hf := h.fresh k (Nat.le_of_eq hk.symm)
      simp [hf]
  · exact ⟨List.prefix_refl _, fun _ _ => rfl⟩

theorem Extends.terminate {b : Builder} (h : b.OK) (t : Term) :
    Extends b.func (b.terminate t).func := by
  intro k
  change (b.block k).insts <+: ((b.terminate t).block k).insts ∧
    ∀ t', (b.block k).term = some t' → (b.terminate t).block k = b.block k
  rw [terminate_block]
  split
  · next hk =>
      subst hk
      refine ⟨List.prefix_refl _, ?_⟩
      intro t' ht
      have ho := h.isOpen
      rw [current, ht] at ho
      cases ho
  · exact ⟨List.prefix_refl _, fun _ _ => rfl⟩

/-! ## Growth -/

section Growth

variable {b₀ b b' : Builder}

theorem Grows.refl (h : b₀.OK) : Grows b₀ b₀ where
  nblocks := Nat.le_refl _
  nextId := Nat.le_refl _
  frame _ _ _ := rfl
  stay := Or.inl rfl
  targets k t hk ht := by
    rcases hk with hk | rfl
    · rw [h.fresh k hk] at ht
      cases ht
    · rw [show (b₀.block b₀.insertBlock).term = none from h.isOpen] at ht
      cases ht
  newIds _ _ hp := Or.inl hp

theorem Grows.insertBlock_eq_or (h : Grows b₀ b) {k : ℕ} (hk : k < b₀.func.nblocks)
    (hne : k ≠ b₀.insertBlock) : k ≠ b.insertBlock := by
  rcases h.stay with hs | hs
  · rwa [hs]
  · omega

theorem Grows.insert (h : Grows b₀ b) (i : Inst) : Grows b₀ (b.insert i).2 where
  nblocks := h.nblocks
  nextId := Nat.le_succ_of_le h.nextId
  frame k hk hne := by
    rw [insert_block, if_neg (h.insertBlock_eq_or hk hne)]
    exact h.frame k hk hne
  stay := h.stay
  targets k t hk ht := by
    rw [insert_block] at ht
    split at ht
    · next heq =>
        subst heq
        exact h.targets _ t hk ht
    · exact h.targets k t hk ht
  newIds k p hp := by
    rw [insert_block] at hp
    split at hp
    · next heq =>
        subst heq
        rw [List.mem_append, List.mem_singleton] at hp
        rcases hp with hp | rfl
        · exact h.newIds _ p hp
        · exact Or.inr h.nextId
    · exact h.newIds k p hp

theorem Grows.create (h : Grows b₀ b) (i : Inst) : Grows b₀ (b.create i).2 := by
  cases hs : i.simplify? with
  | some v => rwa [create_of_some hs]
  | none =>
      rw [create_of_none hs]
      exact h.insert i

theorem Grows.createBlock (h : Grows b₀ b) : Grows b₀ b.createBlock.2 where
  nblocks := Nat.le_succ_of_le h.nblocks
  nextId := h.nextId
  frame k hk hne := by
    have hne' : k ≠ b.func.nblocks := by have := h.nblocks; omega
    rw [createBlock_block, if_neg hne']
    exact h.frame k hk hne
  stay := h.stay
  targets k t hk ht := by
    rw [createBlock_block] at ht
    split at ht
    · cases ht
    · exact h.targets k t hk ht
  newIds k p hp := by
    rw [createBlock_block] at hp
    split at hp
    · simp at hp
    · exact h.newIds k p hp

theorem Grows.terminate (h : Grows b₀ b) {t : Term}
    (ht : ∀ s ∈ t.succs, b₀.func.nblocks ≤ s) : Grows b₀ (b.terminate t) where
  nblocks := h.nblocks
  nextId := h.nextId
  frame k hk hne := by
    rw [terminate_block, if_neg (h.insertBlock_eq_or hk hne)]
    exact h.frame k hk hne
  stay := h.stay
  targets k t' hk ht' := by
    rw [terminate_block] at ht'
    split at ht'
    · cases ht'
      exact ht
    · exact h.targets k t' hk ht'
  newIds k p hp := by
    rw [terminate_block] at hp
    split at hp
    · next heq =>
        subst heq
        exact h.newIds _ p hp
    · exact h.newIds k p hp

theorem Grows.setInsertPoint (h : Grows b₀ b) {k : ℕ} (hk : b₀.func.nblocks ≤ k) :
    Grows b₀ (b.setInsertPoint k) :=
  { h with stay := Or.inr hk }

theorem Grows.trans (h : Grows b₀ b) (h' : Grows b b') : Grows b₀ b' where
  nblocks := h.nblocks.trans h'.nblocks
  nextId := h.nextId.trans h'.nextId
  frame k hk hne := by
    rw [h'.frame k (hk.trans_le h.nblocks) (h.insertBlock_eq_or hk hne)]
    exact h.frame k hk hne
  stay := by
    have hn := h.nblocks
    rcases h'.stay with hs | hs
    · rw [hs]
      exact h.stay
    · exact Or.inr (hn.trans hs)
  targets k t hk ht s hs := by
    by_cases hcase : b.func.nblocks ≤ k ∨ k = b.insertBlock
    · exact h.nblocks.trans (h'.targets k t hcase ht s hs)
    · rw [not_or, Nat.not_le] at hcase
      rw [h'.frame k hcase.1 hcase.2] at ht
      exact h.targets k t hk ht s hs
  newIds k p hp := by
    rcases h'.newIds k p hp with hp | hp
    · exact h.newIds k p hp
    · exact Or.inr (h.nextId.trans hp)

end Growth

end Builder

end LLVM
