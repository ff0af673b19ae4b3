import VexLLVM.LLVM.Builder
import VexLLVM.LLVM.Exec

/-!
# Frames at the insertion point

A frame is at a builder's insertion point when it has run exactly what the
builder has placed in its block. From there the finished function, which only
continues what the builder has built, runs the next instruction the builder
creates, or the terminator it places.
-/

namespace LLVM

namespace Inst

/-- The value of an instruction that changes nothing: loads read `m`. -/
def value (ev : Value → Option RVal) (m : Machine) : Inst → Option RVal
  | load p al => (ev p).bind fun a => (m.load a (load p al).ty.bytes).map .bits
  | i => i.createEval ev

variable {ev ev' : Value → Option RVal}

theorem eval_mono (h : ∀ v x, ev v = some x → ev' v = some x) (i : Inst) {x : RVal}
    (hx : i.eval ev = some x) : i.eval ev' = some x := by
  cases i with
  | bin o a b =>
      simp only [eval] at hx ⊢
      split at hx
      · next ha hb => simpa [h _ _ ha, h _ _ hb] using hx
      · cases hx
  | icmp p a b =>
      simp only [eval] at hx ⊢
      split at hx
      · next ha hb => simpa [h _ _ ha, h _ _ hb] using hx
      · cases hx
  | cast k v t =>
      rw [eval, Option.bind_eq_some_iff] at hx ⊢
      obtain ⟨r, hr, hx⟩ := hx
      exact ⟨r, h _ _ hr, hx⟩
  | select c a b =>
      simp only [eval] at hx ⊢
      split at hx
      · next hc =>
          rw [h _ _ hc]
          split at hx
          · next h0 => simpa [h0] using h _ _ hx
          · next h0 => simpa [h0] using h _ _ hx
      · cases hx
  | extractelement v i =>
      simp only [eval] at hx ⊢
      split at hx
      · next ha hb => simpa [h _ _ ha, h _ _ hb] using hx
      · cases hx
  | insertelement v e i =>
      simp only [eval] at hx ⊢
      split at hx
      · next ha hb hc => simpa [h _ _ ha, h _ _ hb, h _ _ hc] using hx
      · cases hx
  | shufflevector a b mask =>
      simp only [eval] at hx ⊢
      split at hx
      · next ha hb => simpa [h _ _ ha, h _ _ hb] using hx
      · cases hx
  | insertvalue agg v i =>
      simp only [eval] at hx ⊢
      split at hx
      · next ha hb => simpa [h _ _ ha, h _ _ hb] using hx
      · cases hx
  | gep base idx =>
      simp only [eval] at hx ⊢
      split at hx
      · next ha hb => simpa [h _ _ ha, h _ _ hb] using hx
      · cases hx
  | fcmp p a b => cases hx
  | load p al => cases hx
  | store v p al => cases hx
  | call f sig args => cases hx
  | phi t inc => cases hx
  | fence => cases hx

theorem createEval_mono (h : ∀ v x, ev v = some x → ev' v = some x) (i : Inst) {x : RVal}
    (hx : i.createEval ev = some x) : i.createEval ev' = some x := by
  unfold createEval at hx ⊢
  split at hx
  · exact h _ _ hx
  · exact eval_mono h i hx

theorem value_mono (h : ∀ v x, ev v = some x → ev' v = some x) {m : Machine} (i : Inst)
    {x : RVal} (hx : i.value ev m = some x) : i.value ev' m = some x := by
  unfold value at hx ⊢
  split at hx
  · next p al =>
      rw [Option.bind_eq_some_iff] at hx ⊢
      obtain ⟨a, ha, hx⟩ := hx
      exact ⟨a, h _ _ ha, hx⟩
  · exact createEval_mono h _ hx

theorem value_eq_createEval {m : Machine} {i : Inst} {v : Value} (h : i.simplify? = some v) :
    i.value ev m = i.createEval ev := by
  cases i with
  | load p al => simp [simplify?, sameTypeCast?, constFold?, eval] at h
  | _ => rfl

theorem exec_of_value {ext : Extern} {fr : Frame} {i : Inst} {x : RVal}
    (hs : i.simplify? = none) (hx : i.value fr.eval fr.m = some x) :
    i.exec ext fr = some (x, fr.m) := by
  have hne : i.sameTypeCast? = none := by
    unfold simplify? at hs
    split at hs
    · cases hs
    · assumption
  cases i with
  | load p al =>
      simp only [value, exec, Option.bind_eq_some_iff, Option.map_eq_some_iff] at hx ⊢
      obtain ⟨a, ha, n, hn, rfl⟩ := hx
      exact ⟨a, ha, n, hn, rfl⟩
  | store v p al => simp [value, createEval, sameTypeCast?, eval] at hx
  | call f sig args => simp [value, createEval, sameTypeCast?, eval] at hx
  | phi t inc => simp [value, createEval, sameTypeCast?, eval] at hx
  | fence => simp [value, createEval, sameTypeCast?, eval] at hx
  | cast k v t =>
      simp only [value, createEval, hne] at hx
      simp [exec, hx]
  | _ =>
      simp only [value, createEval, sameTypeCast?] at hx
      simp [exec, hx]

end Inst

/-- The value is not the result of an instruction numbered `n` or later. -/
def Value.Below (n : ℕ) : Value → Prop
  | .inst id _ => id < n
  | _ => True

theorem Value.Below.mono {v : Value} {n k : ℕ} (h : v.Below n) (hk : n ≤ k) : v.Below k := by
  cases v <;> simp_all [Below]
  omega

theorem Value.Below.of_isConst {v : Value} (n : ℕ) (h : v.isConst = true) : v.Below n := by
  cases v <;> simp_all [Below, isConst]

namespace Frame

/-- Every block run so far is done up to the insertion point of `b`. -/
structure At (fr : Frame) (b : Builder) : Prop where
  blk : fr.blk = b.insertBlock
  pos : fr.pos = b.current.insts.length

/-- In `fr` the value `v`, placed before the instruction `n`, is `x`. -/
def Has (fr : Frame) (n : ℕ) (v : Value) (x : RVal) : Prop := v.Below n ∧ fr.eval v = some x

/-- `ev` gives every value placed before the instruction `n` what it has in
`fr`. -/
def KnownTo (fr : Frame) (n : ℕ) (ev : Value → Option RVal) : Prop :=
  ∀ v x, fr.Has n v x → ev v = some x

/-- `fr'` agrees with `fr` on the results numbered below `n`. -/
def Keeps (fr fr' : Frame) (n : ℕ) : Prop := ∀ id, id < n → fr'.regs id = fr.regs id

theorem Keeps.refl (fr : Frame) (n : ℕ) : fr.Keeps fr n := fun _ _ => rfl

theorem Keeps.trans {fr fr' fr'' : Frame} {n n' : ℕ} (h : fr.Keeps fr' n)
    (h' : fr'.Keeps fr'' n') (hn : n ≤ n') : fr.Keeps fr'' n := fun id hid => by
  rw [h' id (Nat.lt_of_lt_of_le hid hn), h id hid]

theorem Has.keeps {fr fr' : Frame} {n n' k : ℕ} {v : Value} {x : RVal} (h : fr.Has n v x)
    (hk : fr.Keeps fr' k) (hn : n ≤ k) (hn' : n ≤ n') : fr'.Has n' v x := by
  refine ⟨h.1.mono hn', ?_⟩
  rw [← h.2]
  cases v with
  | inst id t => exact hk id (Nat.lt_of_lt_of_le h.1 hn)
  | arg i t => cases i <;> rfl
  | _ => rfl

theorem Has.of_isConst {fr : Frame} {n : ℕ} {v : Value} {x : RVal} (hc : v.isConst = true)
    (hx : v.constEval = some x) : fr.Has n v x := by
  refine ⟨.of_isConst n hc, ?_⟩
  cases v with
  | const t k => exact hx
  | undef t => exact hx
  | _ => cases hc

theorem KnownTo.keeps {fr fr' : Frame} {n n' : ℕ} {ev : Value → Option RVal}
    (h : fr'.KnownTo n' ev) (hk : fr.Keeps fr' n) (hn : n ≤ n') : fr.KnownTo n ev :=
  fun v x hv => h v x (hv.keeps hk (Nat.le_refl n) hn)

open Classical in
/-- The least valuation that is known: undefined on later values. -/
noncomputable def known (fr : Frame) (n : ℕ) : Value → Option RVal :=
  fun v => if v.Below n then fr.eval v else none

theorem known_eq_some {fr : Frame} {n : ℕ} {v : Value} {x : RVal} :
    fr.known n v = some x ↔ fr.Has n v x := by
  unfold known Has
  split
  · next h => simp [h]
  · next h => simp [h]

theorem KnownTo.known (fr : Frame) (n : ℕ) : fr.KnownTo n (fr.known n) :=
  fun _ _ h => known_eq_some.2 h

theorem known_of_isConst {fr : Frame} {n : ℕ} (c : Value) (hc : c.isConst = true) :
    fr.known n c = c.constEval := by
  cases c with
  | const t k => exact known_eq_some.2 (.of_isConst rfl rfl)
  | undef t => exact known_eq_some.2 (.of_isConst rfl rfl)
  | _ => cases hc

theorem KnownTo.const {fr : Frame} {n : ℕ} {ev : Value → Option RVal} (h : fr.KnownTo n ev)
    (t : Ty) (k : ℕ) : ev (.const t k) = some (.bits k) :=
  h _ _ (.of_isConst rfl rfl)

end Frame

namespace Builder

variable {b : Builder} {G : Func} {ext : Extern} {fr : Frame}

/-- The instruction just inserted stands at the insertion point. -/
theorem insert_getElem? (i : Inst) (hG : Extends (b.insert i).2.func G) (hat : fr.At b) :
    (G.blocks fr.blk).insts[fr.pos]? = some (b.nextId, i) := by
  obtain ⟨l, hl⟩ := (hG b.insertBlock).1
  have hb : ((b.insert i).2.func.blocks b.insertBlock).insts =
      b.current.insts ++ [(b.nextId, i)] := by
    change ((b.insert i).2.block b.insertBlock).insts = _
    rw [insert_block, if_pos rfl]
  rw [hat.blk, hat.pos, ← hl, hb, List.append_assoc]
  simp

theorem At.insert {i : Inst} {x : RVal} {m : Machine} (hat : fr.At b) :
    (fr.advance b.nextId x m).At (b.insert i).2 where
  blk := hat.blk
  pos := by
    have hb : (b.insert i).2.current.insts = b.current.insts ++ [(b.nextId, i)] := by
      rw [current, insert_block, insert_insertBlock, if_pos rfl]
    change fr.pos + 1 = _
    rw [hat.pos, hb, List.length_append, List.length_singleton]

theorem advance_keeps (fr : Frame) (n : ℕ) (x : RVal) (m : Machine) :
    fr.Keeps (fr.advance n x m) n := fun id hid => by
  change Function.update fr.regs n (some x) id = fr.regs id
  rw [Function.update_of_ne (Nat.ne_of_lt hid)]

/-- The function runs the instruction just inserted. -/
theorem insert_reach {i : Inst} {x : RVal} {m : Machine}
    (hG : Extends (b.insert i).2.func G) (hat : fr.At b) (hx : i.exec ext fr = some (x, m)) :
    ∃ fr', G.Reach ext fr fr' ∧ fr'.At (b.insert i).2 ∧ fr'.m = m ∧
      fr.Keeps fr' b.nextId ∧ fr'.Has (b.nextId + 1) (b.insert i).1 x := by
  refine ⟨fr.advance b.nextId x m, .single ?_, At.insert hat, rfl,
    advance_keeps fr b.nextId x m, Nat.lt_succ_self _, ?_⟩
  · simp [Func.step, insert_getElem? i hG hat, hx]
  · change Function.update fr.regs b.nextId (some x) b.nextId = some x
    rw [Function.update_self]

/-- The function computes the value the builder handed back. -/
theorem create_reach {i : Inst} {x : RVal} (ext : Extern) (hG : Extends (b.create i).2.func G)
    (hat : fr.At b) (hx : i.value (fr.known b.nextId) fr.m = some x) :
    ∃ fr', G.Reach ext fr fr' ∧ fr'.At (b.create i).2 ∧ fr'.m = fr.m ∧
      fr.Keeps fr' b.nextId ∧ fr'.Has (b.create i).2.nextId (b.create i).1 x := by
  cases hs : i.simplify? with
  | some v =>
      rw [create_of_some hs] at hG ⊢
      refine ⟨fr, .refl, hat, rfl, .refl _ _, Frame.known_eq_some.1 ?_⟩
      rw [Inst.value_eq_createEval hs] at hx
      rw [Inst.simplify?_eval hs Frame.known_of_isConst]
      exact hx
  | none =>
      rw [create_of_none hs] at hG ⊢
      have hx' : i.value fr.eval fr.m = some x :=
        Inst.value_mono (fun v y hv => (Frame.known_eq_some.1 hv).2) i hx
      exact insert_reach hG hat (Inst.exec_of_value hs hx')

/-- At the end of a block the function takes its terminator. -/
theorem terminate_getElem? {t : Term} (hG : Extends (b.terminate t).func G) (hat : fr.At b) :
    (G.blocks fr.blk).insts[fr.pos]? = none ∧ (G.blocks fr.blk).term = some t := by
  have hb : (b.terminate t).func.blocks b.insertBlock = { b.current with term := some t } := by
    change (b.terminate t).block b.insertBlock = _
    rw [terminate_block, if_pos rfl]
  have hblk : G.blocks b.insertBlock = { b.current with term := some t } := by
    rw [(hG b.insertBlock).2 t (by rw [hb]), hb]
  rw [hat.blk, hblk, hat.pos]
  simp

theorem At.goto {k : ℕ} (hk : (b.block k).insts = []) :
    (fr.goto k).At (b.setInsertPoint k) where
  blk := rfl
  pos := by simp [Frame.goto, current, hk]

end Builder

end LLVM
