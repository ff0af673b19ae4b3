import VexLLVM.LLVM.Code
import VexLLVM.LLVM.Dominance

/-!
# What holds where the insertion point is reached

`AtPoint` looks at a builder from the side of the runs: whatever function continues the
block being filled, a run of it that comes to the insertion point finds the assertion true
there. A value made in the block is followed through what is inserted after it.
-/

namespace LLVM

namespace Func

variable {ext : Extern} {F : Func} {fr fr' : Frame}

/-- A step runs an instruction, or goes to the start of a block. -/
theorem step_cases (h : F.step ext fr = .next fr') :
    (∃ id i x m, (F.blocks fr.blk).insts[fr.pos]? = some (id, i) ∧
      i.exec ext fr = some (x, m) ∧ fr' = fr.advance id x m) ∨ fr'.pos = 0 := by
  unfold step at h
  split at h
  · next id i hi =>
      split at h
      · next x m hx =>
          cases h
          exact .inl ⟨id, i, x, m, hi, hx, rfl⟩
      · cases h
  · split at h
    · cases h
      exact .inr rfl
    · split at h
      · cases h
        exact .inr rfl
      · cases h
    · split at h
      · cases h
      · cases h
    · cases h

/-- Past the start of a block, the instruction before the position has just been run. -/
theorem reach_pos {m₀ : Machine} {n : ℕ} (h : F.Reach ext (start m₀) fr') (hn : fr'.pos = n + 1) :
    ∃ fr id i x m, F.Reach ext (start m₀) fr ∧ fr.pos = n ∧
      (F.blocks fr.blk).insts[n]? = some (id, i) ∧ i.exec ext fr = some (x, m) ∧
      fr' = fr.advance id x m := by
  cases h with
  | refl => cases hn
  | @tail fr _ hr hs =>
      rcases step_cases hs with ⟨id, i, x, m, hi, hx, rfl⟩ | h0
      · obtain rfl : fr.pos = n := Nat.succ.inj hn
        exact ⟨fr, id, i, x, m, hr, rfl, hi, hx, rfl⟩
      · exact absurd (h0.symm.trans hn) (Nat.succ_ne_zero n).symm

end Func

namespace Builder

variable {b b' : Builder} {i : Inst} {P Q : Frame → Prop} {v : Value} {x : RVal}

theorem insert_insts (b : Builder) (i : Inst) :
    (b.insert i).2.current.insts = b.current.insts ++ [(b.nextId, i)] := by
  rw [current, insert_block, insert_insertBlock, if_pos rfl]

/-- `P` holds whenever a run reaches the insertion point. -/
def AtPoint (b : Builder) (P : Frame → Prop) : Prop :=
  ∀ (ext : Extern) (G : Func) (m : Machine) (fr : Frame),
    b.current.insts <+: (G.blocks b.insertBlock).insts → G.Reach ext (Func.start m) fr →
      fr.At b → P fr

theorem AtPoint.of_forall (h : ∀ fr, P fr) : b.AtPoint P := fun _ _ _ fr _ _ _ => h fr

theorem AtPoint.mono (h : b.AtPoint P) (hPQ : ∀ fr, P fr → Q fr) : b.AtPoint Q :=
  fun ext G m fr hG hr hat => hPQ fr (h ext G m fr hG hr hat)

theorem AtPoint.and (h : b.AtPoint P) (h' : b.AtPoint Q) : b.AtPoint fun fr => P fr ∧ Q fr :=
  fun ext G m fr hG hr hat => ⟨h ext G m fr hG hr hat, h' ext G m fr hG hr hat⟩

/-- Only the block being filled matters. -/
theorem AtPoint.congr (h : b.AtPoint P) (hb : b'.insertBlock = b.insertBlock)
    (hi : b'.current.insts = b.current.insts) : b'.AtPoint P := by
  intro ext G m fr hG hr hat
  rw [hi, hb] at hG
  exact h ext G m fr hG hr ⟨hat.blk.trans hb, by rw [hat.pos, hi]⟩

/-- The instruction inserted has been run from a frame that was at the point before it. -/
theorem AtPoint.insert (h : b.AtPoint P)
    (hi : ∀ ext fr x m, P fr → i.exec ext fr = some (x, m) → Q (fr.advance b.nextId x m)) :
    (b.insert i).2.AtPoint Q := by
  intro ext G m fr hG hr hat
  have hpos : fr.pos = b.current.insts.length + 1 := by
    rw [hat.pos, insert_insts, List.length_append, List.length_singleton]
  obtain ⟨fr₀, id, j, x, m', hr₀, hp₀, hj, hx, rfl⟩ := Func.reach_pos hr hpos
  have hblk : fr₀.blk = b.insertBlock := hat.blk
  rw [insert_insts, insert_insertBlock] at hG
  have hget : (G.blocks fr₀.blk).insts[b.current.insts.length]? = some (b.nextId, i) := by
    obtain ⟨l, hl⟩ := hG
    rw [hblk, ← hl, List.append_assoc, List.getElem?_append_right (Nat.le_refl _), Nat.sub_self]
    rfl
  rw [hget] at hj
  cases hj
  exact hi ext fr₀ x m' (h ext G m fr₀ ((List.prefix_append _ _).trans hG) hr₀ ⟨hblk, hp₀⟩) hx

/-- `v` is an argument, or a result of the block being filled. -/
structure Made (b : Builder) (v : Value) : Prop where
  origin : (∃ k t, v = .arg k t) ∨ ∃ id t i, v = .inst id t ∧ (id, i) ∈ b.current.insts
  below : v.Below b.nextId

theorem made_arg (b : Builder) (k : ℕ) (t : Ty) : b.Made (.arg k t) := ⟨.inl ⟨k, t, rfl⟩, trivial⟩

theorem Made.not_isConst (h : b.Made v) : v.isConst = false := by
  rcases h.origin with ⟨k, t, rfl⟩ | ⟨id, t, i, rfl, -⟩ <;> rfl

theorem Made.congr (h : b.Made v) (hi : b'.current.insts = b.current.insts)
    (hn : b.nextId ≤ b'.nextId) : b'.Made v where
  origin := by
    rw [hi]
    exact h.origin
  below := h.below.mono hn

theorem Made.insert (h : b.Made v) (i : Inst) : (b.insert i).2.Made v where
  origin := by
    rw [insert_insts]
    refine h.origin.imp_right ?_
    rintro ⟨id, t, j, hv, hj⟩
    exact ⟨id, t, j, hv, List.mem_append_left _ hj⟩
  below := h.below.mono (Nat.le_succ _)

theorem insert_made (b : Builder) (i : Inst) : (b.insert i).2.Made (b.insert i).1 where
  origin := .inr ⟨b.nextId, i.ty, i, rfl, by
    rw [insert_insts]
    exact List.mem_append_right _ List.mem_cons_self⟩
  below := Nat.lt_succ_self _

/-- The value is defined in the block being filled, which dominates itself. -/
theorem Made.available (h : b.Made v) {G : Func}
    (hG : b.current.insts <+: (G.blocks b.insertBlock).insts) : G.Available v b.insertBlock := by
  rcases h.origin with ⟨k, t, rfl⟩ | ⟨id, t, i, rfl, hi⟩
  · exact .arg k t _
  · intro id' t' he
    cases he
    exact ⟨b.insertBlock, ⟨i, hG.subset hi⟩, .refl _⟩

/-- The value made is `x` at the insertion point. -/
structure Gives (b : Builder) (v : Value) (x : RVal) : Prop extends b.Made v where
  value : b.AtPoint fun fr => fr.eval v = some x

theorem gives_arg (b : Builder) (t : Ty) : b.Gives (.arg 0 t) (.ctxPtr 0) :=
  ⟨made_arg b 0 t, .of_forall fun _ => rfl⟩

theorem Gives.congr (h : b.Gives v x) (hb : b'.insertBlock = b.insertBlock)
    (hi : b'.current.insts = b.current.insts) (hn : b.nextId ≤ b'.nextId) : b'.Gives v x :=
  ⟨h.toMade.congr hi hn, h.value.congr hb hi⟩

/-- A value made before an instruction is not changed by it. -/
theorem eval_advance {fr : Frame} {n : ℕ} {r : RVal} {m : Machine} (h : v.Below n) :
    (fr.advance n r m).eval v = fr.eval v := by
  cases v with
  | inst id t => exact advance_keeps fr n r m id h
  | arg k t => cases k <;> rfl
  | _ => rfl

theorem Gives.insert (h : b.Gives v x) (i : Inst) : (b.insert i).2.Gives v x :=
  ⟨h.toMade.insert i, h.value.insert fun _ _ _ _ hx _ => (eval_advance h.below).trans hx⟩

theorem Gives.create (h : b.Gives v x) (i : Inst) : (b.create i).2.Gives v x := by
  cases hs : i.simplify? with
  | some w =>
      rw [create_of_some hs]
      exact h
  | none =>
      rw [create_of_none hs]
      exact h.insert i

theorem create_nextId_le (b : Builder) (i : Inst) : b.nextId ≤ (b.create i).2.nextId := by
  cases hs : i.simplify? with
  | some w => rw [create_of_some hs]
  | none =>
      rw [create_of_none hs]
      exact Nat.le_succ _

/-- What an instruction computes, where its operands are known. -/
theorem insert_gives (h : b.AtPoint P)
    (hi : ∀ ext fr r m, P fr → i.exec ext fr = some (r, m) → r = x) :
    (b.insert i).2.Gives (b.insert i).1 x :=
  ⟨insert_made b i, h.insert fun ext fr r m hP hx => by
    rw [← hi ext fr r m hP hx]
    exact Function.update_self ..⟩

/-- The builder does not fold what has an operand that is no constant. -/
theorem Made.constFold? (h : b.Made v) {i : Inst} (hi : v ∈ i.operands) : i.constFold? = none := by
  have hall : i.operands.all Value.isConst = false := by
    rw [List.all_eq_false]
    exact ⟨v, hi, by simp [h.not_isConst]⟩
  rw [Inst.constFold?, hall, Bool.and_false]
  rfl

theorem Gives.bitCast (h : b.Gives v x) (t : Ty) :
    (b.create (.cast .bitcast v t)).2.Gives (b.create (.cast .bitcast v t)).1 x := by
  by_cases hty : v.ty = t
  · have hs : (Inst.cast .bitcast v t).simplify? = some v := by
      simp [Inst.simplify?, Inst.sameTypeCast?, hty]
    rw [create_of_some hs]
    exact h
  · have hs : (Inst.cast .bitcast v t).simplify? = none := by
      have hfold := h.toMade.constFold? (i := .cast .bitcast v t) List.mem_cons_self
      simp [Inst.simplify?, Inst.sameTypeCast?, hty, hfold]
    rw [create_of_none hs]
    refine insert_gives h.value fun ext fr r m hx he => ?_
    simp only [Inst.exec, Inst.eval, hx, Option.bind_some, Inst.evalCast, Option.some_or,
      Option.map_some, Option.some.injEq, Prod.mk.injEq] at he
    exact he.1.symm

theorem Made.create_gep (h : b.Made v) (idx : Value) :
    b.create (.gep v idx) = b.insert (.gep v idx) := by
  have hs : (Inst.gep v idx).sameTypeCast? = none := rfl
  refine create_of_none ?_
  rw [Inst.simplify?, hs]
  exact h.constFold? List.mem_cons_self

/-- A pointer into the context moved by an index that was made before. -/
theorem Gives.gep {idx : Value} {t : Ty} {w : ℕ} {off : BitVec 64} (h : b.Gives v (.ctxPtr off))
    (hv : v.ty = .ptr t) (hidx : idx.ty = .int w) (hb : idx.Below b.nextId) :
    (b.create (.gep v idx)).2.Made (b.create (.gep v idx)).1 ∧
      (b.create (.gep v idx)).2.AtPoint fun fr => ∀ i, fr.eval idx = some (.bits i) →
        fr.eval (b.create (.gep v idx)).1 = some (.ctxPtr
          (off + (BitVec.ofNat w i).signExtend 64 * BitVec.ofNat 64 t.bytes)) := by
  rw [h.toMade.create_gep]
  refine ⟨insert_made b _, h.value.insert fun ext fr x m hx he i hi => ?_⟩
  rw [eval_advance hb] at hi
  simp only [Inst.exec, Inst.eval, hx, hi, Inst.evalGep, hv, hidx, Option.some_or,
    Option.map_some, Option.some.injEq, Prod.mk.injEq] at he
  rw [he.1]
  exact Function.update_self ..

end Builder

namespace Code

variable {ε α : Type} {b b' : Builder} {v : Value} {x : RVal} {a : α}

theorem gives_run {c : Code ε α} (h : b.Gives v x) (hc : c.run b = .ok (a, b')) : b'.Gives v x := by
  induction c generalizing b with
  | ret _ =>
      cases hc
      exact h
  | ins i k ih => exact ih _ (h.create i) hc
  | fail _ => cases hc

theorem run_nextId {c : Code ε α} (hc : c.run b = .ok (a, b')) : b.nextId ≤ b'.nextId := by
  induction c generalizing b with
  | ret _ =>
      cases hc
      exact Nat.le_refl _
  | ins i k ih => exact (Builder.create_nextId_le b i).trans (ih _ hc)
  | fail _ => cases hc

end Code

end LLVM
