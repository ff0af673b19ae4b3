import VexLLVM.LLVM.Blur
import VexLLVM.Emit.OpLinked

/-!
# The emitters on operands with equal blurs

Every emitter makes the same decisions on operands that differ in the numbers
of instructions only, so what it hands back, and whether it gives up, can be
read off a draft of the operands.
-/

namespace VexLLVM

open LLVM LLVM.Code

variable {a a' b b' v v' : Value}

namespace OpEmit

/-- What two runs of the loop of `OPSHUF_EMIT` carry: the results have equal
blurs, and so have the last indices and elements; and an element found at an
index that is not a constant is not one. -/
def ShufAlike (t : Ty) (s s' : Value × Option (Value × Value)) : Prop :=
  s.1.blur = s'.1.blur ∧
    (s.2 = none ∧ s'.2 = none ∨
      ∃ i e i' e', s.2 = some (i, e) ∧ s'.2 = some (i', e') ∧ i.blur = i'.blur ∧
        e.blur = e'.blur ∧ (i.isConst = false → e.blur = .inst 0 t))

/-- The element at the index `p`, taken anew. -/
theorem extract_alike {p p' : Value} (ha : a.blur = a'.blur) (hp : p.blur = p'.blur) :
    Alike (fun e e' => e.blur = e'.blur ∧
        (p.isConst = false → e.blur = .inst 0 (Inst.extractelement a b).ty))
      (createExtractElement a p : OpCode) (createExtractElement a' p') := by
  have hi : (Inst.extractelement a p).blur = (Inst.extractelement a' p').blur := by
    simp [Inst.blur, Inst.mapValues, ha, hp]
  refine .left fun e he => .right fun e' he' => .ret ⟨?_, fun hc => ?_⟩
  · rw [he, he', Inst.result_congr hi]
  · rw [he, Inst.result_of_not_isConst rfl (by simp [Inst.operands]) hc]
    rfl

/-- The element for an index after the first: an index equal to the last one
reuses the last element. -/
theorem emitOpshuf_again_alike {α : Type} {R : α → α → Prop} {k k' : Value → Code EmitError α}
    {p p' i i' e e' : Value} (ha : a.blur = a'.blur) (hp : p.blur = p'.blur)
    (hi : i.blur = i'.blur) (he : e.blur = e'.blur)
    (hne : i.isConst = false → e.blur = .inst 0 (Inst.extractelement a b).ty)
    (hk : ∀ e e' : Value, e.blur = e'.blur →
      (p.isConst = false → e.blur = .inst 0 (Inst.extractelement a b).ty) →
        Alike R (k e) (k' e')) :
    Alike R (if p = i then pure e >>= k else createExtractElement a p >>= k)
      (if p' = i' then pure e' >>= k' else createExtractElement a' p' >>= k') := by
  have hnew := (extract_alike (b := b) ha hp).bind fun e e' he => hk e e' he.1 he.2
  -- a constant index is compared alike on both sides
  have hiff : p.isConst = true → (p = i ↔ p' = i') := fun hc => by
    have hpp := Value.eq_of_blur hp hc
    constructor
    · rintro rfl
      exact hpp.symm.trans (Value.eq_of_blur hi hc)
    · intro hpi
      rw [hpp, hpi]
      exact Value.eq_of_blur hi.symm (by rw [← hpi, ← hpp, hc])
  have hty : (Inst.extractelement a' p').ty = (Inst.extractelement a b).ty := by
    simp only [Inst.ty, Value.ty_of_blur ha]
  by_cases hp₁ : p = i <;> by_cases hp₂ : p' = i'
  · rw [if_pos hp₁, if_pos hp₂]
    exact hk _ _ he fun hc => hne (by rw [← hp₁, hc])
  · have hc : p.isConst = false := by
      rw [← Bool.not_eq_true]
      exact fun hc => hp₂ ((hiff hc).1 hp₁)
    rw [if_pos hp₁, if_neg hp₂]
    have hel := hne (by rw [← hp₁, hc])
    refine .right fun v hv => hk _ _ ?_ fun _ => hel
    rw [hel, hv, Inst.result_of_not_isConst rfl (o := p') (by simp [Inst.operands])
      (by rw [← Value.isConst_of_blur hp, hc]), hty]
  · have hc : p.isConst = false := by
      rw [← Bool.not_eq_true]
      exact fun hc => hp₁ ((hiff hc).2 hp₂)
    have hic : i.isConst = false := by
      rw [Value.isConst_of_blur hi, ← hp₂, ← Value.isConst_of_blur hp, hc]
    rw [if_neg hp₁, if_pos hp₂]
    refine .left fun v hv => ?_
    have hel : v.blur = .inst 0 (Inst.extractelement a b).ty := by
      rw [hv, Inst.result_of_not_isConst rfl (by simp [Inst.operands]) hc]
      rfl
    exact hk _ _ (by rw [hel, ← he, hne hic]) fun _ => hel
  · rw [if_neg hp₁, if_neg hp₂]
    exact hnew

theorem emitOpshuf_alike (n w : ℕ) (ha : a.blur = a'.blur) (hb : b.blur = b'.blur) :
    Alike SameBlur (emitOpshuf n w a b) (emitOpshuf n w a' b') :=
  bitCast₂_rel blurs _ ha hb fun a a' _ _ ha hb => (zeroVec_rel blurs n _).bind fun _ _ hr =>
    .bind (blurs.foldlM (S := ShufAlike (Inst.extractelement a a).ty) _
      ⟨hr, .inl ⟨rfl, rfl⟩⟩ fun j s s' hs =>
        (blurs.extract hb rfl).bind fun _ _ hi => (blurs.zext _ hi).bind fun p p' hp => by
          have hput : ∀ e e' : Value, e.blur = e'.blur →
              (p.isConst = false → e.blur = .inst 0 (Inst.extractelement a a).ty) →
              Alike (ShufAlike (Inst.extractelement a a).ty)
                (createInsertElement s.1 e (get32i j) >>= fun r => pure (r, some (p, e)) :
                  Code EmitError _)
                (createInsertElement s'.1 e' (get32i j) >>= fun r => pure (r, some (p', e'))) :=
            fun _ _ he hne => (blurs.insert hs.1 he rfl).bind fun _ _ hr =>
              .ret ⟨hr, .inr ⟨_, _, _, _, rfl, rfl, hp, he, hne⟩⟩
          obtain ⟨-, ⟨h, h'⟩ | ⟨i, e, i', e', h, h', hi, he, hne⟩⟩ := hs
          · rw [h, h']
            exact (extract_alike ha hp).bind fun e e' he => hput e e' he.1 he.2
          · rw [h, h']
            exact emitOpshuf_again_alike ha hp hi he hne hput) fun _ _ hs => .ret hs.1

/-- An emitter on operands with equal blurs, as many as it reads. -/
theorem build_alike (helpers : Helpers) (e : OpEmit) {vs vs' : List Value}
    (hlen : vs.length = e.arity) (h : List.Forall₂ SameBlur vs vs') :
    Alike SameBlur (e.build helpers vs) (e.build helpers vs') :=
  build_rel blurs (fun n w _ _ _ _ => emitOpshuf_alike n w) helpers e hlen h

end OpEmit

end VexLLVM
