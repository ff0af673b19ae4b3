import VexLLVM.LLVM.Linked

/-!
# What the builder's decisions depend on

The constant folder looks at types and constants only. `Value.blur` forgets
which instruction or argument a value is, and `Code.Alike` relates two codes
that make the same decisions on operands with equal blurs. Their runs end alike
from whatever builders they start.
-/

namespace LLVM

namespace Value

/-- A constant as it is, and of any other value the type. -/
def blur : Value → Value
  | const t n => const t n
  | undef t => undef t
  | arg _ t => inst 0 t
  | inst _ t => inst 0 t

@[simp] theorem ty_blur (v : Value) : v.blur.ty = v.ty := by cases v <;> rfl

@[simp] theorem isConst_blur (v : Value) : v.blur.isConst = v.isConst := by cases v <;> rfl

@[simp] theorem blur_inst (id : ℕ) (t : Ty) : (inst id t).blur = inst 0 t := rfl

@[simp] theorem blur_blur (v : Value) : v.blur.blur = v.blur := by cases v <;> rfl

theorem blur_of_isConst {v : Value} (h : v.isConst = true) : v.blur = v := by
  cases v <;> first | rfl | cases h

theorem blur_of_not_isConst {v : Value} (h : v.isConst = false) : v.blur = inst 0 v.ty := by
  cases v <;> first | rfl | cases h

theorem ty_of_blur {v w : Value} (h : v.blur = w.blur) : v.ty = w.ty := by
  rw [← ty_blur v, h, ty_blur]

theorem isConst_of_blur {v w : Value} (h : v.blur = w.blur) : v.isConst = w.isConst := by
  rw [← isConst_blur v, h, isConst_blur]

/-- Values with equal blurs are equal where one is a constant. -/
theorem eq_of_blur {v w : Value} (h : v.blur = w.blur) (hc : v.isConst = true) : v = w := by
  rw [← blur_of_isConst hc, h, blur_of_isConst (by rw [← isConst_of_blur h, hc])]

end Value

namespace Inst

def mapValues (f : Value → Value) : Inst → Inst
  | bin o a b => bin o (f a) (f b)
  | icmp p a b => icmp p (f a) (f b)
  | fcmp p a b => fcmp p (f a) (f b)
  | cast k v t => cast k (f v) t
  | select c a b => select (f c) (f a) (f b)
  | extractelement v i => extractelement (f v) (f i)
  | insertelement v e i => insertelement (f v) (f e) (f i)
  | shufflevector a b mask => shufflevector (f a) (f b) mask
  | insertvalue agg v i => insertvalue (f agg) (f v) i
  | gep base idx => gep (f base) (f idx)
  | load p al => load (f p) al
  | store v p al => store (f v) (f p) al
  | call g sig args => call g sig (args.map f)
  | phi t inc => phi t (inc.map fun p => (f p.1, p.2))
  | fence => fence

def blur (i : Inst) : Inst := i.mapValues Value.blur

@[simp] theorem ty_blur (i : Inst) : i.blur.ty = i.ty := by
  cases i <;> simp [blur, mapValues, ty]

@[simp] theorem WF_blur (i : Inst) : i.blur.WF = i.WF := by
  cases i <;> simp [blur, mapValues, WF, Function.comp_def, List.all_map]

@[simp] theorem operands_blur (i : Inst) : i.blur.operands = i.operands.map Value.blur := by
  cases i <;> rfl

theorem sameTypeCast?_blur (i : Inst) :
    i.blur.sameTypeCast? = i.sameTypeCast?.map Value.blur := by
  cases i with
  | cast k v t =>
      change (if v.blur.ty = t then some v.blur else none) =
        (if v.ty = t then some v else none).map Value.blur
      rw [Value.ty_blur]
      split <;> rfl
  | _ => rfl

/-- On constants there is nothing to forget. -/
theorem eval_blur {i : Inst} (h : ∀ o ∈ i.operands, o.isConst = true) :
    i.blur.eval Value.constEval = i.eval Value.constEval := by
  cases i <;> simp_all [blur, mapValues, eval, operands, Value.blur_of_isConst]

theorem constFold?_blur (i : Inst) : i.blur.constFold? = i.constFold? := by
  unfold constFold?
  have hall : i.blur.operands.all Value.isConst = i.operands.all Value.isConst := by
    simp [List.all_map, Function.comp_def]
  rw [WF_blur, hall, ty_blur]
  split
  · next h =>
      rw [Bool.and_eq_true, List.all_eq_true] at h
      rw [eval_blur h.2]
  · rfl

theorem simplify?_blur (i : Inst) : i.blur.simplify? = i.simplify?.map Value.blur := by
  unfold simplify?
  rw [sameTypeCast?_blur, constFold?_blur]
  cases i.sameTypeCast? with
  | some v => rfl
  | none =>
      cases h : i.constFold? with
      | none => rfl
      | some v =>
          obtain ⟨_, _, n, _, rfl⟩ := constFold?_eq_some h
          rfl

@[simp] theorem createOk_blur (i : Inst) : i.blur.createOk = i.createOk := by
  simp [createOk, sameTypeCast?_blur]

/-- What `create` hands back for the instruction, up to its number. -/
def result (i : Inst) : Value := (i.blur.simplify?).getD (.inst 0 i.ty)

theorem result_congr {i i' : Inst} (h : i.blur = i'.blur) : i.result = i'.result := by
  rw [result, result, h, ← ty_blur i, h, ty_blur]

theorem result_of_not_simplify {i : Inst} (h : i.simplify? = none) :
    i.result = .inst 0 i.ty := by
  rw [result, simplify?_blur, h]
  rfl

/-- An instruction with an operand that is not a constant is not folded. -/
theorem result_of_not_isConst {i : Inst} (hs : i.sameTypeCast? = none) {o : Value}
    (ho : o ∈ i.operands) (hc : o.isConst = false) : i.result = .inst 0 i.ty := by
  have hf : i.constFold? = none := by
    unfold constFold?
    rw [if_neg]
    rw [Bool.and_eq_true, List.all_eq_true]
    rintro ⟨-, hall⟩
    rw [hall o ho] at hc
    cases hc
  exact result_of_not_simplify (by simp [simplify?, hs, hf])

end Inst

namespace Builder

theorem create_blur (b : Builder) (i : Inst) : (b.create i).1.blur = i.result := by
  rw [Inst.result, Inst.simplify?_blur]
  cases h : i.simplify? with
  | some v =>
      rw [create_of_some h]
      rfl
  | none =>
      rw [create_of_none h]
      rfl

end Builder

namespace Code

variable {ε α β : Type}

/-- Two codes that end in results related by `R`, or give up alike. Either may
insert an instruction the other does not insert. -/
inductive Alike (R : α → α → Prop) : Code ε α → Code ε α → Prop
  | ret {a a' : α} : R a a' → Alike R (ret a) (ret a')
  | left {i : Inst} {k : Value → Code ε α} {c' : Code ε α} :
      (∀ v, v.blur = i.result → Alike R (k v) c') → Alike R (ins i k) c'
  | right {i' : Inst} {c : Code ε α} {k' : Value → Code ε α} :
      (∀ v', v'.blur = i'.result → Alike R c (k' v')) → Alike R c (ins i' k')
  | fail (e : ε) : Alike R (fail e) (fail e)

abbrev SameBlur (v v' : Value) : Prop := v.blur = v'.blur

variable {R : α → α → Prop} {R' : β → β → Prop}

theorem Alike.mono {S : α → α → Prop} {c c' : Code ε α} (h : Alike R c c')
    (hS : ∀ a a', R a a' → S a a') : Alike S c c' := by
  induction h with
  | ret h => exact .ret (hS _ _ h)
  | left _ ih => exact .left ih
  | right _ ih => exact .right ih
  | fail e => exact .fail e

theorem Alike.bind {c c' : Code ε α} {f f' : α → Code ε β} (h : Alike R c c')
    (hf : ∀ a a', R a a' → Alike R' (f a) (f' a')) : Alike R' (c >>= f) (c' >>= f') := by
  induction h with
  | ret h => exact hf _ _ h
  | left _ ih => exact .left ih
  | right _ ih => exact .right ih
  | fail e => exact .fail e

/-- Codes that are alike end alike, whatever the builders they run on. -/
theorem Alike.run {c c' : Code ε α} (h : Alike R c c') (b b' : Builder) :
    (∃ a a' b₁ b₁', c.run b = .ok (a, b₁) ∧ c'.run b' = .ok (a', b₁') ∧ R a a') ∨
      ∃ e, c.run b = .error e ∧ c'.run b' = .error e := by
  induction h generalizing b b' with
  | ret h => exact .inl ⟨_, _, _, _, rfl, rfl, h⟩
  | left _ ih => exact ih _ (b.create_blur _) _ _
  | right _ ih => exact ih _ (b'.create_blur _) _ _
  | fail e => exact .inr ⟨e, rfl, rfl⟩

/-- What the code hands back on an empty function, up to the numbers of
instructions. -/
def draft (c : Code ε Value) : Except ε Value :=
  (c.run Builder.empty).map fun r => r.1.blur

theorem Alike.draft_ok {c c' : Code ε Value} (h : Alike SameBlur c c') {b b₁ : Builder} {v : Value}
    (hrun : c.run b = .ok (v, b₁)) : c'.draft = .ok v.blur := by
  rcases h.run b .empty with ⟨a, a', b₂, b₂', h₁, h₂, hR⟩ | ⟨e, h₁, -⟩
  · rw [hrun] at h₁
    cases h₁
    simp [draft, h₂, hR, Except.map]
  · rw [hrun] at h₁
    cases h₁

theorem alike_create {i i' : Inst} (h : i.blur = i'.blur) :
    Alike SameBlur (create i : Code ε Value) (create i') :=
  .left fun _ hv => .right fun _ hv' => .ret (by rw [SameBlur, hv, hv', Inst.result_congr h])

end Code

theorem List.map_blur_eq {vs vs' : List Value} (h : List.Forall₂ Code.SameBlur vs vs') :
    vs.map Value.blur = vs'.map Value.blur := by
  induction h with
  | nil => rfl
  | cons h _ ih => rw [List.map_cons, List.map_cons, h, ih]

theorem Inst.Linked.blur_eq {i i' : Inst} (h : i.Linked Code.SameBlur i') : i.blur = i'.blur := by
  cases h with
  | call f sig h =>
      change Inst.call f sig _ = Inst.call f sig _
      rw [List.map_blur_eq h]
  | phi t h =>
      change Inst.phi t _ = Inst.phi t _
      congr 1
      induction h with
      | nil => rfl
      | cons h _ ih => simp [ih, h.1.symm.trans rfl, h.2]
  | _ => simp_all [Inst.blur, Inst.mapValues]

namespace Code

variable {ε : Type}

/-- Values with equal blurs, and codes that are alike. -/
def blurs : Congruence ε where
  val := SameBlur
  rel := Alike
  const _ := rfl
  eq_const := Value.eq_of_blur
  isConst := Value.isConst_of_blur
  ty := Value.ty_of_blur
  ret := .ret
  fail := .fail
  bind := .bind
  create h := alike_create h.blur_eq

end Code

end LLVM
