import VexLLVM.LLVM.Blur
import VexLLVM.LLVM.Code

/-!
# Codes that number their instructions differently

A builder numbers the instructions it inserts, so that the same code run on two
builders differs in the numbers. Where these are paired one to one, the two runs
insert the same instructions on paired operands.
-/

namespace LLVM

/-- The same constant or argument, or the results of paired instructions. -/
inductive Value.Renumbered (π : ℕ → ℕ → Prop) : Value → Value → Prop
  | const (t : Ty) (n : ℕ) : Renumbered π (.const t n) (.const t n)
  | undef (t : Ty) : Renumbered π (.undef t) (.undef t)
  | arg (i : ℕ) (t : Ty) : Renumbered π (.arg i t) (.arg i t)
  | inst {id id' : ℕ} (t : Ty) (h : π id id') : Renumbered π (.inst id t) (.inst id' t)

/-- No number is paired twice. -/
structure OneToOne (π : ℕ → ℕ → Prop) : Prop where
  left : ∀ {i i' j}, π i j → π i' j → i = i'
  right : ∀ {i j j'}, π i j → π i j' → j = j'

namespace Value.Renumbered

variable {π π' : ℕ → ℕ → Prop} {v v' w w' : Value}

theorem mono (h : v.Renumbered π v') (hπ : ∀ i j, π i j → π' i j) : v.Renumbered π' v' := by
  cases h with
  | inst t h => exact .inst t (hπ _ _ h)
  | _ => constructor

theorem of_isConst (h : v.isConst = true) : v.Renumbered π v := by
  cases v with
  | const t n => exact .const t n
  | undef t => exact .undef t
  | _ => cases h

theorem blur_eq (h : v.Renumbered π v') : v.blur = v'.blur := by
  cases h <;> rfl

theorem ty_eq (h : v.Renumbered π v') : v.ty = v'.ty := Value.ty_of_blur h.blur_eq

theorem eq_iff (hπ : OneToOne π) (h : v.Renumbered π v') (hw : w.Renumbered π w') :
    v = w ↔ v' = w' := by
  cases h with
  | inst t h =>
      cases hw with
      | inst t' hw =>
          constructor
          · rintro ⟨⟩
            rw [hπ.right h hw]
          · rintro ⟨⟩
            rw [hπ.left h hw]
      | _ => exact iff_of_false (fun h => by cases h) fun h => by cases h
  | _ => cases hw <;> first | exact Iff.rfl | exact iff_of_false (fun h => by cases h) fun h => by cases h

end Value.Renumbered

namespace Inst.Linked

variable {π : ℕ → ℕ → Prop} {S S' : Value → Value → Prop} {i i' : Inst}

theorem mono (h : i.Linked S i') (hS : ∀ v v', S v v' → S' v v') : i.Linked S' i' := by
  cases h with
  | call f sig h => exact .call f sig (h.imp hS)
  | phi t h => exact .phi t (h.imp fun _ _ h => ⟨hS _ _ h.1, h.2⟩)
  | _ => constructor <;> exact hS _ _ ‹_›

theorem sameBlur (h : i.Linked (Value.Renumbered π) i') : i.blur = i'.blur :=
  blur_eq (h.mono fun _ _ => Value.Renumbered.blur_eq)

theorem ty_eq (h : i.Linked (Value.Renumbered π) i') : i.ty = i'.ty := by
  rw [← Inst.ty_blur, h.sameBlur, Inst.ty_blur]

theorem WF_eq (h : i.Linked (Value.Renumbered π) i') : i.WF = i'.WF := by
  rw [← Inst.WF_blur, h.sameBlur, Inst.WF_blur]

/-- The folder answers both alike. -/
theorem simplify?_rel (h : i.Linked (Value.Renumbered π) i') :
    Option.Rel (Value.Renumbered π) i.simplify? i'.simplify? := by
  have hfold : i.constFold? = i'.constFold? := by
    rw [← Inst.constFold?_blur, h.sameBlur, Inst.constFold?_blur]
  have hconst : Option.Rel (Value.Renumbered π) i.constFold? i'.constFold? := by
    rw [← hfold]
    cases hf : i.constFold? with
    | none => exact .none
    | some v =>
        obtain ⟨-, -, n, -, rfl⟩ := constFold?_eq_some hf
        exact .some (.const _ n)
  cases h with
  | @cast v v' k t hv =>
      by_cases ht : v.ty = t
      · have ht' : v'.ty = t := by rw [← hv.ty_eq, ht]
        simp only [simplify?, sameTypeCast?, if_pos ht, if_pos ht']
        exact .some hv
      · have ht' : ¬ v'.ty = t := by rwa [← hv.ty_eq]
        simp only [simplify?, sameTypeCast?, if_neg ht, if_neg ht']
        exact hconst
  | _ => exact hconst

end Inst.Linked

namespace Builder

def append (b : Builder) (l : List (ℕ × Inst)) : Builder :=
  { b.setCurrent { b.current with insts := b.current.insts ++ l } with nextId := b.nextId + l.length }

theorem append_nil (b : Builder) : b.append [] = b := by
  simp [append, setCurrent, current, block]

theorem append_append (b : Builder) (l l' : List (ℕ × Inst)) :
    (b.append l).append l' = b.append (l ++ l') := by
  simp [append, setCurrent, current, block, Nat.add_assoc]

theorem insert_eq_append (b : Builder) (i : Inst) : (b.insert i).2 = b.append [(b.nextId, i)] := rfl

@[simp] theorem append_nblocks (b : Builder) (l : List (ℕ × Inst)) :
    (b.append l).func.nblocks = b.func.nblocks := rfl

@[simp] theorem append_insertBlock (b : Builder) (l : List (ℕ × Inst)) :
    (b.append l).insertBlock = b.insertBlock := rfl

@[simp] theorem append_nextId (b : Builder) (l : List (ℕ × Inst)) :
    (b.append l).nextId = b.nextId + l.length := rfl

theorem append_block (b : Builder) (l : List (ℕ × Inst)) (k : ℕ) :
    (b.append l).block k =
      if k = b.insertBlock then { b.current with insts := b.current.insts ++ l } else b.block k :=
  b.setCurrent_block k _

end Builder

namespace Code

variable {ε α β : Type} {π : ℕ → ℕ → Prop} {R : α → α → Prop} {R' : β → β → Prop}

/-- Two codes that insert the same instructions on paired operands, and end in
results related by `R`, or give up alike. -/
inductive Renumbered (π : ℕ → ℕ → Prop) (R : α → α → Prop) : Code ε α → Code ε α → Prop
  | ret {a a' : α} (h : R a a') : Renumbered π R (ret a) (ret a')
  | ins {i i' : Inst} {k k' : Value → Code ε α} (h : i.Linked (Value.Renumbered π) i')
      (hk : ∀ v v', v.Renumbered π v' → Renumbered π R (k v) (k' v')) :
      Renumbered π R (ins i k) (ins i' k')
  | fail (e : ε) : Renumbered π R (fail e) (fail e)

theorem Renumbered.bind {c c' : Code ε α} {f f' : α → Code ε β} (h : Renumbered π R c c')
    (hf : ∀ a a', R a a' → Renumbered π R' (f a) (f' a')) :
    Renumbered π R' (c >>= f) (c' >>= f') := by
  induction h with
  | ret h => exact hf _ _ h
  | ins h _ ih => exact .ins h ih
  | fail e => exact .fail e

/-- Values paired by `π`, and codes that insert the same instructions on them. -/
def renumbers (π : ℕ → ℕ → Prop) : Congruence ε where
  val := Value.Renumbered π
  rel := Renumbered π
  const := .of_isConst
  eq_const h := Value.eq_of_blur h.blur_eq
  isConst h := Value.isConst_of_blur h.blur_eq
  ty h := h.ty_eq
  ret := .ret
  fail := .fail
  bind := .bind
  create h := .ins h fun _ _ => .ret

/-- The code, numbered from `n`, hands back `a` and inserts the instructions. -/
inductive Places : Code ε α → ℕ → α → List (ℕ × Inst) → Prop
  | ret (a : α) (n : ℕ) : Places (ret a) n a []
  | fold {i : Inst} {k : Value → Code ε α} {v : Value} {n : ℕ} {a : α} {l : List (ℕ × Inst)}
      (h : i.simplify? = some v) (hk : Places (k v) n a l) : Places (ins i k) n a l
  | put {i : Inst} {k : Value → Code ε α} {n : ℕ} {a : α} {l : List (ℕ × Inst)}
      (h : i.simplify? = none) (hk : Places (k (.inst n i.ty)) (n + 1) a l) :
      Places (ins i k) n a ((n, i) :: l)

theorem Places.run {c : Code ε α} {n : ℕ} {a : α} {l : List (ℕ × Inst)} (h : c.Places n a l)
    {b : Builder} (hb : b.nextId = n) : c.run b = .ok (a, b.append l) := by
  induction h generalizing b with
  | ret a n =>
      rw [Builder.append_nil]
      rfl
  | fold h _ ih =>
      rw [Code.run, Builder.create_of_some h]
      exact ih hb
  | @put i k n a l h _ ih =>
      subst hb
      have hi := @ih (b.insert i).2 rfl
      rw [Builder.insert_eq_append, Builder.append_append] at hi
      rw [Code.run, Builder.create_of_none h]
      exact hi

theorem Places.emits {c : Code ε α} {b : Builder} {a : α} {l : List (ℕ × Inst)}
    (h : c.Places b.nextId a l) (hb : b.OK) : b.Emits (b.append l) :=
  run_emits (h.run rfl) hb

theorem exists_places {c : Code ε α} {b b₁ : Builder} {a : α} (h : c.run b = .ok (a, b₁)) :
    ∃ l, c.Places b.nextId a l ∧ b₁ = b.append l := by
  induction c generalizing b with
  | ret a' =>
      cases h
      exact ⟨[], .ret a _, (Builder.append_nil _).symm⟩
  | ins i k ih =>
      cases hs : i.simplify? with
      | some v =>
          rw [Code.run, Builder.create_of_some hs] at h
          obtain ⟨l, hl, rfl⟩ := ih v h
          exact ⟨l, .fold hs hl, rfl⟩
      | none =>
          rw [Code.run, Builder.create_of_none hs] at h
          obtain ⟨l, hl, rfl⟩ := ih _ h
          exact ⟨(b.nextId, i) :: l, .put hs hl, by
            rw [Builder.insert_eq_append, Builder.append_append]; rfl⟩
  | fail e => cases h

theorem Places.ids {c : Code ε α} {n : ℕ} {a : α} {l : List (ℕ × Inst)} (h : c.Places n a l) :
    ∀ p ∈ l, n ≤ p.1 ∧ p.1 < n + l.length := by
  induction h with
  | ret a n => exact fun p hp => by cases hp
  | fold _ _ ih => exact ih
  | @put i k n a l _ _ ih =>
      intro p hp
      rw [List.length_cons]
      rcases List.mem_cons.1 hp with rfl | hp
      · exact ⟨le_rfl, by omega⟩
      · have := ih p hp
        omega

abbrev PlacedAlike (π : ℕ → ℕ → Prop) : List (ℕ × Inst) → List (ℕ × Inst) → Prop :=
  List.Forall₂ fun p p' => π p.1 p'.1 ∧ p.2.Linked (Value.Renumbered π) p'.2

theorem PlacedAlike.wf_iff {l l' : List (ℕ × Inst)} (h : PlacedAlike π l l') :
    (∀ p ∈ l', p.2.WF = true) ↔ ∀ p ∈ l, p.2.WF = true := by
  induction h with
  | nil => simp
  | cons h _ ih => rw [List.forall_mem_cons, List.forall_mem_cons, ih, h.2.WF_eq]

/-- What one code places the other one places as well, where the numbers to come
are paired in order. -/
theorem Renumbered.places {c c' : Code ε α} (h : Renumbered π R c c') {n n' : ℕ} {a : α}
    {l : List (ℕ × Inst)} (hl : c.Places n a l) (hπ : ∀ k < l.length, π (n + k) (n' + k)) :
    ∃ a' l', c'.Places n' a' l' ∧ R a a' ∧ PlacedAlike π l l' := by
  induction h generalizing n n' l with
  | ret h =>
      cases hl
      exact ⟨_, [], .ret _ n', h, .nil⟩
  | @ins i i' k k' h hk ih =>
      have hrel := h.simplify?_rel
      cases hl with
      | @fold _ _ v _ _ _ hs hl =>
          rw [hs] at hrel
          generalize hs' : i'.simplify? = o at hrel
          cases hrel with
          | some hv =>
              obtain ⟨a', l', hl', hR, hp⟩ := ih _ _ hv hl hπ
              exact ⟨a', l', .fold hs' hl', hR, hp⟩
      | @put _ _ _ _ l hs hl =>
          rw [hs] at hrel
          generalize hs' : i'.simplify? = o at hrel
          cases hrel with
          | none =>
              have hnew : π n n' := hπ 0 (Nat.succ_pos _)
              have hv : (Value.inst n i.ty).Renumbered π (.inst n' i'.ty) := by
                rw [h.ty_eq]
                exact .inst _ hnew
              obtain ⟨a', l', hl', hR, hp⟩ := @ih _ _ hv (n + 1) (n' + 1) l hl fun k hk => by
                rw [Nat.add_assoc, Nat.add_assoc, Nat.add_comm 1 k]
                exact hπ (k + 1) (Nat.succ_lt_succ hk)
              exact ⟨a', (n', i') :: l', .put hs' hl', hR, .cons ⟨hnew, h⟩ hp⟩
  | fail e => cases hl

end Code

end LLVM
