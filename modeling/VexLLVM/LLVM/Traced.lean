import VexLLVM.LLVM.Renumber
import VexLLVM.LLVM.Walk

/-!
# Functions with code put in between

A function traces another one if its blocks hold the same instructions, numbered
differently, with silent code put in between: code that leaves what the machine
holds outside of the log, and does not get stuck where the code before which it
is put does not. Such functions run alike.
-/

theorem Option.Rel.imp {α β : Type} {r r' : α → β → Prop} {a : Option α} {b : Option β}
    (h : Option.Rel r a b) (hr : ∀ x y, r x y → r' x y) : Option.Rel r' a b := by
  cases h with
  | none => exact .none
  | some h => exact .some (hr _ _ h)

namespace LLVM

/-- The machines differ in the log only. -/
structure Machine.Same (m m' : Machine) : Prop where
  ctx : m.ctx = m'.ctx
  mem : m.mem = m'.mem

abbrev SameRun : RVal × Machine → RVal × Machine → Prop := fun r r' => r.1 = r'.1 ∧ r.2.Same r'.2

def Extern.Blind (ext : Extern) : Prop :=
  ∀ f xs m m', m.Same m' → Option.Rel SameRun (ext f xs m) (ext f xs m')

namespace Machine.Same

variable {m m' m'' : Machine}

theorem refl (m : Machine) : m.Same m := ⟨rfl, rfl⟩

theorem symm (h : m.Same m') : m'.Same m := ⟨h.ctx.symm, h.mem.symm⟩

theorem trans (h : m.Same m') (h' : m'.Same m'') : m.Same m'' :=
  ⟨h.ctx.trans h'.ctx, h.mem.trans h'.mem⟩

theorem load_eq (h : m.Same m') (p : RVal) (n : ℕ) : m.load p n = m'.load p n := by
  cases p <;> simp [load, h.ctx, h.mem]

theorem store_rel (h : m.Same m') (p : RVal) (n : ℕ) (v : RVal) :
    Option.Rel Same (m.store p n v) (m'.store p n v) := by
  unfold store
  split
  · exact .some ⟨by rw [h.ctx], h.mem⟩
  · exact .some ⟨h.ctx, by rw [h.mem]⟩
  · exact .some ⟨h.ctx, h.mem⟩
  · exact .none

end Machine.Same

/-- The frames are in the same block, come from the same one, and have the same
results of paired instructions. -/
structure Frame.Coupled (π : ℕ → ℕ → Prop) (fr fr' : Frame) : Prop where
  blk : fr.blk = fr'.blk
  prev : fr.prev = fr'.prev
  regs : ∀ {i j}, π i j → fr.regs i = fr'.regs j
  m : fr.m.Same fr'.m

variable {π : ℕ → ℕ → Prop} {fr fr' fr'' : Frame} {ext : Extern} {v v' : Value} {i i' : Inst}

namespace Frame.Coupled

theorem eval_eq (h : fr.Coupled π fr') (hv : v.Renumbered π v') : fr.eval v = fr'.eval v' := by
  cases hv with
  | inst t hi => exact h.regs hi
  | arg i t => cases i <;> rfl
  | _ => rfl

theorem goto (h : fr.Coupled π fr') (k : ℕ) : (fr.goto k).Coupled π (fr'.goto k) :=
  ⟨rfl, h.blk, h.regs, h.m⟩

theorem advance (hπ : OneToOne π) (h : fr.Coupled π fr') {id id' : ℕ} (hid : π id id') (x : RVal)
    {m m' : Machine} (hm : m.Same m') : (fr.advance id x m).Coupled π (fr'.advance id' x m') where
  blk := h.blk
  prev := h.prev
  regs {i j} hij := by
    change Function.update fr.regs id (some x) i = Function.update fr'.regs id' (some x) j
    rw [Function.update_apply, Function.update_apply, h.regs hij]
    by_cases hi : i = id
    · subst hi
      rw [if_pos rfl, if_pos (hπ.right hij hid)]
    · rw [if_neg hi, if_neg]
      rintro rfl
      exact hi (hπ.left hij hid)
  m := hm

end Frame.Coupled

namespace Inst.Linked

theorem eval_eq {S : Value → Value → Prop} {ev ev' : Value → Option RVal}
    (hS : ∀ v v', S v v' → ev v = ev' v' ∧ v.ty = v'.ty) (h : i.Linked S i') :
    i.eval ev = i'.eval ev' := by
  cases h with
  | call f sig h => rfl
  | phi t h => rfl
  | select hc ha hb => simp only [eval, (hS _ _ hc).1, (hS _ _ ha).1, (hS _ _ hb).1]
  | insertelement hv he hi =>
      simp only [eval, (hS _ _ hv).1, (hS _ _ he).1, (hS _ _ hi).1, (hS _ _ hv).2]
  | cast k t hv => simp only [eval, (hS _ _ hv).1, (hS _ _ hv).2]
  | load al hp => rfl
  | store al hv hp => rfl
  | fence => rfl
  | bin o ha hb => simp only [eval, (hS _ _ ha).1, (hS _ _ hb).1, (hS _ _ ha).2]
  | icmp p ha hb => simp only [eval, (hS _ _ ha).1, (hS _ _ hb).1, (hS _ _ ha).2]
  | fcmp p ha hb => rfl
  | extractelement hv hi => simp only [eval, (hS _ _ hv).1, (hS _ _ hi).1, (hS _ _ hv).2]
  | shufflevector mask ha hb => simp only [eval, (hS _ _ ha).1, (hS _ _ hb).1, (hS _ _ ha).2]
  | insertvalue k ha hv => simp only [eval, (hS _ _ ha).1, (hS _ _ hv).1]
  | gep hp hi => simp only [eval, (hS _ _ hp).1, (hS _ _ hi).1, (hS _ _ hp).2, (hS _ _ hi).2]

theorem hostOp?_rel (h : i.Linked (Value.Renumbered π) i') :
    Option.Rel (fun q q' => q.1 = q'.1 ∧ List.Forall₂ (Value.Renumbered π) q.2 q'.2)
      i.hostOp? i'.hostOp? := by
  cases h with
  | bin o ha hb => exact .some ⟨by rw [ha.ty_eq], .cons ha (.cons hb .nil)⟩
  | fcmp p ha hb => exact .some ⟨by rw [ha.ty_eq], .cons ha (.cons hb .nil)⟩
  | cast k t hv =>
      dsimp only [hostOp?]
      split
      · exact .some ⟨by rw [hv.ty_eq], .cons hv .nil⟩
      · exact .none
  | _ => exact .none

theorem mapM_eq {γ : Type} {f g : Value → Option γ} {vs vs' : List Value}
    (h : List.Forall₂ (Value.Renumbered π) vs vs')
    (hfg : ∀ v v', v.Renumbered π v' → f v = g v') : vs.mapM f = vs'.mapM g := by
  induction h with
  | nil => rfl
  | cons h _ ih => rw [List.mapM_cons, List.mapM_cons, hfg _ _ h, ih]

theorem hostEval_eq (hext : ext.Blind) (hc : fr.Coupled π fr')
    (h : i.Linked (Value.Renumbered π) i') : i.hostEval ext fr = i'.hostEval ext fr' := by
  have hop := h.hostOp?_rel
  rw [hostEval, hostEval, h.ty_eq]
  generalize i.hostOp? = o at hop ⊢
  generalize i'.hostOp? = o' at hop ⊢
  cases hop with
  | none => rfl
  | @some q q' hq =>
      have hxs : (q.2.mapM fun v => (fr.eval v).bind RVal.bits?) =
          q'.2.mapM fun v => (fr'.eval v).bind RVal.bits? :=
        mapM_eq hq.2 fun v v' hv => by rw [hc.eval_eq hv]
      rw [Option.bind_some, Option.bind_some, hxs, hq.1]
      refine Option.bind_congr fun xs _ => ?_
      have hx := hext q'.1 (xs.map .bits) fr.m fr'.m hc.m
      generalize ext q'.1 (xs.map .bits) fr.m = r at hx ⊢
      generalize ext q'.1 (xs.map .bits) fr'.m = r' at hx ⊢
      cases hx with
      | none => rfl
      | some hr => rw [Option.bind_some, Option.bind_some, hr.1]

/-- Linked instructions give the same value, and machines that differ in the log
only, or are stuck both. -/
theorem exec_rel (hext : ext.Blind) (hc : fr.Coupled π fr') (h : i.Linked (Value.Renumbered π) i') :
    Option.Rel SameRun (i.exec ext fr) (i'.exec ext fr') := by
  have hpure : Option.Rel SameRun (((i.eval fr.eval).or (i.hostEval ext fr)).map fun x => (x, fr.m))
      (((i'.eval fr'.eval).or (i'.hostEval ext fr')).map fun x => (x, fr'.m)) := by
    rw [h.hostEval_eq hext hc, h.eval_eq fun v v' hv => ⟨hc.eval_eq hv, hv.ty_eq⟩]
    cases (i'.eval fr'.eval).or (i'.hostEval ext fr') with
    | none => exact .none
    | some x => exact .some ⟨rfl, hc.m⟩
  cases h with
  | @load p p' al hp =>
      have hty : (Inst.load p al).ty = (Inst.load p' al).ty := ty_eq (π := π) (.load al hp)
      simp only [exec, hc.eval_eq hp, hty]
      cases fr'.eval p' with
      | none => exact .none
      | some a =>
          rw [Option.bind_some, Option.bind_some, hc.m.load_eq]
          cases fr'.m.load a (Inst.load p' al).ty.bytes with
          | none => exact .none
          | some x => exact .some ⟨rfl, hc.m⟩
  | @store v p v' p' al hv hp =>
      simp only [exec, hc.eval_eq hp, hc.eval_eq hv, hv.ty_eq]
      cases fr'.eval p' with
      | none => exact .none
      | some a =>
          cases fr'.eval v' with
          | none => exact .none
          | some x =>
              have hm := hc.m.store_rel a v'.ty.bytes x
              simp only [Option.bind_some]
              generalize fr.m.store a v'.ty.bytes x = o at hm ⊢
              generalize fr'.m.store a v'.ty.bytes x = o' at hm ⊢
              cases hm with
              | none => exact .none
              | some hm => exact .some ⟨rfl, hm⟩
  | call f sig h =>
      simp only [exec, mapM_eq h fun v v' hv => hc.eval_eq hv]
      cases List.mapM fr'.eval _ with
      | none => exact .none
      | some xs => exact hext f xs _ _ hc.m
  | phi t h =>
      simp only [exec, hc.prev]
      induction h with
      | nil => exact .none
      | @cons q q' _ _ hq _ ih =>
          rw [List.find?_cons, List.find?_cons, hq.2]
          split
          · rw [Option.bind_some, Option.bind_some, hc.eval_eq hq.1]
            cases fr'.eval q'.1 with
            | none => exact .none
            | some x => exact .some ⟨rfl, hc.m⟩
          · exact ih hpure
  | fence => exact .some ⟨rfl, hc.m⟩
  | _ => exact hpure

end Inst.Linked

/-! ## Runs of instructions -/

namespace Frame

def execs (ext : Extern) : List (ℕ × Inst) → Frame → Option Frame
  | [], fr => some fr
  | p :: l, fr => (p.2.exec ext fr).bind fun r => execs ext l (fr.advance p.1 r.1 r.2)

def rest (fr : Frame) (G : Func) : List (ℕ × Inst) := (G.blocks fr.blk).insts.drop fr.pos

variable {G : Func} {p : ℕ × Inst} {l t : List (ℕ × Inst)} {x : RVal} {m : Machine}

theorem getElem?_of_rest (h : fr.rest G = p :: l) : (G.blocks fr.blk).insts[fr.pos]? = some p := by
  rw [← List.head?_drop, ← rest, h, List.head?_cons]

theorem getElem?_of_rest_nil (h : fr.rest G = []) : (G.blocks fr.blk).insts[fr.pos]? = none := by
  rw [← List.head?_drop, ← rest, h, List.head?_nil]

theorem rest_advance (h : fr.rest G = p :: l) : (fr.advance p.1 x m).rest G = l := by
  change (G.blocks fr.blk).insts.drop (fr.pos + 1) = l
  rw [← List.tail_drop, ← rest, h, List.tail_cons]

theorem step_of_exec (h : fr.rest G = p :: l) (hx : p.2.exec ext fr = some (x, m)) :
    G.step ext fr = .next (fr.advance p.1 x m) := by
  rw [Func.step, getElem?_of_rest h]
  simp [hx]

theorem step_of_exec_none (h : fr.rest G = p :: l) (hx : p.2.exec ext fr = none) :
    G.step ext fr = .stuck := by
  rw [Func.step, getElem?_of_rest h]
  simp [hx]

end Frame

namespace Func

variable {G : Func} {l t : List (ℕ × Inst)} {n k : ℕ} {r : RVal × Machine}

theorem rest_of_execs (h : fr.execs ext l = some fr') (hl : fr.rest G = l ++ t) :
    fr'.rest G = t := by
  induction l generalizing fr with
  | nil =>
      cases h
      exact hl
  | cons p l ih =>
      obtain ⟨⟨x, m⟩, -, h⟩ := Option.bind_eq_some_iff.1 h
      exact ih h (Frame.rest_advance hl)

/-- The function runs the instructions that stand before it. -/
theorem run_of_execs (h : fr.execs ext l = some fr') (hl : fr.rest G = l ++ t)
    (hr : G.run ext n fr' = some r) : G.run ext (l.length + n) fr = some r := by
  induction l generalizing fr with
  | nil =>
      cases h
      rw [List.length_nil, Nat.zero_add]
      exact hr
  | cons p l ih =>
      obtain ⟨⟨x, m⟩, hx, h⟩ := Option.bind_eq_some_iff.1 h
      rw [List.length_cons, Nat.add_right_comm, run, Frame.step_of_exec hl hx]
      exact ih h (Frame.rest_advance hl)

/-- A function that returns is not stuck in the instructions before it. -/
theorem exists_execs_of_run (hl : fr.rest G = l ++ t) (hr : G.run ext n fr = some r) :
    ∃ fr' k, fr.execs ext l = some fr' ∧ fr'.rest G = t ∧ n = l.length + k ∧
      G.run ext k fr' = some r := by
  induction l generalizing fr n with
  | nil => exact ⟨fr, n, rfl, hl, (Nat.zero_add n).symm, hr⟩
  | cons p l ih =>
      cases n with
      | zero => cases hr
      | succ n =>
          rw [run] at hr
          cases hx : p.2.exec ext fr with
          | none =>
              rw [Frame.step_of_exec_none hl hx] at hr
              cases hr
          | some xm =>
              rw [Frame.step_of_exec hl hx] at hr
              obtain ⟨fr', k, he, ht, rfl, hr'⟩ := ih (Frame.rest_advance hl) hr
              refine ⟨fr', k, ?_, ht, by rw [List.length_cons, Nat.add_right_comm], hr'⟩
              rw [Frame.execs, hx]
              exact he

end Func

/-! ## Traced functions -/

/-- The second list holds the instructions of the first, on paired operands, with
code put in between: `E zs ys` says that `ys` may be put before `zs`. -/
inductive Traced (π : ℕ → ℕ → Prop) (E : List (ℕ × Inst) → List (ℕ × Inst) → Prop) :
    List (ℕ × Inst) → List (ℕ × Inst) → Prop
  | nil : Traced π E [] []
  | cons {p p' : ℕ × Inst} {l l' : List (ℕ × Inst)} (hp : π p.1 p'.1)
      (hi : p.2.Linked (Value.Renumbered π) p'.2) (h : Traced π E l l') :
      Traced π E (p :: l) (p' :: l')
  | extra {zs ys l l' : List (ℕ × Inst)} (he : E zs ys) (h : Traced π E (zs ++ l) l') :
      Traced π E (zs ++ l) (ys ++ l')

inductive Term.Linked (S : Value → Value → Prop) : Term → Term → Prop
  | br (t : ℕ) : Linked S (.br t) (.br t)
  | condBr {c c' : Value} (t f : ℕ) (hc : S c c') : Linked S (.condBr c t f) (.condBr c' t f)
  | ret {v v' : Value} (hv : S v v') : Linked S (.ret v) (.ret v')

theorem Term.Linked.mono {S S' : Value → Value → Prop} {t t' : Term} (h : t.Linked S t')
    (hS : ∀ v v', S v v' → S' v v') : t.Linked S' t' := by
  cases h with
  | br t => exact .br t
  | condBr t f hc => exact .condBr t f (hS _ _ hc)
  | ret hv => exact .ret (hS _ _ hv)

/-- Code put in between goes through where the code after it does, and changes
nothing that is compared. -/
structure Silent (ext : Extern) (π : ℕ → ℕ → Prop)
    (E : List (ℕ × Inst) → List (ℕ × Inst) → Prop) : Prop where
  runs : ∀ {zs ys fr fr' fr₁}, E zs ys → Frame.Coupled π fr fr' → fr.execs ext zs = some fr₁ →
    ∃ fr₂, fr'.execs ext ys = some fr₂
  keeps : ∀ {zs ys fr fr' fr₂}, E zs ys → Frame.Coupled π fr fr' → fr'.execs ext ys = some fr₂ →
    fr.Coupled π fr₂

structure Func.Traces (π : ℕ → ℕ → Prop) (E : List (ℕ × Inst) → List (ℕ × Inst) → Prop)
    (F F' : Func) : Prop where
  insts : ∀ k, Traced π E (F.blocks k).insts (F'.blocks k).insts
  term : ∀ k, Option.Rel (Term.Linked (Value.Renumbered π)) (F.blocks k).term (F'.blocks k).term

namespace Traced

variable {π' : ℕ → ℕ → Prop} {E E' : List (ℕ × Inst) → List (ℕ × Inst) → Prop}
  {l l' t t' : List (ℕ × Inst)}

theorem mono (h : Traced π E l l') (hπ : ∀ i j, π i j → π' i j) (hE : ∀ zs ys, E zs ys → E' zs ys) :
    Traced π' E' l l' := by
  induction h with
  | nil => exact .nil
  | cons hp hi _ ih => exact .cons (hπ _ _ hp) (hi.mono fun _ _ hv => hv.mono hπ) ih
  | extra he _ ih => exact .extra (hE _ _ he) ih

theorem append (h : Traced π E l l') (ht : Traced π E t t') : Traced π E (l ++ t) (l' ++ t') := by
  induction h with
  | nil => exact ht
  | cons hp hi _ ih => exact .cons hp hi ih
  | extra he _ ih =>
      rw [List.append_assoc] at ih ⊢
      rw [List.append_assoc]
      exact .extra he ih

theorem of_placedAlike (h : Code.PlacedAlike π l l') : Traced π E l l' := by
  induction h with
  | nil => exact .nil
  | cons h _ ih => exact .cons h.1 h.2 ih

end Traced

theorem Func.Traces.mono {π' : ℕ → ℕ → Prop} {E E' : List (ℕ × Inst) → List (ℕ × Inst) → Prop}
    {F F' : Func} (h : Func.Traces π E F F') (hπ : ∀ i j, π i j → π' i j)
    (hE : ∀ zs ys, E zs ys → E' zs ys) : Func.Traces π' E' F F' :=
  ⟨fun k => (h.insts k).mono hπ hE,
    fun k => (h.term k).imp fun _ _ ht => ht.mono fun _ _ hv => hv.mono hπ⟩

section Run

variable {F F' : Func} {E : List (ℕ × Inst) → List (ℕ × Inst) → Prop} {p p' : ℕ × Inst}
  {l l' : List (ℕ × Inst)} {n : ℕ} {r : RVal × Machine}

/-- The next step of both frames, at linked instructions. -/
theorem Frame.Coupled.step_inst (hπ : OneToOne π) (hext : ext.Blind) (hc : fr.Coupled π fr')
    (hl : fr.rest F = p :: l) (hl' : fr'.rest F' = p' :: l') (hp : π p.1 p'.1)
    (hi : p.2.Linked (Value.Renumbered π) p'.2) :
    (∃ fr₁ fr₂, F.step ext fr = .next fr₁ ∧ F'.step ext fr' = .next fr₂ ∧ fr₁.Coupled π fr₂ ∧
        fr₁.rest F = l ∧ fr₂.rest F' = l') ∨
      F.step ext fr = .stuck ∧ F'.step ext fr' = .stuck := by
  have hx := hi.exec_rel hext hc
  cases h₁ : p.2.exec ext fr with
  | none =>
      rw [h₁] at hx
      cases h₂ : p'.2.exec ext fr' with
      | none => exact .inr ⟨step_of_exec_none hl h₁, step_of_exec_none hl' h₂⟩
      | some r =>
          rw [h₂] at hx
          cases hx
  | some xm =>
      rw [h₁] at hx
      cases h₂ : p'.2.exec ext fr' with
      | none =>
          rw [h₂] at hx
          cases hx
      | some xm' =>
          rw [h₂] at hx
          cases hx with
          | some hx =>
              refine .inl ⟨_, _, step_of_exec hl h₁, step_of_exec hl' h₂, ?_, rest_advance hl,
                rest_advance hl'⟩
              rw [← hx.1]
              exact hc.advance hπ hp _ hx.2

/-- The next step of both frames, at linked terminators. -/
theorem Frame.Coupled.step_term (ext : Extern) (hc : fr.Coupled π fr') (hF : Func.Traces π E F F')
    (hl : fr.rest F = []) (hl' : fr'.rest F' = []) :
    (∃ k, F.step ext fr = .next (fr.goto k) ∧ F'.step ext fr' = .next (fr'.goto k)) ∨
      (∃ v, F.step ext fr = .done v fr.m ∧ F'.step ext fr' = .done v fr'.m) ∨
        F.step ext fr = .stuck ∧ F'.step ext fr' = .stuck := by
  have ht := hF.term fr.blk
  simp only [Func.step, getElem?_of_rest_nil hl, getElem?_of_rest_nil hl']
  rw [← hc.blk]
  generalize (F.blocks fr.blk).term = t at ht ⊢
  generalize (F'.blocks fr.blk).term = t' at ht ⊢
  cases ht with
  | none => exact .inr (.inr ⟨rfl, rfl⟩)
  | some ht =>
      cases ht with
      | br t => exact .inl ⟨t, rfl, rfl⟩
      | condBr t f hcond =>
          simp only [hc.eval_eq hcond]
          split
          · exact .inl ⟨_, rfl, rfl⟩
          · exact .inr (.inr ⟨rfl, rfl⟩)
      | ret hv =>
          simp only [hc.eval_eq hv]
          split
          · exact .inr (.inl ⟨_, rfl, rfl⟩)
          · exact .inr (.inr ⟨rfl, rfl⟩)

/-- A function that returns is followed by one that traces it. -/
theorem Func.Traces.run (hF : Func.Traces π E F F') (hπ : OneToOne π) (hext : ext.Blind)
    (hE : Silent ext π E) (hc : fr.Coupled π fr') (ht : Traced π E (fr.rest F) (fr'.rest F'))
    (hr : F.run ext n fr = some r) : ∃ n' r', F'.run ext n' fr' = some r' ∧ SameRun r r' := by
  induction n generalizing fr fr' with
  | zero => cases hr
  | succ n ih =>
      generalize hl : fr.rest F = l at ht
      generalize hl' : fr'.rest F' = l' at ht
      induction ht generalizing fr' with
      | nil =>
          rw [Func.run] at hr
          rcases hc.step_term ext hF hl hl' with
            ⟨k, hs, hs'⟩ | ⟨v, hs, hs'⟩ | ⟨hs, -⟩
          · rw [hs] at hr
            obtain ⟨n', r', hr', hsame⟩ := ih (hc.goto k) (hF.insts k) hr
            exact ⟨n' + 1, r', by rw [Func.run, hs']; exact hr', hsame⟩
          · rw [hs] at hr
            cases hr
            exact ⟨1, (v, fr'.m), by rw [Func.run, hs'], rfl, hc.m⟩
          · rw [hs] at hr
            cases hr
      | cons hp hi h _ =>
          rw [Func.run] at hr
          rcases hc.step_inst hπ hext hl hl' hp hi with ⟨fr₁, fr₂, hs, hs', hc', h₁, h₂⟩ | ⟨hs, -⟩
          · rw [hs] at hr
            obtain ⟨n', r', hr', hsame⟩ := ih hc' (by rwa [h₁, h₂]) hr
            exact ⟨n' + 1, r', by rw [Func.run, hs']; exact hr', hsame⟩
          · rw [hs] at hr
            cases hr
      | extra he h ih' =>
          obtain ⟨fr₁, k, hx, -⟩ := exists_execs_of_run hl hr
          obtain ⟨fr₂, hy⟩ := hE.runs he hc hx
          obtain ⟨n', r', hr', hsame⟩ :=
            ih' (hE.keeps he hc hy) hl (rest_of_execs hy hl')
          exact ⟨_, r', run_of_execs hy hl' hr', hsame⟩

/-- A function that traces another one returns only where that one does. -/
theorem Func.Traces.run_back (hF : Func.Traces π E F F') (hπ : OneToOne π) (hext : ext.Blind)
    (hE : Silent ext π E) (hc : fr.Coupled π fr') (ht : Traced π E (fr.rest F) (fr'.rest F'))
    (hr : F'.run ext n fr' = some r) : ∃ n' r', F.run ext n' fr = some r' ∧ SameRun r' r := by
  -- code put in between takes steps of the second function only
  obtain ⟨N, hN⟩ : ∃ N, n ≤ N := ⟨n, le_rfl⟩
  induction N generalizing fr fr' n with
  | zero =>
      obtain rfl := Nat.le_zero.1 hN
      cases hr
  | succ N ih =>
      generalize hl : fr.rest F = l at ht
      generalize hl' : fr'.rest F' = l' at ht
      induction ht generalizing fr' n with
      | nil =>
          cases n with
          | zero => cases hr
          | succ n =>
              rw [Func.run] at hr
              rcases hc.step_term ext hF hl hl' with
                ⟨k, hs, hs'⟩ | ⟨v, hs, hs'⟩ | ⟨-, hs'⟩
              · rw [hs'] at hr
                obtain ⟨n', r', hr', hsame⟩ :=
                  ih (hc.goto k) (hF.insts k) hr (Nat.le_of_succ_le_succ hN)
                exact ⟨n' + 1, r', by rw [Func.run, hs]; exact hr', hsame⟩
              · rw [hs'] at hr
                cases hr
                exact ⟨1, (v, fr.m), by rw [Func.run, hs], rfl, hc.m⟩
              · rw [hs'] at hr
                cases hr
      | cons hp hi h _ =>
          cases n with
          | zero => cases hr
          | succ n =>
              rw [Func.run] at hr
              rcases hc.step_inst hπ hext hl hl' hp hi with
                ⟨fr₁, fr₂, hs, hs', hc', h₁, h₂⟩ | ⟨-, hs'⟩
              · rw [hs'] at hr
                obtain ⟨n', r', hr', hsame⟩ :=
                  ih hc' (by rwa [h₁, h₂]) hr (Nat.le_of_succ_le_succ hN)
                exact ⟨n' + 1, r', by rw [Func.run, hs]; exact hr', hsame⟩
              · rw [hs'] at hr
                cases hr
      | extra he h ih' =>
          obtain ⟨fr₂, k, hy, ht, rfl, hr₂⟩ := exists_execs_of_run hl' hr
          exact ih' (hE.keeps he hc hy) hr₂ ((Nat.le_add_left _ _).trans hN) hl ht

end Run

end LLVM
