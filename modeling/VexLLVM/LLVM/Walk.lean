import VexLLVM.LLVM.Compute

/-!
# Emitted code, step by step

Straight-line code is walked through with one step for each instruction placed. A step
is undefined where it accesses memory at an address that the alignment of the access
does not divide.
-/

namespace LLVM

/-- The alignment divides the address in memory. The alignment `0` says nothing. -/
def RVal.AlignedTo (al : ℕ) : RVal → Prop
  | bits z => al = 0 ∨ al ∣ (BitVec.ofNat 64 z).toNat
  | _ => True

/-- An access that is not aligned as it says. -/
def Inst.Misaligned (fr : Frame) : Inst → Prop
  | load p al | store _ p al => ∃ q, fr.eval p = some q ∧ ¬ q.AlignedTo al
  | _ => False

namespace Func

def after (ext : Extern) (G : Func) : ℕ → Frame → Option Frame
  | 0, fr => some fr
  | n + 1, fr =>
      match G.step ext fr with
      | .next fr' => after ext G n fr'
      | _ => none

/-- The next step is an access that is not aligned as it says. -/
def Undefined (G : Func) (fr : Frame) : Prop :=
  ∃ p ∈ (G.blocks fr.blk).insts[fr.pos]?, p.2.Misaligned fr

/-- The next `n` steps have no undefined behaviour. -/
def DefinedFor (ext : Extern) (G : Func) (n : ℕ) (fr : Frame) : Prop :=
  ∀ k < n, ∀ fr' ∈ G.after ext k fr, ¬ G.Undefined fr'

variable {ext : Extern} {G : Func} {fr fr' fr'' : Frame} {n k : ℕ}

theorem after_add (ext : Extern) (G : Func) (n k : ℕ) (fr : Frame) :
    G.after ext (n + k) fr = (G.after ext n fr).bind (G.after ext k) := by
  induction n generalizing fr with
  | zero => rw [Nat.zero_add]; rfl
  | succ n ih =>
      rw [Nat.add_right_comm, after, after]
      split
      · exact ih _
      · rfl

theorem reach_of_after (h : G.after ext n fr = some fr') : G.Reach ext fr fr' := by
  induction n generalizing fr with
  | zero =>
      cases h
      exact .refl
  | succ n ih =>
      rw [after] at h
      split at h
      · next fr₁ hs => exact .head hs (ih h)
      · cases h

theorem definedFor_add (h : G.after ext n fr = some fr') :
    G.DefinedFor ext (n + k) fr ↔ G.DefinedFor ext n fr ∧ G.DefinedFor ext k fr' := by
  have hlater : ∀ j, G.after ext (n + j) fr = G.after ext j fr' := fun j => by
    rw [after_add, h, Option.bind_some]
  constructor
  · refine fun hd => ⟨fun j hj => hd j (Nat.lt_add_right k hj), fun j hj fr₁ h₁ => ?_⟩
    exact hd (n + j) (Nat.add_lt_add_left hj n) fr₁ (by rwa [hlater])
  · rintro ⟨h₁, h₂⟩ j hj fr₁ hfr
    by_cases hn : j < n
    · exact h₁ j hn fr₁ hfr
    · obtain ⟨i, rfl⟩ := Nat.exists_eq_add_of_le (Nat.not_lt.1 hn)
      rw [hlater] at hfr
      exact h₂ i (Nat.lt_of_add_lt_add_left hj) fr₁ hfr

theorem definedFor_one : G.DefinedFor ext 1 fr ↔ ¬ G.Undefined fr := by
  constructor
  · exact fun h => h 0 Nat.one_pos fr rfl
  · intro h k hk fr' hfr
    cases Nat.lt_one_iff.1 hk
    cases hfr
    exact h

end Func

def Builder.pos (b : Builder) : ℕ := b.current.insts.length

/-- The code placed from `b` to `b'` takes the function from `fr` to `fr'`, and has no
undefined behaviour exactly if `p`. -/
structure Walks (ext : Extern) (G : Func) (b b' : Builder) (fr fr' : Frame) (p : Prop) : Prop where
  le : b.pos ≤ b'.pos
  after : G.after ext (b'.pos - b.pos) fr = some fr'
  defined : G.DefinedFor ext (b'.pos - b.pos) fr ↔ p
  at_ : fr'.At b'
  keeps : fr.Keeps fr' b.nextId

namespace Walks

variable {ext : Extern} {G : Func} {b b' b'' : Builder} {fr fr' fr'' : Frame} {p q : Prop}

theorem refl (hat : fr.At b) : Walks ext G b b fr fr True where
  le := Nat.le_refl _
  after := by rw [Nat.sub_self]; rfl
  defined := by
    rw [Nat.sub_self]
    exact iff_of_true (fun k hk => absurd hk (Nat.not_lt_zero k)) trivial
  at_ := hat
  keeps := .refl _ _

theorem congr (h : Walks ext G b b' fr fr' p) (hp : p ↔ q) : Walks ext G b b' fr fr' q :=
  { h with defined := h.defined.trans hp }

theorem trans (h : Walks ext G b b' fr fr' p) (h' : Walks ext G b' b'' fr' fr'' q)
    (hn : b.nextId ≤ b'.nextId) : Walks ext G b b'' fr fr'' (p ∧ q) := by
  have heq : b''.pos - b.pos = (b'.pos - b.pos) + (b''.pos - b'.pos) := by
    have := h.le
    have := h'.le
    omega
  refine ⟨h.le.trans h'.le, ?_, ?_, h'.at_, h.keeps.trans h'.keeps hn⟩
  · rw [heq, Func.after_add, h.after, Option.bind_some, h'.after]
  · rw [heq, Func.definedFor_add h.after, h.defined, h'.defined]

/-- One instruction. -/
theorem insert {i : Inst} {x : RVal} {m : Machine} (hG : Builder.Extends (b.insert i).2.func G)
    (hat : fr.At b) (hx : i.exec ext fr = some (x, m)) :
    Walks ext G b (b.insert i).2 fr (fr.advance b.nextId x m) (¬ i.Misaligned fr) := by
  have hat' : (fr.advance b.nextId x m).At (b.insert i).2 := Builder.At.insert hat
  have hpos : (b.insert i).2.pos = b.pos + 1 := by
    have h : fr.pos + 1 = (b.insert i).2.pos := hat'.pos
    rw [← h, hat.pos, Builder.pos]
  have hget := Builder.insert_getElem? i hG hat
  refine ⟨by omega, ?_, ?_, hat', Builder.advance_keeps fr b.nextId x m⟩
  · rw [hpos, Nat.add_sub_cancel_left, Func.after, Func.step, hget]
    simp [hx, Func.after]
  · rw [hpos, Nat.add_sub_cancel_left, Func.definedFor_one, Func.Undefined, hget]
    simp

theorem has_insert (fr : Frame) (b : Builder) (i : Inst) (x : RVal) (m : Machine) :
    (fr.advance b.nextId x m).Has (b.nextId + 1) (b.insert i).1 x := by
  refine ⟨Nat.lt_succ_self _, ?_⟩
  change Function.update fr.regs b.nextId (some x) b.nextId = some x
  rw [Function.update_self]

/-- The builder's answer to an instruction that has a value, and does not access memory. -/
theorem exists_create {i : Inst} {x : RVal} (hp : ∀ fr, ¬ i.Misaligned fr) (ext : Extern)
    (hG : Builder.Extends (b.create i).2.func G) (hat : fr.At b)
    (hx : i.value (fr.known b.nextId) fr.m = some x) :
    ∃ fr', Walks ext G b (b.create i).2 fr fr' True ∧ fr'.m = fr.m ∧
      fr'.Has (b.create i).2.nextId (b.create i).1 x := by
  cases hs : i.simplify? with
  | some v =>
      rw [Builder.create_of_some hs] at hG ⊢
      refine ⟨fr, .refl hat, rfl, Frame.known_eq_some.1 ?_⟩
      rw [Inst.value_eq_createEval hs] at hx
      rw [Inst.simplify?_eval hs Frame.known_of_isConst]
      exact hx
  | none =>
      rw [Builder.create_of_none hs] at hG ⊢
      have hx' : i.value fr.eval fr.m = some x :=
        Inst.value_mono (fun v y hv => (Frame.known_eq_some.1 hv).2) i hx
      have hw : Walks ext _ _ _ _ _ _ := insert hG hat (Inst.exec_of_value hs hx')
      exact ⟨_, hw.congr (iff_true_intro (hp fr)), rfl, has_insert fr b i x fr.m⟩

end Walks

namespace Code

variable {ε α β : Type}

/-- The code does not access memory. -/
def Plain : Code ε α → Prop
  | ret _ => True
  | ins i k => (∀ fr, ¬ i.Misaligned fr) ∧ ∀ v, (k v).Plain
  | fail _ => True

theorem Plain.bind {c : Code ε α} {f : α → Code ε β} (h : c.Plain) (hf : ∀ a, (f a).Plain) :
    (c >>= f).Plain := by
  induction c with
  | ret a => exact hf a
  | ins i k ih => exact ⟨h.1, fun v => ih v (h.2 v)⟩
  | fail e => exact h

theorem plain_create {i : Inst} (h : ∀ fr, ¬ i.Misaligned fr) : (create i : Code ε Value).Plain :=
  ⟨h, fun _ => trivial⟩

theorem plain_createCast (k : CastOp) (v : Value) (t : Ty) :
    (createCast k v t : Code ε Value).Plain :=
  plain_create fun _ => id

theorem plain_createBin (o : BinOp) (a b : Value) : (createBin o a b : Code ε Value).Plain :=
  plain_create fun _ => id

/-- Code that computes, and does not access memory, is walked through. -/
theorem Plain.walks {ext : Extern} {G : Func} {b b' : Builder} {fr : Frame} {a : α} {t : Code ε α}
    {Q : (Value → Option RVal) → α → Prop} (hp : t.Plain) (hrun : t.run b = .ok (a, b')) (hb : b.OK)
    (hG : Builder.Extends b'.func G) (hat : fr.At b)
    (h : ∀ ev, fr.KnownTo b.nextId ev → t.Computes ev fr.m (Q ev)) :
    ∃ fr', Walks ext G b b' fr fr' True ∧ fr'.m = fr.m ∧
      ∀ ev, fr'.KnownTo b'.nextId ev → Q ev a := by
  induction t generalizing b fr with
  | ret a' =>
      cases hrun
      exact ⟨fr, .refl hat, rfl, h⟩
  | ins i k ih =>
      have hc := Builder.Emits.create hb i
      have hr := run_emits (t := k _) hrun hc.ok
      obtain ⟨x, hx, -⟩ := h _ (Frame.KnownTo.known fr b.nextId)
      obtain ⟨fr₁, hw₁, hm₁, hv₁⟩ := Walks.exists_create hp.1 ext (hr.ext.trans hG) hat hx
      obtain ⟨fr', hw', hm', hQ⟩ := ih _ (hp.2 _) hrun hc.ok hw₁.at_
        (Computes.next h hx hm₁ hw₁.keeps hc.grows.nextId (Builder.create_ty b i) hv₁)
      exact ⟨fr', (hw₁.trans hw' hc.grows.nextId).congr (and_self_iff), hm'.trans hm₁, hQ⟩
  | fail e => cases hrun

end Code

end LLVM
