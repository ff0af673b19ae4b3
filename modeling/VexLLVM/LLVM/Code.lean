import VexLLVM.LLVM.Point
import VexLLVM.LLVM.Added

/-!
# Straight-line code

`Code` is the free monad of the builder's `create`: code that inserts
instructions into the current block and may give up. Three readings of it are
set up here. `run` performs it on a builder. `Ensures` follows every value the
builder may hand back, and keeps track of whether each `create` so far was
legal. `Computes` follows the values the instructions have at run time.
-/

namespace LLVM

inductive Code (ε α : Type) where
  | ret (a : α)
  | ins (i : Inst) (k : Value → Code ε α)
  | fail (e : ε)

namespace Code

variable {ε α β γ : Type}

protected def bind : Code ε α → (α → Code ε β) → Code ε β
  | ret a, f => f a
  | ins i k, f => ins i fun v => (k v).bind f
  | fail e, _ => fail e

instance : Monad (Code ε) where
  pure := ret
  bind := Code.bind

def create (i : Inst) : Code ε Value := ins i ret

@[simp] theorem pure_eq (a : α) : (pure a : Code ε α) = ret a := rfl

@[simp] theorem ret_bind (a : α) (f : α → Code ε β) : ret a >>= f = f a := rfl

@[simp] theorem create_bind (i : Inst) (f : Value → Code ε β) : create i >>= f = ins i f := rfl

@[simp] theorem fail_bind (e : ε) (f : α → Code ε β) : fail e >>= f = fail e := rfl

def run (b : Builder) : Code ε α → Except ε (α × Builder)
  | ret a => .ok (a, b)
  | ins i k => (k (b.create i).1).run (b.create i).2
  | fail e => .error e

/-- Every run of the code from values in `S` ends in `Q`, or gives up where `E`
allows it. `Q` sees the result and whether every `create` call was legal. -/
def Ensures (S : Value → Prop) (E : Prop) (Q : α → Prop → Prop) : Code ε α → Prop → Prop
  | ret a, ok => Q a ok
  | ins i k, ok =>
      ((∀ o ∈ i.operands, S o) ∧ i.incoming = []) ∧
        ∀ v, S v → v.ty = i.ty → (k v).Ensures S E Q (ok ∧ i.createOk = true)
  | fail _, _ => E

section Ensures

variable {S : Value → Prop} {E : Prop} {Q Q' : α → Prop → Prop}

theorem Ensures.mono {t : Code ε α} {ok : Prop} (h : t.Ensures S E Q ok)
    (hQ : ∀ a ok', Q a ok' → Q' a ok') : t.Ensures S E Q' ok := by
  induction t generalizing ok with
  | ret a => exact hQ a ok h
  | ins i k ih => exact ⟨h.1, fun v hv ht => ih v (h.2 v hv ht)⟩
  | fail e => exact h

theorem Ensures.bind {t : Code ε α} {f : α → Code ε β} {R : β → Prop → Prop} {ok : Prop}
    (h : t.Ensures S E (fun a ok' => (f a).Ensures S E R ok') ok) :
    (t >>= f).Ensures S E R ok := by
  induction t generalizing ok with
  | ret a => exact h
  | ins i k ih => exact ⟨h.1, fun v hv ht => ih v (h.2 v hv ht)⟩
  | fail e => exact h

/-- A loop keeps an invariant on the elements still to do. -/
theorem Ensures.foldlM {f : β → γ → Code ε β} {I : List γ → β → Prop → Prop}
    (hstep : ∀ c l b ok, I (c :: l) b ok → (f b c).Ensures S E (I l) ok)
    (l : List γ) {b : β} {ok : Prop} (h : I l b ok) :
    (l.foldlM f b).Ensures S E (I []) ok := by
  induction l generalizing b ok with
  | nil => exact h
  | cons c l ih =>
      rw [List.foldlM_cons]
      exact ((hstep c l b ok h).mono fun b' ok' h' => ih h').bind

end Ensures

/-- `t` computes: each instruction has a value under `ev` and the memory of `m`,
and the result satisfies `Q`. -/
def Computes (ev : Value → Option RVal) (m : Machine) (Q : α → Prop) : Code ε α → Prop
  | ret a => Q a
  | ins i k => ∃ x, i.value ev m = some x ∧
      ∀ v, v.ty = i.ty → ev v = some x → (k v).Computes ev m Q
  | fail _ => False

theorem Computes.bind {ev : Value → Option RVal} {m : Machine} {t : Code ε α}
    {f : α → Code ε β} {Q : β → Prop} (h : t.Computes ev m fun a => (f a).Computes ev m Q) :
    (t >>= f).Computes ev m Q := by
  induction t with
  | ret a => exact h
  | ins i k ih =>
      obtain ⟨x, hx, hk⟩ := h
      exact ⟨x, hx, fun v ht hv => ih v (hk v ht hv)⟩
  | fail e => exact h

/-! ## Running -/

section Run

variable {b b' : Builder} {a : α}

theorem run_bind (t : Code ε α) (f : α → Code ε β) (b : Builder) :
    (t >>= f).run b = (t.run b).bind fun r => (f r.1).run r.2 := by
  induction t generalizing b with
  | ret a => rfl
  | ins i k ih => exact ih _ _
  | fail e => rfl

/-- Every run of the code gives up. -/
def Quits (t : Code ε α) : Prop := ∀ b, ∃ e, t.run b = .error e

theorem quits_fail (e : ε) : (fail e : Code ε α).Quits := fun _ => ⟨e, rfl⟩

theorem Quits.bind {t : Code ε α} {f : α → Code ε β} (h : ∀ a, (f a).Quits) :
    (t >>= f).Quits := fun b => by
  rw [run_bind]
  cases ht : t.run b with
  | ok r => exact h r.1 r.2
  | error e => exact ⟨e, rfl⟩

theorem Quits.bind_left {t : Code ε α} (h : t.Quits) (f : α → Code ε β) : (t >>= f).Quits :=
  fun b => by
    obtain ⟨e, he⟩ := h b
    exact ⟨e, by rw [run_bind, he]; rfl⟩

theorem run_emits {t : Code ε α} (h : t.run b = .ok (a, b')) (hb : b.OK) : b.Emits b' := by
  induction t generalizing b with
  | ret a' =>
      cases h
      exact .refl hb
  | ins i k ih =>
      have hc := Builder.Emits.create hb i
      exact hc.trans (ih _ h hc.ok)
  | fail e => cases h

theorem create_insertBlock (b : Builder) (i : Inst) :
    (b.create i).2.insertBlock = b.insertBlock := by
  unfold Builder.create
  split <;> rfl

theorem create_nblocks (b : Builder) (i : Inst) :
    (b.create i).2.func.nblocks = b.func.nblocks := by
  unfold Builder.create
  split <;> rfl

/-- Straight-line code stays in its block. -/
theorem run_insertBlock {t : Code ε α} (h : t.run b = .ok (a, b')) :
    b'.insertBlock = b.insertBlock := by
  induction t generalizing b with
  | ret a' =>
      cases h
      rfl
  | ins i k ih => rw [ih _ h, create_insertBlock]
  | fail e => cases h

theorem run_nblocks {t : Code ε α} (h : t.run b = .ok (a, b')) :
    b'.func.nblocks = b.func.nblocks := by
  induction t generalizing b with
  | ret a' =>
      cases h
      rfl
  | ins i k ih => rw [ih _ h, create_nblocks]
  | fail e => cases h

/-- `S` holds of the constants and of what stands in the current block of `b`. -/
structure Covers (b : Builder) (S : Value → Prop) : Prop where
  const : ∀ v : Value, v.isConst = true → S v
  inst : ∀ id i, (id, i) ∈ b.current.insts → S (.inst id i.ty)

theorem create_covers {i : Inst} {S : Value → Prop} (hS : Covers (b.create i).2 S)
    (ho : ∀ o ∈ i.operands, S o) : S (b.create i).1 := by
  cases hs : i.simplify? with
  | some v =>
      rw [Builder.create_of_some hs]
      rcases (Inst.simplify?_spec hs).1 with hv | hv
      · exact ho v hv
      · exact hS.const v hv
  | none =>
      rw [Builder.create_of_none hs] at hS ⊢
      refine hS.inst b.nextId i ?_
      rw [Builder.current, Builder.insert_insertBlock, Builder.insert_block, if_pos rfl]
      simp

theorem Covers.of_emits {S : Value → Prop} (hS : Covers b' S) (h : b.Emits b')
    (hk : b'.insertBlock = b.insertBlock) : Covers b S where
  const := hS.const
  inst id i hm := by
    refine hS.inst id i ?_
    rw [Builder.current, hk]
    exact (h.ext b.insertBlock).1.subset hm

/-- A legal `create` adds only well-formed instructions, and an illegal one adds
one that is not. -/
theorem createOk_iff_added (hb : b.OK) (i : Inst) :
    i.createOk = true ↔ ∀ k j, Builder.Added b (b.create i).2 k j → j.WF = true := by
  cases hs : i.simplify? with
  | some v =>
      have hok := (Inst.simplify?_spec hs).2.2
      simp [Builder.added_create hb, hs, hok]
  | none => simp [Builder.added_create hb, hs, Inst.wf_of_not_simplify hs]

/-- What `Ensures` says about a run: the result satisfies `Q`, together with
whether everything added is well formed; and all that is used is in `S`, in the
current block. -/
theorem Ensures.run {S : Value → Prop} {E : Prop} {Q : α → Prop → Prop} {t : Code ε α}
    {ok : Prop} (h : t.Ensures S E Q ok) (hrun : t.run b = .ok (a, b')) (hb : b.OK)
    (hS : Covers b' S) :
    (∃ ok', Q a ok' ∧ (ok' ↔ ok ∧ ∀ k i, Builder.Added b b' k i → i.WF = true)) ∧
      ∀ v k, Builder.Uses b b' v k → S v ∧ k = b.insertBlock := by
  induction t generalizing b ok with
  | ret a' =>
      cases hrun
      refine ⟨⟨ok, h, ?_⟩, fun v k hu => (hu.irrefl hb).elim⟩
      exact ⟨fun hok => ⟨hok, fun k i ha => (Builder.Added.of_id_lt hb ha).elim⟩, And.left⟩
  | ins i k ih =>
      have hc := Builder.Emits.create hb i
      have hr := run_emits (t := k _) hrun hc.ok
      have hv : S (b.create i).1 :=
        create_covers (hS.of_emits hr (run_insertBlock (t := k _) hrun)) h.1.1
      obtain ⟨⟨ok', hQ, hiff⟩, huse⟩ :=
        ih _ (h.2 _ hv (Builder.create_ty b i)) hrun hc.ok
      refine ⟨⟨ok', hQ, hiff.trans ?_⟩, ?_⟩
      · rw [and_assoc, createOk_iff_added hb]
        refine and_congr_right fun _ => ⟨fun ⟨h₁, h₂⟩ k j ha => ?_, fun h' => ⟨?_, ?_⟩⟩
        · exact ((Builder.added_trans hc.grows.nextId hr).1 ha).elim (h₁ k j) (h₂ k j)
        · exact fun k j ha => h' k j (ha.mono hr.ext)
        · exact fun k j ha => h' k j (ha.of_le hc.grows.nextId)
      · intro v k hu
        rcases hu.split hr.ext hr.grows with hu | hu
        · rcases Builder.uses_create hb hu with ⟨hv, hk⟩ | hv
          · exact ⟨h.1.1 v hv, hk⟩
          · rw [h.1.2] at hv
            cases hv
        · have h' := huse v k hu
          rwa [create_insertBlock] at h'
  | fail e => cases hrun

/-- Straight-line code adds no phis. -/
theorem Ensures.run_incoming {S : Value → Prop} {E : Prop} {Q : α → Prop → Prop} {t : Code ε α}
    {ok : Prop} (h : t.Ensures S E Q ok) (hrun : t.run b = .ok (a, b')) (hb : b.OK)
    (hS : ∀ v, S v) {k : ℕ} {j : Inst} (hj : Builder.Added b b' k j) : j.incoming = [] := by
  induction t generalizing b ok with
  | ret a' =>
      cases hrun
      exact (Builder.Added.of_id_lt hb hj).elim
  | ins i c ih =>
      have hc := Builder.Emits.create hb i
      have hr := run_emits (t := c _) hrun hc.ok
      rcases hj.split hr.grows with hj | hj
      · obtain ⟨_, _, rfl⟩ := (Builder.added_create hb).1 hj
        exact h.1.2
      · exact ih _ (h.2 _ (hS _) (Builder.create_ty b i)) hrun hc.ok hj
  | fail e => cases hrun

/-- Code that gives up only where `E` allows it. -/
theorem Ensures.run_error {E : Prop} {Q : α → Prop → Prop} {t : Code ε α} {ok : Prop}
    (h : t.Ensures (fun _ => True) E Q ok) {e : ε} (hrun : t.run b = .error e) : E := by
  induction t generalizing b ok with
  | ret a' => cases hrun
  | ins i k ih => exact ih _ (h.2 _ trivial (Builder.create_ty b i)) hrun
  | fail e' => exact h

/-- What is computed after an instruction whose value the frame has. -/
theorem Computes.next {i : Inst} {k : Value → Code ε α} {fr fr₁ : Frame} {n n₁ : ℕ} {v : Value}
    {x : RVal} {Q : (Value → Option RVal) → α → Prop}
    (h : ∀ ev, fr.KnownTo n ev → (ins i k).Computes ev fr.m (Q ev))
    (hx : i.value (fr.known n) fr.m = some x) (hm : fr₁.m = fr.m) (hk : fr.Keeps fr₁ n)
    (hn : n ≤ n₁) (ht : v.ty = i.ty) (hv : fr₁.Has n₁ v x) :
    ∀ ev, fr₁.KnownTo n₁ ev → (k v).Computes ev fr₁.m (Q ev) := by
  intro ev hev
  obtain ⟨x', hx', hk'⟩ := h ev (hev.keeps hk hn)
  have hle : ∀ v y, fr.known n v = some y → ev v = some y := fun v y hy =>
    hev.keeps hk hn v y (Frame.known_eq_some.1 hy)
  have heq : x' = x := by
    rw [Inst.value_mono hle i hx] at hx'
    exact (Option.some.inj hx').symm
  subst heq
  rw [hm]
  exact hk' v ht (hev _ _ hv)

/-- What `Computes` says about a run: the finished function reaches the end of
the code with the result known. -/
theorem Computes.run {G : Func} {ext : Extern} {fr : Frame} {t : Code ε α}
    {Q : (Value → Option RVal) → α → Prop} (hrun : t.run b = .ok (a, b')) (hb : b.OK)
    (hG : Builder.Extends b'.func G) (hat : fr.At b)
    (h : ∀ ev, fr.KnownTo b.nextId ev → t.Computes ev fr.m (Q ev)) :
    ∃ fr', G.Reach ext fr fr' ∧ fr'.At b' ∧ fr'.m = fr.m ∧ fr.Keeps fr' b.nextId ∧
      ∀ ev, fr'.KnownTo b'.nextId ev → Q ev a := by
  induction t generalizing b fr with
  | ret a' =>
      cases hrun
      exact ⟨fr, .refl, hat, rfl, .refl _ _, h⟩
  | ins i k ih =>
      have hc := Builder.Emits.create hb i
      have hr := run_emits (t := k _) hrun hc.ok
      obtain ⟨x, hx, -⟩ := h _ (Frame.KnownTo.known fr b.nextId)
      obtain ⟨fr₁, hr₁, hat₁, hm₁, hk₁, hv₁⟩ :=
        Builder.create_reach ext (hr.ext.trans hG) hat hx
      obtain ⟨fr', hr', hat', hm', hk', hQ⟩ := ih _ hrun hc.ok hat₁
        (Computes.next h hx hm₁ hk₁ hc.grows.nextId (Builder.create_ty b i) hv₁)
      exact ⟨fr', hr₁.trans hr', hat', hm'.trans hm₁, hk₁.trans hk' hc.grows.nextId, hQ⟩
  | fail e => cases hrun

end Run

end Code

end LLVM
