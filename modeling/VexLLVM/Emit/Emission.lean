import VexLLVM.Lib.Triple
import VexLLVM.Emit.OpBlur
import VexLLVM.Emit.GenLLVM

/-!
# What a computation of the generator emits

`Emission` is the judgement the types of emitted code are followed with: when a
computation of the generator fails, what it hands back, what it records for the
temporaries, and exactly when the instructions it adds are well formed. Values
are followed up to the numbers of instructions.
-/

namespace LLVM

/-- The instruction is well formed; for `all = false` only phis are looked at. -/
def Inst.legal (all : Bool) (i : Inst) : Bool := if all then i.WF else i.phiOK

def Inst.createLegal (all : Bool) (i : Inst) : Bool := if all then i.createOk else i.phiOK

theorem Inst.incoming_of_simplify? {i : Inst} {v : Value} (h : i.simplify? = some v) :
    i.incoming = [] := by
  cases i with
  | phi t inc => simp [simplify?, sameTypeCast?, constFold?, eval] at h
  | _ => rfl

end LLVM

namespace VexLLVM

open LLVM LLVM.Code Vex StateExcept

namespace GenState

/-- The values recorded for the temporaries, up to the numbers of instructions. -/
def table (σ : GenState) : IRTemp → Option Value := fun t => (σ.values t).map Value.blur

/-- The builder's invariant, and that the cached casts have the types they are
filed under. -/
structure OK (σ : GenState) : Prop where
  builder : σ.toBuilder.OK
  casts : ∀ t p, σ.ctxcastMap t = some p → p.ty = t

end GenState

/-- From `σ` to `σ'` the generator emitted code that is legal exactly if `p`, and
ended with the temporaries `ρ`. -/
structure Lays (all : Bool) (σ σ' : GenState) (ρ : IRTemp → Option Value) (p : Prop) : Prop where
  ok : σ'.OK
  emits : σ.toBuilder.Emits σ'.toBuilder
  table : σ'.table = ρ
  legal : (∀ k i, Builder.Added σ.toBuilder σ'.toBuilder k i → i.legal all = true) ↔ p

/-- From temporaries `ρ` the computation fails exactly if `F`; else its result is
as `out` says, and it lays code that is legal exactly if `p`, ending with the
temporaries `ρ'`. -/
def Emission {α : Type} (all : Bool) (ρ : IRTemp → Option Value) (m : EmitM α) (F : Prop)
    (out : α → Prop) (ρ' : IRTemp → Option Value) (p : Prop) : Prop :=
  ∀ σ : GenState, σ.OK → σ.table = ρ →
    Exact (fun s => s = σ) m F fun a σ' => out a ∧ Lays all σ σ' ρ' p

variable {α β : Type} {all : Bool} {σ σ' σ'' : GenState} {ρ ρ' ρ'' : IRTemp → Option Value}
  {m : EmitM α} {F F' p p' : Prop} {out out' : α → Prop} {out₂ : β → Prop}

theorem Lays.refl (h : σ.OK) : Lays all σ σ σ.table True where
  ok := h
  emits := .refl h.builder
  table := rfl
  legal := iff_true_intro fun _ _ ha => (Builder.Added.of_id_lt h.builder ha).elim

theorem Lays.trans (h : Lays all σ σ' ρ p) (h' : Lays all σ' σ'' ρ' p') :
    Lays all σ σ'' ρ' (p ∧ p') where
  ok := h'.ok
  emits := h.emits.trans h'.emits
  table := h'.table
  legal := by
    rw [← h.legal, ← h'.legal]
    constructor
    · exact fun ha => ⟨fun k i hi => ha k i (hi.mono h'.emits.ext),
        fun k i hi => ha k i (hi.of_le h.emits.grows.nextId)⟩
    · rintro ⟨h₁, h₂⟩ k i hi
      exact (hi.split h'.emits.grows).elim (h₁ k i) (h₂ k i)

theorem Lays.congr (h : Lays all σ σ' ρ p) (hp : p ↔ p') : Lays all σ σ' ρ p' :=
  { h with legal := h.legal.trans hp }

/-! ## The rules -/

theorem Emission.conseq (h : Emission all ρ m F out ρ' p) (hF : F ↔ F')
    (ho : ∀ a, out a → out' a) (hp : p ↔ p') : Emission all ρ m F' out' ρ' p' :=
  fun σ hσ hρ => (h σ hσ hρ).conseq (fun _ => id) hF fun a _ ⟨ha, hl⟩ => ⟨ho a ha, hl.congr hp⟩

theorem Emission.post (h : Emission all ρ m F out ρ' p) (ho : ∀ a, out a → out' a) :
    Emission all ρ m F out' ρ' p :=
  h.conseq Iff.rfl ho Iff.rfl

theorem Emission.congr (h : Emission all ρ m F out ρ' p) (hF : F ↔ F') (hp : p ↔ p') :
    Emission all ρ m F' out ρ' p' :=
  h.conseq hF (fun _ => id) hp

/-- What is said of the code counts where the computation does not fail. -/
theorem Emission.congr_of_ok (h : Emission all ρ m F out ρ' p) (hp : ¬ F → (p ↔ p')) :
    Emission all ρ m F out ρ' p' := by
  refine fun σ hσ hρ s hs => ⟨fun a s' hrun => ?_, (h σ hσ hρ s hs).2⟩
  obtain ⟨hF, ha, hl⟩ := (h σ hσ hρ s hs).1 a s' hrun
  exact ⟨hF, ha, hl.congr (hp hF)⟩

theorem Emission.bind {f : α → EmitM β} (h : Emission all ρ m F out ρ' p)
    (hf : ∀ a, out a → Emission all ρ' (f a) F' out₂ ρ'' p') :
    Emission all ρ (m >>= f) (F ∨ F') out₂ ρ'' (p ∧ p') := by
  intro σ hσ hρ
  refine (h σ hσ hρ).bind fun a s ⟨ha, hs⟩ => ?_
  exact ((hf a ha s hs.ok hs.table).post fun b s' ⟨hb, hl⟩ => ⟨hb, hs.trans hl⟩) s rfl

/-- `bind`, with what is to be shown of the rest written out. -/
theorem Emission.bind_to {f : α → EmitM β} (h : Emission all ρ m F out ρ' p) (F' : Prop)
    (out₂ : β → Prop) (p' : Prop)
    (hf : ∀ a, out a → Emission all ρ' (f a) F' out₂ ρ'' p') :
    Emission all ρ (m >>= f) (F ∨ F') out₂ ρ'' (p ∧ p') :=
  h.bind hf

/-- Where there is a result, the computation did not fail. -/
theorem Emission.and_ok (h : Emission all ρ m F out ρ' p) :
    Emission all ρ m F (fun a => ¬ F ∧ out a) ρ' p := by
  refine fun σ hσ hρ s hs => ⟨fun a s' hrun => ?_, (h σ hσ hρ s hs).2⟩
  obtain ⟨hF, ha, hl⟩ := (h σ hσ hρ s hs).1 a s' hrun
  exact ⟨hF, ⟨hF, ha⟩, hl⟩

/-- A first part that cannot fail and lays only legal code. -/
theorem Emission.bind_safe {f : α → EmitM β} (h : Emission all ρ m False out ρ' True)
    (hf : ∀ a, out a → Emission all ρ' (f a) F out₂ ρ'' p) :
    Emission all ρ (m >>= f) F out₂ ρ'' p :=
  (h.bind hf).congr (by simp) (by simp)

theorem Emission.map (g : α → β) (h : Emission all ρ m F out ρ' p) :
    Emission all ρ (g <$> m) F (fun b => ∃ a, out a ∧ b = g a) ρ' p := by
  rw [← bind_pure_comp]
  refine fun σ hσ hρ => ((h σ hσ hρ).bind fun a => .pure fun s hs => ?_).conseq (fun _ => id)
    (by simp) fun _ _ => id
  exact ⟨⟨a, hs.1, rfl⟩, hs.2⟩

/-- Where it does not fail, it has a result. -/
theorem Emission.exists_ok (h : Emission all ρ m F out ρ' p) (hσ : σ.OK) (hρ : σ.table = ρ)
    (hF : ¬ F) : ∃ a σ', m σ = .ok (a, σ') := by
  cases hm : m σ with
  | ok r => exact ⟨r.1, r.2, rfl⟩
  | error e => exact (hF ((h σ hσ hρ σ rfl).2 e hm)).elim

theorem emission_pure {a : α} (h : out a) : Emission all ρ (pure a) False out ρ True := by
  intro σ hσ hρ
  refine .pure fun s hs => ⟨h, ?_⟩
  rw [hs, ← hρ]
  exact .refl hσ

theorem emission_throw (e : EmitError) : Emission all ρ (throw e : EmitM α) True out ρ' p :=
  fun _ _ _ => .throw

theorem emission_throw_bind (e : EmitError) (f : α → EmitM β) :
    Emission all ρ (throw e >>= f) True out₂ ρ' p := by
  refine fun σ _ _ s hs => ⟨fun b t h => ?_, fun _ _ => trivial⟩
  obtain ⟨a, u, h, -⟩ := bind_eq_ok h
  cases h

/-- The result of straight-line code is its draft. -/
theorem emission_code {c : OpCode} {t : Ty} (h : Gives (fun _ => True) F t p c)
    (hq : F → c.Quits) :
    Emission all ρ (code c) F
      (fun v => v.ty = t ∧ ∀ c', Alike SameBlur c c' → c'.draft = .ok v.blur) ρ
      (all = true → p) := by
  rintro σ hσ rfl s rfl
  unfold code
  constructor
  · intro v s' hs
    cases hrun : c.run s.toBuilder with
    | error e =>
        rw [hrun] at hs
        cases hs
    | ok r =>
        obtain ⟨v', b⟩ := r
        rw [hrun] at hs
        cases hs
        obtain ⟨⟨ok', ⟨-, hty, hiff⟩, hadd⟩, -⟩ :=
          (h True).run hrun hσ.builder ⟨fun _ _ => trivial, fun _ _ _ => trivial⟩
        refine ⟨fun hF => ?_, ⟨hty, fun c' hc => hc.draft_ok hrun⟩, ?_⟩
        · obtain ⟨e, he⟩ := hq hF s.toBuilder
          rw [hrun] at he
          cases he
        · have he := run_emits hrun hσ.builder
          refine ⟨⟨he.ok, hσ.casts⟩, he, rfl, ?_⟩
          rw [hiff, true_and, true_and] at hadd
          cases all with
          | true => exact hadd.symm.trans ⟨fun hp _ => hp, fun hp => hp rfl⟩
          | false =>
              refine iff_of_true (fun k i hi => Inst.phiOK_of_incoming ?_) (fun hc => by cases hc)
              exact (h True).run_incoming hrun hσ.builder (fun _ => trivial) hi
  · intro e he
    cases hrun : c.run s.toBuilder with
    | error e' => exact (h True).run_error hrun
    | ok r =>
        rw [hrun] at he
        cases he

/-- One instruction. -/
theorem emission_create (i : Inst) :
    Emission all ρ (code (create i)) False (fun v => v.blur = i.result ∧ v.ty = i.ty) ρ
      (i.createLegal all = true) := by
  rintro σ hσ rfl s rfl
  refine ⟨fun v s' hs => ?_, fun e he => by cases he⟩
  cases hs
  have he := Builder.Emits.create hσ.builder i
  refine ⟨id, ⟨s.toBuilder.create_blur i, s.toBuilder.create_ty i⟩, ⟨he.ok, hσ.casts⟩, he, rfl, ?_⟩
  change (∀ k j, Builder.Added s.toBuilder (s.toBuilder.create i).2 k j → _) ↔ _
  cases all with
  | true => exact (createOk_iff_added hσ.builder i).symm
  | false =>
      simp only [Builder.added_create hσ.builder, Inst.createLegal, Inst.legal]
      constructor
      · intro h
        cases hs : i.simplify? with
        | some v => exact Inst.phiOK_of_incoming (Inst.incoming_of_simplify? hs)
        | none => exact h _ i ⟨hs, rfl, rfl⟩
      · rintro h k j ⟨-, -, rfl⟩
        exact h

theorem emission_getRegValue (t : IRTemp) :
    Emission all ρ (getRegValue t) (ρ t = none) (fun v => ρ t = some v.blur) ρ True := by
  rintro σ hσ rfl s rfl
  unfold getRegValue
  constructor
  · intro v s' hs
    cases hv : s.values t with
    | none =>
        rw [hv] at hs
        cases hs
    | some w =>
        rw [hv] at hs
        cases hs
        have ht : s.table t = some v.blur := by simp [GenState.table, hv]
        have hl : Lays all s s s.table True := .refl hσ
        exact ⟨by simp [ht], ht, ⟨hσ.1, hσ.2⟩, hl.emits, rfl, hl.legal⟩
  · intro e he
    cases hv : s.values t with
    | none => simp [GenState.table, hv]
    | some w =>
        rw [hv] at he
        cases he

theorem createLegal_iff {i : Inst} (hi : i.incoming = []) :
    i.createLegal all = true ↔ (all = true → i.createOk = true) := by
  cases all with
  | true => simp [Inst.createLegal]
  | false => simp [Inst.createLegal, Inst.phiOK_of_incoming hi]

theorem emission_setRegValue (t : IRTemp) (v : Value) :
    Emission all ρ (setRegValue t v) (ρ t ≠ none) (fun _ => True)
      (Function.update ρ t (some v.blur)) True := by
  rintro σ hσ rfl s rfl
  unfold setRegValue
  constructor
  · intro u s' hs
    cases hv : s.values t with
    | some w =>
        rw [hv] at hs
        cases hs
    | none =>
        rw [hv] at hs
        cases hs
        have hl : Lays all s s s.table True := .refl hσ
        refine ⟨by simp [GenState.table, hv], trivial, ⟨hσ.1, hσ.2⟩, hl.emits, ?_, hl.legal⟩
        funext t'
        simp only [GenState.table, Function.update_apply]
        split <;> rfl
  · intro e he
    cases hv : s.values t with
    | some w => simp [GenState.table, hv]
    | none =>
        rw [hv] at he
        cases he

/-- A computation that starts with the LLVM type of a VEX type. -/
theorem emission_llvmTy_bind {t : IRType} {f : Ty → EmitM β} {F p : Ty → Prop}
    (h : ∀ t', vexTy2LLVM t = some t' → Emission all ρ (f t') (F t') out₂ ρ' (p t')) :
    Emission all ρ (llvmTy t >>= f) (∀ t', vexTy2LLVM t = some t' → F t') out₂ ρ'
      (∀ t', vexTy2LLVM t = some t' → p t') := by
  unfold llvmTy
  cases ht : vexTy2LLVM t with
  | none => exact (emission_throw_bind _ _).congr (by simp) Iff.rfl
  | some t' => exact (h t' ht).congr (by simp) (by simp)

/-- An update of the caches. -/
theorem emission_modify {g : GenState → GenState}
    (hb : ∀ σ, (g σ).toBuilder = σ.toBuilder) (hv : ∀ σ, (g σ).values = σ.values)
    (hc : ∀ σ, σ.OK → ∀ t p, (g σ).ctxcastMap t = some p → p.ty = t) :
    Emission all ρ (modify g) False (fun _ => True) ρ True := by
  rintro σ hσ rfl s rfl
  refine ⟨fun u s' hs => ?_, fun e he => by cases he⟩
  cases hs
  have hl : Lays all s s s.table True := .refl hσ
  refine ⟨id, trivial, ⟨by rw [hb]; exact hσ.builder, hc s hσ⟩, ?_, ?_, ?_⟩
  · rw [hb]
    exact hl.emits
  · unfold GenState.table
    rw [hv]
  · rw [hb]
    exact hl.legal

theorem emission_code_ret {out : Value → Prop} {v : Value} (h : out v) :
    Emission all ρ (code (ret v)) False out ρ True :=
  emission_pure h

theorem emission_code_fail {out : Value → Prop} (e : EmitError) :
    Emission all ρ (code (.fail e)) True out ρ' p := by
  refine fun σ _ _ s hs => ⟨fun b t h => ?_, fun _ _ => trivial⟩
  cases h

/-- A list of computations: fails where one of them does, and collects what they
hand back. -/
theorem emission_emitAll {γ : Type} (l : List γ) {f : γ → EmitM α} {F p : γ → Prop}
    {out : γ → α → Prop} (h : ∀ c ∈ l, Emission all ρ (f c) (F c) (out c) ρ (p c)) :
    Emission all ρ (emitAll (l.map f)) (∃ c ∈ l, F c) (List.Forall₂ out l) ρ
      (∀ c ∈ l, p c) := by
  induction l with
  | nil => exact (emission_pure .nil).congr (by simp) (by simp)
  | cons c l ih =>
      have ih := ih fun d hd => h d (List.mem_cons_of_mem c hd)
      refine ((h c List.mem_cons_self).bind fun a ha => ih.bind fun as has =>
        emission_pure (.cons ha has)).congr ?_ ?_
      · simp
      · simp

/-! ## Accesses to the guest -/

theorem castOk_bitcast_ptr (s t : Ty) : castOk .bitcast (.ptr s) (.ptr t) = true := by
  unfold castOk
  rw [Bool.or_eq_true]
  exact .inr rfl

theorem emission_code_ty {c : OpCode} {t : Ty} {p : Prop} (h : Gives (fun _ => True) False t p c) :
    Emission all ρ (code c) False (fun v => v.ty = t) ρ (all = true → p) :=
  (emission_code h False.elim).post fun _ hv => hv.1

theorem emission_code_legal {c : OpCode} {t : Ty} {p : Prop}
    (h : Gives (fun _ => True) False t p c) (hp : p) :
    Emission all ρ (code c) False (fun v => v.ty = t) ρ True :=
  (emission_code_ty h).congr Iff.rfl (iff_true_intro fun _ => hp)

namespace GenLLVM

variable (gen : GenLLVM)

theorem emission_getCtxPtr (t : Ty) :
    Emission all ρ (gen.getCtxPtr (.ptr t)) False (fun p => p.ty = .ptr t) ρ True := by
  have hcast : Emission all ρ (code (createBitCast gen.curGuestCtx (.ptr t))) False
      (fun p => p.ty = .ptr t) ρ True :=
    emission_code_legal (gives_bitCast _ trivial rfl) (castOk_bitcast_ptr _ t)
  intro σ hσ hρ
  refine .get_bind fun s hs => ?_
  subst hs
  split
  · exact hcast s hσ hρ
  · cases hm : s.ctxcastMap (.ptr t) with
    | some p => exact (emission_pure (hσ.casts _ _ hm) : Emission all ρ (pure p) _ _ _ _) s hσ hρ
    | none =>
        have hnew : Emission all ρ (do
            let p ← code (createBitCast gen.curGuestCtx (.ptr t))
            modify fun σ =>
              { σ with ctxcastMap := Function.update σ.ctxcastMap (.ptr t) (some p) }
            pure p) False (fun p => p.ty = .ptr t) ρ True :=
          hcast.bind_safe fun p hp => .bind_safe
            (emission_modify (fun _ => rfl) (fun _ => rfl) (fun σ hσ t' p' hp' => by
              simp only [Function.update_apply] at hp'
              split at hp'
              · next heq =>
                  cases hp'
                  rw [hp, heq]
              · exact hσ.casts t' p' hp'))
            fun _ _ => emission_pure hp
        exact hnew s hσ hρ

theorem emission_getCtxTyGEP {off : Value} {w : ℕ} (t : Ty) (ho : off.ty = .int w) :
    Emission all ρ (gen.getCtxTyGEP off t) False (fun p => p.ty = .ptr t) ρ True :=
  (gen.emission_getCtxPtr t).bind_safe fun p hp => emission_code_legal
    (gives_create (fun _ _ => trivial) rfl hp (iff_true_intro (by
      simp [Inst.createOk, Inst.sameTypeCast?, Inst.WF, hp, ho]))) trivial

theorem emission_getCtxByteGEP (off : ℕ) (t : Ty) :
    Emission all ρ (gen.getCtxByteGEP off t) (t.bytes = 0) (fun p => p.ty = .ptr t) ρ True := by
  have hgep : Emission all ρ (gen.getCtxTyGEP (constInt 32 (off / t.bytes)) t) False
      (fun p => p.ty = .ptr t) ρ True := gen.emission_getCtxTyGEP t (ty_constInt _ _)
  have hnew : Emission all ρ (do
      let gep ← gen.getCtxTyGEP (constInt 32 (off / t.bytes)) t
      modify fun σ =>
        { σ with gepbyteMap := Function.update σ.gepbyteMap (off, t.bytes) (some gep) }
      pure gep) False (fun p => p.ty = .ptr t) ρ True :=
    hgep.bind_safe fun p hp =>
      .bind_safe (emission_modify (fun _ => rfl) (fun _ => rfl) fun _ hσ => hσ.casts)
        fun _ _ => emission_pure hp
  unfold getCtxByteGEP
  dsimp only
  split
  · next h0 => exact (emission_throw_bind _ _).congr (iff_of_true trivial h0) Iff.rfl
  · next h0 =>
      refine Emission.congr (F := False) (p := True) (fun σ hσ hρ => ?_)
        (iff_of_false id h0) Iff.rfl
      refine .get_bind fun s hs => ?_
      subst hs
      cases hm : s.gepbyteMap (off, t.bytes) with
      | none => exact hnew s hσ hρ
      | some p =>
          dsimp only
          split
          · next hp => exact (emission_pure hp.2 : Emission all ρ (pure p) _ _ _ _) s hσ hρ
          · exact hgep s hσ hρ

theorem load_createOk {p : Value} {t : Ty} (hp : p.ty = .ptr t) (al : ℕ) :
    (Inst.load p al).ty = t ∧ (Inst.load p al).createOk = true := by
  simp [Inst.ty, Inst.createOk, Inst.sameTypeCast?, Inst.WF, hp]

theorem result_load (p : Value) (al : ℕ) :
    (Inst.load p al).result = .inst 0 (Inst.load p al).ty :=
  Inst.result_of_not_simplify (by
    simp [Inst.simplify?, Inst.sameTypeCast?, Inst.constFold?, Inst.eval])

/-- A load through a pointer of the right type. -/
theorem emission_loadInst {p : Value} {t : Ty} (hp : p.ty = .ptr t) (al : ℕ) :
    Emission all ρ (code (create (.load p al))) False (fun v => v.blur = .inst 0 t) ρ True := by
  obtain ⟨hty, hok⟩ := load_createOk hp al
  refine (emission_create _).conseq Iff.rfl (fun v hv => ?_)
    (iff_true_intro ((createLegal_iff rfl).2 fun _ => hok))
  rw [hv.1, result_load, hty]

/-- A read of the guest context fails for a type without bytes. -/
theorem emission_readCtx (off : ℕ) (ty : IRType) :
    Emission all ρ (gen.readCtx off ty) (∀ t, vexTy2LLVM ty = some t → t.bytes = 0)
      (fun v => v.blur = .inst 0 ((vexTy2LLVM ty).getD .void)) ρ True := by
  refine (emission_llvmTy_bind (p := fun _ => True) fun t ht =>
    ((gen.emission_getCtxByteGEP off t).bind fun p hp => emission_loadInst hp 0).conseq
      (by simp) (fun v hv => ?_) (by simp)).congr Iff.rfl (by simp)
  rw [hv, ht]
  rfl

theorem emission_getCtxElem (off : ℕ) (bias : ℤ) (len : ℕ) (ix : Value) (t : Ty) :
    Emission all ρ (gen.getCtxElem off bias len ix t) (t.bytes = 0 ∨ off % t.bytes ≠ 0)
      (fun p => p.ty = .ptr t) ρ (all = true → castOk .bitcast ix.ty (.int 32) = true) := by
  unfold getCtxElem
  split
  · next h => exact (emission_throw_bind _ _).congr (iff_of_true trivial h) Iff.rfl
  · next h =>
      refine ((emission_code_ty ((gives_bitCast (.int 32) trivial rfl).bind fun i _ ti =>
        (gives_bin .add trivial trivial ti (ty_constInt _ _)).bind fun a _ ta =>
          (gives_bin .urem trivial trivial ta (ty_constInt _ _)).bind fun b _ tb =>
            gives_bin .add trivial trivial tb (ty_constInt _ _))).bind fun o ho =>
              gen.emission_getCtxTyGEP t ho).congr ?_ ?_
      · exact iff_of_false (by simp) h
      · rw [and_true]
        exact imp_congr_right fun _ => and_iff_left ⟨⟨rfl, rfl⟩, ⟨rfl, rfl⟩, rfl, rfl⟩

/-- An indexed read. -/
theorem emission_readCtxI (off : ℕ) (bias : ℤ) (len : ℕ) (ix : Value) (t : Ty) :
    Emission all ρ (gen.readCtxI off bias len ix t) (t.bytes = 0 ∨ off % t.bytes ≠ 0)
      (fun v => v.blur = .inst 0 t) ρ
      (all = true → castOk .bitcast ix.ty (.int 32) = true) :=
  ((gen.emission_getCtxElem off bias len ix t).bind fun _ hp => emission_loadInst hp 0).congr
    (by simp) (by simp)

/-! ### Loads -/

def hostAddrDraft (a : Value) : Value :=
  if gen.is32Bit then (Inst.cast .zext a (.int 64)).result else a

/-- The draft of what a load gives: for an address in the system page a constant. -/
def loadDraft (a : Value) (t : Ty) : Value :=
  (gen.fakeRead (gen.hostAddrDraft a)).elim (.inst 0 t) fun x => constInt t.bits x.toNat

def loadFails (a : Value) (t : Ty) : Bool :=
  (gen.fakeRead (gen.hostAddrDraft a)).isSome && !decide (0 < t.bits ∧ t.bits ≤ 64)

def ptrFits (s t : Ty) : Bool := (!gen.relocates || s == .int 64) && castOk .inttoptr s (.ptr t)

def loadFits (a : Value) (t : Ty) : Bool :=
  (!gen.is32Bit || castOk .zext a.ty (.int 64)) &&
    ((gen.fakeRead (gen.hostAddrDraft a)).isSome || gen.ptrFits (gen.hostAddrDraft a).ty t)

theorem fakeRead_blur (a : Value) : gen.fakeRead a.blur = gen.fakeRead a := by cases a <;> rfl

theorem emission_hostAddr (a : Value) :
    Emission all ρ (code (gen.hostAddr a)) False (fun v => v.blur = gen.hostAddrDraft a.blur) ρ
      (all = true → (!gen.is32Bit || castOk .zext a.ty (.int 64)) = true) := by
  unfold hostAddr hostAddrDraft
  cases gen.is32Bit with
  | false => exact Emission.congr (emission_code_ret rfl) Iff.rfl (by simp)
  | true =>
      refine (emission_create (.cast .zext a (.int 64))).conseq Iff.rfl (fun v hv => ?_) ?_
      · rw [hv.1, if_pos rfl]
        exact Inst.result_congr (by simp [Inst.blur, Inst.mapValues])
      · rw [createLegal_iff rfl, Inst.createOk_cast]
        simp

theorem gives_hostPtr {a : Value} {s : Ty} (t : Ty) (ha : a.ty = s) :
    Gives (fun _ => True) False (.ptr t) (gen.ptrFits s t = true) (gen.hostPtr a t) := by
  unfold hostPtr ptrFits
  cases gen.relocates with
  | false => exact (gives_cast .inttoptr (.ptr t) trivial ha).congr (by simp)
  | true =>
      refine ((gives_bin .add trivial trivial ha (ty_constInt _ _)).bind fun b _ tb =>
        gives_cast .inttoptr (.ptr t) trivial tb).congr ?_
      simp only [Bool.not_true, Bool.false_or, Bool.and_eq_true, beq_iff_eq]
      refine and_congr_left fun _ => and_iff_left_of_imp ?_
      rintro rfl
      rfl

theorem emission_load (a : Value) (t : Ty) :
    Emission all ρ (gen.load a t) (gen.loadFails a.blur t = true)
      (fun v => v.blur = gen.loadDraft a.blur t) ρ
      (all = true → gen.loadFits a.blur t = true) := by
  have hacc : ∀ v : Value, v.blur = gen.hostAddrDraft a.blur → Emission all ρ
      (code (do let p ← gen.hostPtr v t; create (.load p 8))) False
      (fun v => v.blur = .inst 0 t) ρ
      (all = true → gen.ptrFits (gen.hostAddrDraft a.blur).ty t = true) := fun v hv => by
    rw [code_bind, ← hv, Value.ty_blur]
    exact ((emission_code_ty (gen.gives_hostPtr t rfl)).bind fun p hp =>
      emission_loadInst hp 8).congr (by simp) (by simp)
  unfold load loadFails loadDraft loadFits
  rw [code_bind, Value.ty_blur]
  cases hf : gen.fakeRead (gen.hostAddrDraft a.blur) with
  | none =>
      refine ((gen.emission_hostAddr a).bind_to False (fun v : Value => v.blur = .inst 0 t)
        (all = true → gen.ptrFits (gen.hostAddrDraft a.blur).ty t = true)
          fun v hv => ?_).congr (by simp) ?_
      · rw [← fakeRead_blur, hv, hf]
        exact hacc v hv
      · simp only [Option.isSome_none, Bool.false_or, Bool.and_eq_true]
        exact imp_and.symm
  | some x =>
      refine ((gen.emission_hostAddr a).bind_to (¬(0 < t.bits ∧ t.bits ≤ 64))
        (fun v : Value => v.blur = constInt t.bits x.toNat) True fun v hv => ?_).congr ?_ (by simp)
      · rw [← fakeRead_blur, hv, hf]
        dsimp only
        split
        · next h =>
            exact Emission.congr (emission_code_ret rfl) (iff_of_false id (not_not.2 h)) Iff.rfl
        · next h =>
            refine fun σ _ _ s hs => ⟨fun b t h => ?_, fun _ _ => h⟩
            cases h
      · simp only [Option.isSome_some, Bool.true_and, Bool.not_eq_true', decide_eq_false_iff_not]
        rw [false_or]

/-- `load(addr_v, vex_type)`. -/
theorem emission_loadVex (a : Value) (ty : IRType) :
    Emission all ρ (gen.loadVex a ty)
      (∀ t, vexTy2LLVM ty = some t → gen.loadFails a.blur t = true)
      (fun v => v.blur = gen.loadDraft a.blur ((vexTy2LLVM ty).getD .void)) ρ
      (∀ t, vexTy2LLVM ty = some t → all = true → gen.loadFits a.blur t = true) :=
  emission_llvmTy_bind fun t ht => (gen.emission_load a t).post fun v hv => by rw [hv, ht]; rfl

end GenLLVM

/-! ## Blocks -/

/-- Code laid since `σ`, with the blocks `W` made since then and still waiting. -/
def Opened (all : Bool) (σ : GenState) (ρ : IRTemp → Option Value) (p : Prop) (W : ℕ → Prop)
    (s : GenState) : Prop :=
  Lays all σ s ρ p ∧ ∀ k, W k → s.toBuilder.Waiting k ∧ σ.func.nblocks ≤ k

theorem opened_self (h : σ.OK) (hρ : σ.table = ρ) (s : GenState) (hs : s = σ) :
    Opened all σ ρ True (fun _ => False) s := by
  subst hs hρ
  exact ⟨.refl h, fun _ => False.elim⟩

variable {W W' : ℕ → Prop}

theorem Opened.mono {s : GenState} (h : Opened all σ ρ p W s) (hW : ∀ k, W' k → W k)
    (hp : p ↔ p') : Opened all σ ρ p' W' s :=
  ⟨h.1.congr hp, fun k hk => h.2 k (hW k hk)⟩

theorem Lays.of_builder {s : GenState} (h : Lays all σ s ρ p) {b : Builder}
    (he : σ.toBuilder.Emits b)
    (ha : ∀ k i, Builder.Added σ.toBuilder b k i ↔ Builder.Added σ.toBuilder s.toBuilder k i) :
    Lays all σ { s with toBuilder := b } ρ p where
  ok := ⟨he.ok, h.ok.casts⟩
  emits := he
  table := h.table
  legal := by
    rw [← h.legal]
    exact forall₂_congr fun k i => imp_congr_left (ha k i)

/-- A new block is none of those that wait already. -/
theorem createBlock_exact :
    Exact (Opened all σ ρ p W) createBlock False fun k s =>
      Opened all σ ρ p (fun j => W j ∨ j = k) s ∧ ¬ W k := by
  rintro s ⟨hl, hw⟩
  refine ⟨fun k s' hs => ⟨id, ?_⟩, fun e he => by cases he⟩
  cases hs
  have hok := hl.ok.builder
  refine ⟨⟨hl.of_builder (hl.emits.trans (.createBlock hok)) fun _ _ =>
    Builder.added_createBlock hok, ?_⟩, fun hk => Nat.lt_irrefl _ (hw _ hk).1.lt⟩
  rintro k (hk | rfl)
  · exact ⟨(hw k hk).1.createBlock_of, (hw k hk).2⟩
  · exact ⟨.createBlock hok, hl.emits.grows.nblocks⟩

/-- Ending a block on the way to one that waits, by a branch to such blocks. -/
theorem endBlock_exact {t : Term} {n : ℕ} (hn : W n) (ht : ∀ k ∈ t.succs, W k) :
    Exact (Opened all σ ρ p W) (endBlock t n) False fun _ =>
      Opened all σ ρ p fun k => W k ∧ k ≠ n := by
  rintro s ⟨hl, hw⟩
  refine ⟨fun u s' hs => ⟨id, ?_⟩, fun e he => by cases he⟩
  cases hs
  have he := hl.emits.endBlock (hw n hn).1 (hw n hn).2 fun k hk => (hw k (ht k hk)).2
  exact ⟨hl.of_builder he fun _ _ => Builder.added_endBlock n,
    fun k hk => ⟨(hw k hk.1).1.endBlock hk.2, (hw k hk.1).2⟩⟩

theorem getInsertBlock_exact {s₀ : GenState → Prop} :
    Exact s₀ getInsertBlock False fun _ => s₀ := by
  refine fun s hs => ⟨fun k s' h => ?_, fun e he => by cases he⟩
  cases h
  exact ⟨id, hs⟩

/-- A part of a longer computation, while blocks wait. -/
theorem Emission.opened (h : Emission all ρ m F out ρ' p) (σ : GenState) {q : Prop} :
    Exact (Opened all σ ρ q W) m F fun a s => out a ∧ Opened all σ ρ' (q ∧ p) W s := by
  rintro s ⟨hs, hw⟩
  refine ((h s hs.ok hs.table).post fun a s' ⟨ha, hl⟩ => ?_) s rfl
  exact ⟨ha, hs.trans hl, fun k hk => ⟨(hw k hk).1.emits hl.emits, (hw k hk).2⟩⟩

/-- `Exact` under what was found out about an earlier result. -/
theorem exact_of_and {c : Prop} {P : GenState → Prop} {Q : α → GenState → Prop}
    (h : c → Exact P m F Q) : Exact (fun s => c ∧ P s) m F Q :=
  fun s hs => h hs.1 s hs.2

theorem exact_of_and' {c : Prop} {P : GenState → Prop} {Q : α → GenState → Prop}
    (h : c → Exact P m F Q) : Exact (fun s => P s ∧ c) m F Q :=
  fun s hs => h hs.2 s hs.1

theorem emission_ifThen {cond : EmitM Value} {body : EmitM α} {q : Prop}
    (hc : Emission all ρ cond F (fun _ => True) ρ' p)
    (hb : Emission all ρ' body F' out ρ'' q) :
    Emission all ρ (ifThen cond body) (F ∨ F') out ρ'' (p ∧ q) := by
  intro σ hσ hρ
  refine Exact.conseq (.bind createBlock_exact fun t => exact_of_and' fun ht =>
    .bind createBlock_exact fun m => exact_of_and' fun hm =>
      (hc.opened σ).bind fun c => exact_of_and fun _ =>
        (endBlock_exact (n := t) ?_ ?_).bind fun _ =>
          (hb.opened σ).bind fun a => exact_of_and fun ha =>
            (endBlock_exact (n := m) ?_ ?_).bind fun _ => .pure fun s hs => ?_)
    (opened_self hσ hρ) ?_ fun a s h => h
  · exact .inl (.inr rfl)
  · rintro k hk
    simp only [Term.succs, List.mem_cons, List.not_mem_nil, or_false] at hk
    exact hk.elim (fun hk => .inl (.inr hk)) .inr
  · exact ⟨.inr rfl, fun h => hm (.inr h)⟩
  · rintro k hk
    obtain rfl : k = m := by simpa [Term.succs] using hk
    exact ⟨.inr rfl, fun h => hm (.inr h)⟩
  · exact ⟨ha, hs.1.congr (by simp)⟩
  · simp

/-- The merge block is neither of the two alternatives. -/
theorem merge_ne {t f m : ℕ} (h : ¬ ((False ∨ m = t) ∨ m = f)) (b : Bool) :
    m ≠ if b then f else t := by
  cases b with
  | true => exact fun hm => h (.inr hm)
  | false => exact fun hm => h (.inl (.inr hm))

theorem merge_ne' {t f m : ℕ} (h : ¬ ((False ∨ m = t) ∨ m = f)) (b : Bool) :
    m ≠ if b then t else f := by
  cases b with
  | true => exact fun hm => h (.inl (.inr hm))
  | false => exact fun hm => h (.inr hm)

theorem emission_ifThenElse {falseFirst : Bool} {cond first second : EmitM Value} {q r : Prop}
    {F₂ : Prop} {out' : Value → Prop} {out : Value → Prop} {ρ₃ : IRTemp → Option Value}
    (hc : Emission all ρ cond F (fun _ => True) ρ' p)
    (ha : Emission all ρ' first F' out ρ'' q)
    (hb : Emission all ρ'' second F₂ out' ρ₃ r) :
    Emission all ρ (ifThenElse falseFirst cond first second) (F ∨ F' ∨ F₂)
      (fun x => out x.1.1 ∧ out' x.2.1) ρ₃ (p ∧ q ∧ r) := by
  intro σ hσ hρ
  refine Exact.conseq (.bind createBlock_exact fun t => exact_of_and' fun ht =>
    .bind createBlock_exact fun f => exact_of_and' fun hf =>
      .bind createBlock_exact fun m => exact_of_and' fun hm =>
        (hc.opened σ).bind fun c => exact_of_and fun _ =>
          (endBlock_exact (n := if falseFirst then f else t) ?_ ?_).bind fun _ =>
            (ha.opened σ).bind fun a => exact_of_and fun ha =>
              getInsertBlock_exact.bind fun bbA =>
                (endBlock_exact (n := if falseFirst then t else f) ?_ ?_).bind fun _ =>
                  (hb.opened σ).bind fun b => exact_of_and fun hb =>
                    getInsertBlock_exact.bind fun bbB =>
                      (endBlock_exact (n := m) ?_ ?_).bind fun _ => .pure fun s hs => ?_)
    (opened_self hσ hρ) ?_ fun a s h => h
  · cases falseFirst with
    | true => exact .inl (.inr rfl)
    | false => exact .inl (.inl (.inr rfl))
  · rintro k hk
    simp only [Term.succs, List.mem_cons, List.not_mem_nil, or_false] at hk
    rcases hk with rfl | rfl
    · exact .inl (.inl (.inr rfl))
    · exact .inl (.inr rfl)
  · cases falseFirst with
    | true => exact ⟨.inl (.inl (.inr rfl)), fun h => hf (.inr h.symm)⟩
    | false => exact ⟨.inl (.inr rfl), fun h => hf (.inr h)⟩
  · rintro k hk
    obtain rfl : k = m := by simpa [Term.succs] using hk
    exact ⟨.inr rfl, merge_ne hm _⟩
  · exact ⟨⟨.inr rfl, merge_ne hm _⟩, merge_ne' hm _⟩
  · rintro k hk
    obtain rfl : k = m := by simpa [Term.succs] using hk
    exact ⟨⟨.inr rfl, merge_ne hm _⟩, merge_ne' hm _⟩
  · exact ⟨⟨ha, hb⟩, hs.1.congr (by simp [and_assoc])⟩
  · simp

end VexLLVM
