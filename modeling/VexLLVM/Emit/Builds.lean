import VexLLVM.Lib.Triple
import VexLLVM.Emit.VexSB

/-!
# Building on

The computations of the generator only add to what has been built: blocks that
were ended stay as they are, and temporaries keep their values. Finding that a
computation is one of them is left to instances.
-/

namespace VexLLVM

open LLVM LLVM.Code Vex StateExcept

namespace GenState

/-- Code was emitted, and temporaries that had a value still have it. -/
structure Onward (σ σ' : GenState) : Prop where
  emits : σ.toBuilder.Emits σ'.toBuilder
  values : ∀ t v, σ.values t = some v → σ'.values t = some v

/-- After `BasicBlock::Create`. -/
def newBlock (σ : GenState) : GenState := { σ with toBuilder := σ.toBuilder.createBlock.2 }

/-- After the current block is ended and `n` is gone on with. -/
def endBlock (σ : GenState) (t : Term) (n : ℕ) : GenState :=
  { σ with toBuilder := σ.toBuilder.endBlock t n }

theorem Onward.refl {σ : GenState} (h : σ.toBuilder.OK) : Onward σ σ := ⟨.refl h, fun _ _ => id⟩

theorem Onward.trans {σ σ₁ σ₂ : GenState} (h : Onward σ σ₁) (h' : Onward σ₁ σ₂) : Onward σ σ₂ :=
  ⟨h.emits.trans h'.emits, fun t v hv => h'.values t v (h.values t v hv)⟩

end GenState

/-- The computation only builds on. -/
class Builds {α : Type} (m : EmitM α) : Prop where
  onward : ∀ {σ σ' : GenState} {a : α}, m σ = .ok (a, σ') → σ.toBuilder.OK → σ.Onward σ'

section Builds

variable {α β : Type} {m : EmitM α} {f : α → EmitM β}

theorem builds_of_same (h : ∀ {σ σ' : GenState} {a : α}, m σ = .ok (a, σ') →
    σ'.toBuilder = σ.toBuilder ∧ ∀ t v, σ.values t = some v → σ'.values t = some v) : Builds m :=
  ⟨fun hm hok => ⟨by rw [(h hm).1]; exact .refl hok, (h hm).2⟩⟩

instance builds_pure (a : α) : Builds (pure a) :=
  builds_of_same fun h => by cases h; exact ⟨rfl, fun _ _ => id⟩

instance builds_throw (e : EmitError) : Builds (throw e : EmitM α) :=
  builds_of_same fun h => by cases h

instance builds_get : Builds (get : EmitM GenState) :=
  builds_of_same fun h => by cases h; exact ⟨rfl, fun _ _ => id⟩

instance builds_bind [Builds m] [∀ a, Builds (f a)] : Builds (m >>= f) where
  onward h hok := by
    obtain ⟨a, σ₁, h₁, h₂⟩ := bind_eq_ok h
    have he := Builds.onward h₁ hok
    exact he.trans (Builds.onward h₂ he.emits.ok)

instance builds_map (g : α → β) [Builds m] : Builds (g <$> m) where
  onward h hok := by
    obtain ⟨a, h, -⟩ := map_eq_ok h
    exact Builds.onward h hok

instance builds_ite {c : Prop} [Decidable c] {m' : EmitM α} [Builds m] [Builds m'] :
    Builds (if c then m else m') := by
  split <;> infer_instance

instance builds_code (c : Code EmitError α) : Builds (code c) where
  onward {σ σ' a} h hok := by
    obtain ⟨b, hrun, rfl⟩ := code_eq_ok h
    exact ⟨run_emits hrun hok, fun _ _ => id⟩

instance builds_getRegValue (t : IRTemp) : Builds (getRegValue t) :=
  builds_of_same fun {σ σ' a} h => by
    unfold getRegValue at h
    cases hv : σ.values t <;> rw [hv] at h <;> cases h
    exact ⟨rfl, fun _ _ => id⟩

instance builds_setRegValue (t : IRTemp) (v : Value) : Builds (setRegValue t v) :=
  builds_of_same fun {σ σ' a} h => by
    unfold setRegValue at h
    cases hv : σ.values t with
    | some w =>
        rw [hv] at h
        cases h
    | none =>
        rw [hv] at h
        cases h
        refine ⟨rfl, fun t' w hw => ?_⟩
        have hne : t' ≠ t := by
          rintro rfl
          rw [hv] at hw
          cases hw
        exact (Function.update_of_ne hne _ _).trans hw

instance builds_getInsertBlock : Builds getInsertBlock :=
  builds_of_same fun h => by cases h; exact ⟨rfl, fun _ _ => id⟩

instance builds_llvmTy (t : IRType) : Builds (llvmTy t) := by
  unfold llvmTy
  split <;> infer_instance

theorem builds_emitAll {ms : List (EmitM α)} (h : ∀ m ∈ ms, Builds m) : Builds (emitAll ms) := by
  induction ms with
  | nil => exact builds_pure []
  | cons m ms ih =>
      have := h m List.mem_cons_self
      have := ih fun m' hm' => h m' (List.mem_cons_of_mem m hm')
      unfold emitAll
      infer_instance

theorem ifThen_eq_ok {cond : EmitM Value} {body : EmitM α} {σ σ' : GenState} {a : α}
    (h : ifThen cond body σ = .ok (a, σ')) :
    ∃ c σ₁ σ₂, cond σ.newBlock.newBlock = .ok (c, σ₁) ∧
      body (σ₁.endBlock (.condBr c σ.func.nblocks (σ.func.nblocks + 1)) σ.func.nblocks) =
        .ok (a, σ₂) ∧ σ' = σ₂.endBlock (.br (σ.func.nblocks + 1)) (σ.func.nblocks + 1) := by
  obtain ⟨t, σ₁, h₁, h⟩ := bind_eq_ok h
  cases h₁
  obtain ⟨e, σ₂, h₂, h⟩ := bind_eq_ok h
  cases h₂
  obtain ⟨c, σ₃, hc, h⟩ := bind_eq_ok h
  obtain ⟨_, σ₄, h₄, h⟩ := bind_eq_ok h
  cases h₄
  obtain ⟨b, σ₅, hb, h⟩ := bind_eq_ok h
  cases h
  exact ⟨c, σ₃, σ₅, hc, hb, rfl⟩

theorem ifThen_ok {cond : EmitM Value} {body : EmitM α} {σ σ₁ σ₂ : GenState} {c : Value} {a : α}
    (hc : cond σ.newBlock.newBlock = .ok (c, σ₁))
    (hb : body (σ₁.endBlock (.condBr c σ.func.nblocks (σ.func.nblocks + 1)) σ.func.nblocks) =
      .ok (a, σ₂)) :
    ifThen cond body σ = .ok (a, σ₂.endBlock (.br (σ.func.nblocks + 1)) (σ.func.nblocks + 1)) := by
  have h₁ : createBlock σ = .ok (σ.func.nblocks, σ.newBlock) := rfl
  have h₂ : createBlock σ.newBlock = .ok (σ.func.nblocks + 1, σ.newBlock.newBlock) := rfl
  have h₃ : endBlock (.condBr c σ.func.nblocks (σ.func.nblocks + 1)) σ.func.nblocks σ₁ =
    .ok ((), σ₁.endBlock (.condBr c σ.func.nblocks (σ.func.nblocks + 1)) σ.func.nblocks) := rfl
  rw [ifThen, bind_ok h₁, bind_ok h₂, bind_ok hc, bind_ok h₃, bind_ok hb]
  rfl

theorem onward_newBlock {σ : GenState} (h : σ.toBuilder.OK) : σ.Onward σ.newBlock :=
  ⟨.createBlock h, fun _ _ => id⟩

namespace GenState

/-- The state a new block is entered in by a branch, and what is built there. -/
structure Enters (σ₀ σ₁ σ₂ : GenState) (t : Term) (n : ℕ) : Prop where
  waiting : σ₁.toBuilder.Waiting n
  enter : σ₀.Onward (σ₁.endBlock t n)
  body : (σ₁.endBlock t n).Onward σ₂
  all : σ₀.Onward σ₂

/-- A block made since `σ₀` is gone on with. -/
theorem Onward.enters {σ₀ σ₁ σ₂ : GenState} {t : Term} {n : ℕ} (h : σ₀.Onward σ₁)
    (hn : σ₁.toBuilder.Waiting n) (hge : σ₀.func.nblocks ≤ n)
    (ht : ∀ s ∈ t.succs, σ₀.func.nblocks ≤ s) (hb : (σ₁.endBlock t n).toBuilder.OK →
      (σ₁.endBlock t n).Onward σ₂) : Enters σ₀ σ₁ σ₂ t n :=
  have he : σ₀.Onward (σ₁.endBlock t n) := ⟨h.emits.endBlock hn hge ht, h.values⟩
  have hb := hb he.emits.ok
  ⟨hn, he, hb, he.trans hb⟩

end GenState

/-- The new blocks of `ifThen`, while its parts are emitted; the last one is ended
with `t'`. -/
structure IfThen (σ σ₁ σ₂ : GenState) (t t' : Term) : Prop where
  init : σ.Onward σ.newBlock.newBlock
  cond : σ.newBlock.newBlock.Onward σ₁
  then_ : GenState.Enters σ σ₁ σ₂ t σ.func.nblocks
  leave : σ₂.toBuilder.Waiting (σ.func.nblocks + 1)
  all : σ.Onward (σ₂.endBlock t' (σ.func.nblocks + 1))

theorem IfThen.of_ok {cond : EmitM Value} {body : EmitM α} [Builds cond] [Builds body]
    {σ σ₁ σ₂ : GenState} {a : α} {c : Value} {t' : Term} (hok : σ.toBuilder.OK)
    (hc : cond σ.newBlock.newBlock = .ok (c, σ₁))
    (hb : body (σ₁.endBlock (.condBr c σ.func.nblocks (σ.func.nblocks + 1)) σ.func.nblocks) =
        .ok (a, σ₂)) (ht' : ∀ s ∈ t'.succs, σ.func.nblocks ≤ s) :
    IfThen σ σ₁ σ₂ (.condBr c σ.func.nblocks (σ.func.nblocks + 1)) t' := by
  have h₁ := onward_newBlock hok
  have h₂ := onward_newBlock h₁.emits.ok
  have hcond := Builds.onward hc h₂.emits.ok
  have hwt := (Builder.Waiting.createBlock hok).createBlock_of.emits hcond.emits
  have hwm := (Builder.Waiting.createBlock h₁.emits.ok).emits hcond.emits
  have hin := ((h₁.trans h₂).trans hcond).enters hwt (Nat.le_refl _)
    (t := .condBr c σ.func.nblocks (σ.func.nblocks + 1)) (by simp [Term.succs])
    fun hok => Builds.onward hb hok
  have hwm' : σ₂.toBuilder.Waiting (σ.func.nblocks + 1) :=
    (hwm.endBlock (Nat.succ_ne_self _)).emits hin.body.emits
  exact ⟨h₁.trans h₂, hcond, hin, hwm', hin.all.emits.endBlock hwm' (Nat.le_succ _) ht',
    hin.all.values⟩

instance builds_ifThen {cond : EmitM Value} {body : EmitM α} [Builds cond] [Builds body] :
    Builds (ifThen cond body) where
  onward h hok := by
    obtain ⟨c, σ₁, σ₂, hc, hb, rfl⟩ := ifThen_eq_ok h
    exact (IfThen.of_ok hok hc hb (by simp [Term.succs])).all

end Builds

/-! ## The generator -/

theorem builds_modify {g : GenState → GenState} (hb : ∀ σ, (g σ).toBuilder = σ.toBuilder)
    (hv : ∀ σ, (g σ).values = σ.values) : Builds (modify g : EmitM PUnit) :=
  builds_of_same fun {σ σ' a} h => by
    cases h
    exact ⟨hb σ, fun t v h => by rwa [hv σ]⟩

namespace GenLLVM

variable (gen : GenLLVM)

instance builds_getCtxPtr (t : Ty) : Builds (gen.getCtxPtr t) := by
  unfold getCtxPtr
  refine @builds_bind _ _ _ _ builds_get fun σ => @builds_ite _ _ _ _ _ (builds_code _) ?_
  split
  · exact builds_pure _
  · have := fun p => builds_modify (g := fun σ : GenState =>
      { σ with ctxcastMap := Function.update σ.ctxcastMap t (some p) }) (fun _ => rfl) fun _ => rfl
    infer_instance

instance builds_getCtxTyGEP (off : Value) (t : Ty) : Builds (gen.getCtxTyGEP off t) := by
  unfold getCtxTyGEP
  infer_instance

instance builds_getCtxByteGEP (off : ℕ) (t : Ty) : Builds (gen.getCtxByteGEP off t) := by
  unfold getCtxByteGEP
  refine @builds_ite _ _ _ _ _ (builds_throw _) (@builds_bind _ _ _ _ builds_get fun σ => ?_)
  split
  · infer_instance
  · have := fun p => builds_modify (g := fun σ : GenState =>
      { σ with gepbyteMap := Function.update σ.gepbyteMap (off, t.bytes) (some p) })
      (fun _ => rfl) fun _ => rfl
    infer_instance

instance builds_readCtx (off : ℕ) (ty : IRType) : Builds (gen.readCtx off ty) := by
  unfold readCtx
  infer_instance

instance builds_writeCtx (off : ℕ) (v : Value) : Builds (gen.writeCtx off v) := by
  unfold writeCtx
  infer_instance

instance builds_getCtxElem (off : ℕ) (bias : ℤ) (len : ℕ) (ix : Value) (t : Ty) :
    Builds (gen.getCtxElem off bias len ix t) := by
  unfold getCtxElem
  infer_instance

instance builds_readCtxI (off : ℕ) (bias : ℤ) (len : ℕ) (ix : Value) (t : Ty) :
    Builds (gen.readCtxI off bias len ix t) := by
  unfold readCtxI
  infer_instance

instance builds_writeCtxI (off : ℕ) (bias : ℤ) (len : ℕ) (ix v : Value) :
    Builds (gen.writeCtxI off bias len ix v) := by
  unfold writeCtxI
  infer_instance

instance builds_store (a d : Value) : Builds (gen.store a d) := by
  unfold store
  infer_instance

instance builds_load (a : Value) (t : Ty) : Builds (gen.load a t) := by
  unfold load
  infer_instance

instance builds_loadVex (a : Value) (ty : IRType) : Builds (gen.loadVex a ty) := by
  unfold loadVex
  infer_instance

instance builds_setExitType (n : ℕ) : Builds (gen.setExitType n) := by
  unfold setExitType
  infer_instance

end GenLLVM

/-! ## Two alternative blocks -/

theorem ifThenElse_eq_ok {b : Bool} {cond first second : EmitM Value} {σ σ' : GenState}
    {r : (Value × ℕ) × (Value × ℕ)} (h : ifThenElse b cond first second σ = .ok (r, σ')) :
    ∃ c σ₁ x σ₂ y σ₃, cond σ.newBlock.newBlock.newBlock = .ok (c, σ₁) ∧
      first (σ₁.endBlock (.condBr c σ.func.nblocks (σ.func.nblocks + 1))
        (if b then σ.func.nblocks + 1 else σ.func.nblocks)) = .ok (x, σ₂) ∧
      second (σ₂.endBlock (.br (σ.func.nblocks + 2))
        (if b then σ.func.nblocks else σ.func.nblocks + 1)) = .ok (y, σ₃) ∧
      r = ((x, σ₂.insertBlock), (y, σ₃.insertBlock)) ∧
      σ' = σ₃.endBlock (.br (σ.func.nblocks + 2)) (σ.func.nblocks + 2) := by
  obtain ⟨t, _, h₁, h⟩ := bind_eq_ok h
  cases h₁
  obtain ⟨f, _, h₁, h⟩ := bind_eq_ok h
  cases h₁
  obtain ⟨m, _, h₁, h⟩ := bind_eq_ok h
  cases h₁
  obtain ⟨c, σ₁, hc, h⟩ := bind_eq_ok h
  obtain ⟨_, _, h₁, h⟩ := bind_eq_ok h
  cases h₁
  obtain ⟨x, σ₂, hx, h⟩ := bind_eq_ok h
  obtain ⟨_, _, h₁, h⟩ := bind_eq_ok h
  cases h₁
  obtain ⟨_, _, h₁, h⟩ := bind_eq_ok h
  cases h₁
  obtain ⟨y, σ₃, hy, h⟩ := bind_eq_ok h
  obtain ⟨_, _, h₁, h⟩ := bind_eq_ok h
  cases h₁
  cases h
  exact ⟨c, σ₁, x, σ₂, y, σ₃, hc, hx, hy, rfl, rfl⟩

theorem ifThenElse_ok {b : Bool} {cond first second : EmitM Value} {σ σ₁ σ₂ σ₃ : GenState}
    {c x y : Value}
    (hc : cond σ.newBlock.newBlock.newBlock = .ok (c, σ₁))
    (hx : first (σ₁.endBlock (.condBr c σ.func.nblocks (σ.func.nblocks + 1))
      (if b then σ.func.nblocks + 1 else σ.func.nblocks)) = .ok (x, σ₂))
    (hy : second (σ₂.endBlock (.br (σ.func.nblocks + 2))
      (if b then σ.func.nblocks else σ.func.nblocks + 1)) = .ok (y, σ₃)) :
    ifThenElse b cond first second σ = .ok (((x, σ₂.insertBlock), (y, σ₃.insertBlock)),
      σ₃.endBlock (.br (σ.func.nblocks + 2)) (σ.func.nblocks + 2)) := by
  have h₁ : createBlock σ = .ok (σ.func.nblocks, σ.newBlock) := rfl
  have h₂ : createBlock σ.newBlock = .ok (σ.func.nblocks + 1, σ.newBlock.newBlock) := rfl
  have h₃ : createBlock σ.newBlock.newBlock =
    .ok (σ.func.nblocks + 2, σ.newBlock.newBlock.newBlock) := rfl
  have hend : ∀ (t : Term) (n : ℕ) (σ : GenState), endBlock t n σ = .ok ((), σ.endBlock t n) :=
    fun _ _ _ => rfl
  have hblk : ∀ σ : GenState, getInsertBlock σ = .ok (σ.insertBlock, σ) := fun _ => rfl
  rw [ifThenElse, bind_ok h₁, bind_ok h₂, bind_ok h₃, bind_ok hc, bind_ok (hend _ _ _), bind_ok hx,
    bind_ok (hblk _), bind_ok (hend _ _ _), bind_ok hy, bind_ok (hblk _), bind_ok (hend _ _ _)]
  rfl

/-- The new blocks of `ifThenElse`, while its parts are emitted, the block `k₁`
before the block `k₂`. -/
structure IfThenElse (σ σ₁ σ₂ σ₃ : GenState) (c : Value) (k₁ k₂ : ℕ) : Prop where
  init : σ.Onward σ.newBlock.newBlock.newBlock
  cond : σ.newBlock.newBlock.newBlock.Onward σ₁
  first : GenState.Enters σ σ₁ σ₂ (.condBr c σ.func.nblocks (σ.func.nblocks + 1)) k₁
  second : GenState.Enters σ σ₂ σ₃ (.br (σ.func.nblocks + 2)) k₂
  leave : σ₃.toBuilder.Waiting (σ.func.nblocks + 2)
  all : σ.Onward (σ₃.endBlock (.br (σ.func.nblocks + 2)) (σ.func.nblocks + 2))

theorem IfThenElse.of_ok {cond first second : EmitM Value} [Builds cond] [Builds first]
    [Builds second] {σ σ₁ σ₂ σ₃ : GenState} {c x y : Value} {k₁ k₂ : ℕ} (hok : σ.toBuilder.OK)
    (hk : k₁ = σ.func.nblocks ∧ k₂ = σ.func.nblocks + 1 ∨
      k₁ = σ.func.nblocks + 1 ∧ k₂ = σ.func.nblocks)
    (hc : cond σ.newBlock.newBlock.newBlock = .ok (c, σ₁))
    (hx : first (σ₁.endBlock (.condBr c σ.func.nblocks (σ.func.nblocks + 1)) k₁) = .ok (x, σ₂))
    (hy : second (σ₂.endBlock (.br (σ.func.nblocks + 2)) k₂) = .ok (y, σ₃)) :
    IfThenElse σ σ₁ σ₂ σ₃ c k₁ k₂ := by
  have h₁ := onward_newBlock hok
  have h₂ := onward_newBlock h₁.emits.ok
  have h₃ := onward_newBlock h₂.emits.ok
  have hcond := Builds.onward hc h₃.emits.ok
  have hw : ∀ k, k = σ.func.nblocks ∨ k = σ.func.nblocks + 1 ∨ k = σ.func.nblocks + 2 →
      σ₁.toBuilder.Waiting k := by
    rintro k (rfl | rfl | rfl)
    · exact (Builder.Waiting.createBlock hok).createBlock_of.createBlock_of.emits hcond.emits
    · exact (Builder.Waiting.createBlock h₁.emits.ok).createBlock_of.emits hcond.emits
    · exact (Builder.Waiting.createBlock h₂.emits.ok).emits hcond.emits
  have hfirst := (((h₁.trans h₂).trans h₃).trans hcond).enters (hw k₁ (by omega)) (by omega)
    (t := .condBr c σ.func.nblocks (σ.func.nblocks + 1)) (by simp [Term.succs])
    fun hok => Builds.onward hx hok
  have hw₂ : ∀ k, k = k₂ ∨ k = σ.func.nblocks + 2 → σ₂.toBuilder.Waiting k := fun k hk' =>
    ((hw k (by omega)).endBlock (by omega)).emits hfirst.body.emits
  have hsecond := hfirst.all.enters (hw₂ k₂ (.inl rfl)) (by omega)
    (t := .br (σ.func.nblocks + 2)) (by simp [Term.succs]) fun hok => Builds.onward hy hok
  have hw₃ := ((hw₂ _ (.inr rfl)).endBlock (by omega)).emits hsecond.body.emits
  exact ⟨(h₁.trans h₂).trans h₃, hcond, hfirst, hsecond, hw₃,
    hsecond.all.emits.endBlock hw₃ (by omega) (by simp [Term.succs]), hsecond.all.values⟩

instance builds_ifThenElse {b : Bool} {cond first second : EmitM Value} [Builds cond]
    [Builds first] [Builds second] : Builds (ifThenElse b cond first second) where
  onward {σ σ' r} h hok := by
    obtain ⟨c, σ₁, x, σ₂, y, σ₃, hc, hx, hy, -, rfl⟩ := ifThenElse_eq_ok h
    exact (IfThenElse.of_ok hok (by cases b <;> simp) hc hx hy).all

/-! ## Expressions and statements -/

instance builds_expr (gen : GenLLVM) (e : VexExpr) : Builds (e.emit gen) := by
  induction e with
  | null => exact builds_throw _
  | stub n args ih => exact builds_throw _
  | abort e => exact builds_throw _
  | get offset ty =>
      unfold VexExpr.emit
      infer_instance
  | getI base len elemType ix bias ih =>
      unfold VexExpr.emit
      infer_instance
  | rdTmp tmp =>
      unfold VexExpr.emit
      infer_instance
  | nary op args ih =>
      unfold VexExpr.emit
      have : Builds (emitAll (List.ofFn fun i => (args i).emit gen)) := builds_emitAll fun m hm => by
        obtain ⟨i, rfl⟩ := List.mem_ofFn.1 hm
        exact ih i
      infer_instance
  | load ty addr ih =>
      unfold VexExpr.emit
      infer_instance
  | const con =>
      unfold VexExpr.emit
      infer_instance
  | ccall f sig n args ih =>
      unfold VexExpr.emit
      have : Builds (emitAll (List.ofFn fun i => (args i).emit gen)) := builds_emitAll fun m hm => by
        obtain ⟨i, rfl⟩ := List.mem_ofFn.1 hm
        exact ih i
      infer_instance
  | gsptr =>
      unfold VexExpr.emit
      infer_instance
  | mux0X cond expr0 exprX ihc ih0 ihX =>
      unfold VexExpr.emit
      infer_instance

namespace VexStmt

variable (gen : GenLLVM) (types : List IRType)

theorem emitExit_eq_ok {guard : VexExpr} {jk : IRJumpKind} {exitType : GuestExitType}
    {dst : BitVec 64} {σ σ' : GenState} {gen : GenLLVM}
    (h : emitExit gen guard jk exitType dst σ = .ok ((), σ')) :
    ∃ c σ₁ σ₂, guard.emit gen σ.newBlock.newBlock = .ok (c, σ₁) ∧
      (if jk ≠ .Boring then gen.setExitType exitType.code else pure ())
        (σ₁.endBlock (.condBr c σ.func.nblocks (σ.func.nblocks + 1)) σ.func.nblocks) =
        .ok ((), σ₂) ∧
      σ' = σ₂.endBlock (.ret (constInt 64 dst.toNat)) (σ.func.nblocks + 1) := by
  obtain ⟨t, _, h₁, h⟩ := bind_eq_ok h
  cases h₁
  obtain ⟨e, _, h₁, h⟩ := bind_eq_ok h
  cases h₁
  obtain ⟨c, σ₁, hc, h⟩ := bind_eq_ok h
  obtain ⟨_, _, h₁, h⟩ := bind_eq_ok h
  cases h₁
  refine ⟨c, σ₁, ?_⟩
  split at h
  · next hjk =>
      obtain ⟨_, σ₂, hb, h⟩ := bind_eq_ok h
      cases h
      exact ⟨σ₂, hc, by rwa [if_pos hjk], rfl⟩
  · next hjk =>
      cases h
      exact ⟨_, hc, by rw [if_neg hjk]; rfl, rfl⟩

/-- The converse. -/
theorem emitExit_ok {guard : VexExpr} {jk : IRJumpKind} {exitType : GuestExitType} {dst : BitVec 64}
    {σ σ₁ σ₂ : GenState} {gen : GenLLVM} {c : Value}
    (hc : guard.emit gen σ.newBlock.newBlock = .ok (c, σ₁))
    (hb : (if jk ≠ .Boring then gen.setExitType exitType.code else pure ())
      (σ₁.endBlock (.condBr c σ.func.nblocks (σ.func.nblocks + 1)) σ.func.nblocks) = .ok ((), σ₂)) :
    emitExit gen guard jk exitType dst σ =
      .ok ((), σ₂.endBlock (.ret (constInt 64 dst.toNat)) (σ.func.nblocks + 1)) := by
  have h₁ : createBlock σ = .ok (σ.func.nblocks, σ.newBlock) := rfl
  have h₂ : createBlock σ.newBlock = .ok (σ.func.nblocks + 1, σ.newBlock.newBlock) := rfl
  have h₃ : endBlock (.condBr c σ.func.nblocks (σ.func.nblocks + 1)) σ.func.nblocks σ₁ =
    .ok ((), σ₁.endBlock (.condBr c σ.func.nblocks (σ.func.nblocks + 1)) σ.func.nblocks) := rfl
  unfold emitExit
  rw [bind_ok h₁, bind_ok h₂, bind_ok hc, bind_ok h₃]
  split at hb
  · next hjk =>
      rw [if_pos hjk, bind_ok hb]
      rfl
  · next hjk =>
      cases hb
      rw [if_neg hjk]
      rfl

theorem IfThen.of_exit {guard : VexExpr} {jk : IRJumpKind} {exitType : GuestExitType}
    {dst : BitVec 64} {σ σ₁ σ₂ : GenState} {gen : GenLLVM} {c : Value} (hok : σ.toBuilder.OK)
    (hc : guard.emit gen σ.newBlock.newBlock = .ok (c, σ₁))
    (hb : (if jk ≠ .Boring then gen.setExitType exitType.code else pure ())
        (σ₁.endBlock (.condBr c σ.func.nblocks (σ.func.nblocks + 1)) σ.func.nblocks) =
        .ok ((), σ₂)) :
    IfThen σ σ₁ σ₂ (.condBr c σ.func.nblocks (σ.func.nblocks + 1))
      (.ret (constInt 64 dst.toNat)) :=
  IfThen.of_ok hok hc hb (by simp [Term.succs])

instance builds_emitExit (guard : VexExpr) (jk : IRJumpKind) (exitType : GuestExitType)
    (dst : BitVec 64) : Builds (emitExit gen guard jk exitType dst) where
  onward h hok := by
    obtain ⟨c, σ₁, σ₂, hc, hb, rfl⟩ := emitExit_eq_ok h
    exact (IfThen.of_exit hok hc hb).all

instance builds_regType (t : IRTemp) : Builds (regType types t) := by
  unfold regType
  infer_instance

instance builds_emitLLSC (result : IRTemp) (addr : VexExpr) (data : Option VexExpr) :
    Builds (emitLLSC gen types result addr data) := by
  cases data <;> unfold emitLLSC <;> infer_instance

instance builds_emitCASHi (a : Value) (t : Ty) (eh : VexExpr) :
    Builds (emitCASHi gen a t eh) := by
  unfold emitCASHi
  infer_instance

/-- What `emitCAS` does once the words are loaded: the comparison, the stores and
the temporaries. -/
def emitCASSwap (oldHi : Option IRTemp) (oldLo : IRTemp) (new : VexExpr) (a e l : Value)
    (hi : Option (Value × Value × Value)) : EmitM Unit := do
  ifThen
    (code do
      let cmp ← createICmp .eq e l
      match hi with
      | none => pure cmp
      | some (eh, _, lh) => do
          let c ← createICmp .eq eh lh
          createICmp .eq cmp c)
    (do
      let n ← new.emit gen
      gen.store a n
      match hi with
      | none => pure ()
      | some (_, ah, _) => do
          let n ← new.emit gen
          gen.store ah n)
  setRegValue oldLo l
  match hi, oldHi with
  | some (_, _, lh), some t => setRegValue t lh
  | some _, none => throw (.assertion "values[IRTemp_INVALID]")
  | none, _ => pure ()

theorem emitCAS_none (oldHi : Option IRTemp) (oldLo : IRTemp) (addr expected new : VexExpr) :
    emitCAS gen oldHi oldLo addr none expected new = (do
      let a ← addr.emit gen
      let e ← expected.emit gen
      let l ← gen.load a e.ty
      emitCASSwap gen oldHi oldLo new a e l none) := rfl

theorem emitCAS_some (oldHi : Option IRTemp) (oldLo : IRTemp)
    (addr expectedHi expected new : VexExpr) :
    emitCAS gen oldHi oldLo addr (some expectedHi) expected new = (do
      let a ← addr.emit gen
      let e ← expected.emit gen
      let l ← gen.load a e.ty
      let hi ← emitCASHi gen a e.ty expectedHi
      emitCASSwap gen oldHi oldLo new a e l (some hi)) := by
  simp only [emitCAS, bind_map_left]
  rfl

instance builds_emitCASSwap (oldHi : Option IRTemp) (oldLo : IRTemp) (new : VexExpr)
    (a e l : Value) (hi : Option (Value × Value × Value)) :
    Builds (emitCASSwap gen oldHi oldLo new a e l hi) := by
  cases hi <;> cases oldHi <;> unfold emitCASSwap <;> infer_instance

instance builds_emitCAS (oldHi : Option IRTemp) (oldLo : IRTemp) (addr : VexExpr)
    (expectedHi : Option VexExpr) (expected new : VexExpr) :
    Builds (emitCAS gen oldHi oldLo addr expectedHi expected new) := by
  cases expectedHi with
  | none =>
      rw [emitCAS_none]
      infer_instance
  | some eh =>
      rw [emitCAS_some]
      infer_instance

instance builds_emitDirtyCall (f : String) (sig : FnTy) (tmp : Option IRTemp)
    (args : List VexExpr) : Builds (emitDirtyCall gen types f sig tmp args) := by
  unfold emitDirtyCall
  have : Builds (emitAll (args.map fun e => e.emit gen)) := builds_emitAll fun m hm => by
    obtain ⟨e, -, rfl⟩ := List.mem_map.1 hm
    exact builds_expr gen e
  refine @builds_bind _ _ _ _ this fun vs => ?_
  cases tmp <;> split <;> infer_instance

instance builds_emitDirty (f : String) (sig : FnTy) (guard : VexExpr) (tmp : Option IRTemp)
    (args : List VexExpr) : Builds (emitDirty gen types f sig guard tmp args) := by
  unfold emitDirty
  infer_instance

instance builds_emitLoadG (cvt : IRLoadGOp) (dst : IRTemp) (addr alt guard : VexExpr) :
    Builds (emitLoadG gen cvt dst addr alt guard) := by
  unfold emitLoadG
  split <;> infer_instance

instance builds_stmt (s : VexStmt) : Builds (s.emit gen types) := by
  cases s <;> unfold emit <;> infer_instance

end VexStmt

instance builds_emitStmts (gen : GenLLVM) (types : List IRType) (ss : List VexStmt) :
    Builds (VexSB.emitStmts gen types ss) := by
  induction ss with
  | nil => exact builds_pure _
  | cons s ss ih =>
      unfold VexSB.emitStmts
      infer_instance

end VexLLVM
