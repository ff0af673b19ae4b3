import VexLLVM.LLVM.Reached
import VexLLVM.Emit.Access

/-!
# The cached pointers into the guest context

While a function is emitted, pointers into the context are asked for between other code,
and the insertion point moves on through the blocks. `endBB` clears both caches and
`beginBB` leaves them as they are, so a function starts with what the one before it left.
-/

namespace VexLLVM

open LLVM LLVM.Code Vex StateExcept

namespace GenLLVM

variable (gen : GenLLVM)

def openBB (σ : GenState) : GenState :=
  { beginBB with gepbyteMap := σ.gepbyteMap, ctxcastMap := σ.ctxcastMap }

def endBB (retVal : Value) (σ : GenState) : GenState where
  toBuilder := σ.toBuilder.terminate (.ret retVal)
  gepbyteMap _ := none
  ctxcastMap _ := none
  values := σ.values
  reads := σ.reads

/-- What can happen between `beginBB` and `endBB`. The insertion point does not come back
to the entry block. -/
inductive Emission : GenState → GenState → Prop
  | byteGEP {σ σ' : GenState} {off : ℕ} {t : Ty} {p : Value} :
      gen.getCtxByteGEP off t σ = .ok (p, σ') → Emission σ σ'
  | tyGEP {σ σ' : GenState} {off : Value} {t : Ty} {p : Value} :
      gen.getCtxTyGEP off t σ = .ok (p, σ') → Emission σ σ'
  | code {σ σ' : GenState} {α : Type} {c : Code EmitError α} {a : α} :
      code c σ = .ok (a, σ') → Emission σ σ'
  | setTmps (σ : GenState) (values : IRTemp → Option Value) (reads : List (IRTemp × ℕ)) :
      Emission σ { σ with values := values, reads := reads }
  | createBlock (σ : GenState) : Emission σ { σ with toBuilder := σ.toBuilder.createBlock.2 }
  | terminate (σ : GenState) (t : Term) :
      Emission σ { σ with toBuilder := σ.toBuilder.terminate t }
  | setInsertPoint (σ : GenState) (k : ℕ) (hk : k ≠ entryBB) :
      Emission σ { σ with toBuilder := σ.toBuilder.setInsertPoint k }

/-- The states in which a function is being emitted, the first one or a later one of the
code generator's life. -/
inductive Emitting : GenState → Prop
  /-- The constructor leaves the caches empty. -/
  | first : Emitting beginBB
  | next {σ : GenState} (retVal : Value) : Emitting σ → Emitting (openBB (endBB retVal σ))
  | step {σ σ' : GenState} : Emitting σ → gen.Emission σ σ' → Emitting σ'

/-- A pointer to the type, made where it can be used, to the offset in the context. -/
def Pointer (σ : GenState) (p : Value) (t : Ty) (off : BitVec 64) : Prop :=
  p.ty = .ptr t ∧ σ.toBuilder.Gives p (.ctxPtr off)

/-- While the entry block is filled, the cached pointers are made in it and point to where
they are filed. -/
structure Filed (σ : GenState) : Prop where
  entry : entryBB < σ.func.nblocks
  casts : σ.insertBlock = entryBB → ∀ ty p, σ.ctxcastMap ty = some p →
    p.ty = ty ∧ σ.toBuilder.Gives p (.ctxPtr 0)
  geps : σ.insertBlock = entryBB → ∀ off n p, σ.gepbyteMap (off, n) = some p →
    σ.toBuilder.Gives p (.ctxPtr (ctxOff off n))

section Requests

variable {gen} {σ σ' : GenState} {p off : Value} {t : Ty} {α : Type} {n : ℕ}

theorem filed_beginBB : Filed beginBB where
  entry := Nat.one_pos
  casts _ _ _ h := by cases h
  geps _ _ _ _ h := by cases h

/-- The entry block is as it was, or it has been left. -/
theorem Filed.of_same (h : Filed σ) (hn : σ.func.nblocks ≤ σ'.func.nblocks)
    (hg : σ'.gepbyteMap = σ.gepbyteMap) (hc : σ'.ctxcastMap = σ.ctxcastMap)
    (hb : σ'.insertBlock = entryBB → ∀ v x, σ.insertBlock = entryBB ∧
      (σ.toBuilder.Gives v x → σ'.toBuilder.Gives v x)) : Filed σ' where
  entry := h.entry.trans_le hn
  casts h0 ty p hp := by
    rw [hc] at hp
    obtain ⟨h0, hgives⟩ := hb h0 p (.ctxPtr 0)
    exact ⟨(h.casts h0 ty p hp).1, hgives (h.casts h0 ty p hp).2⟩
  geps h0 o n p hp := by
    rw [hg] at hp
    obtain ⟨h0, hgives⟩ := hb h0 p (.ctxPtr (ctxOff o n))
    exact hgives (h.geps h0 o n p hp)

theorem keeps_filed_code (c : Code EmitError α) : Keeps Filed (code c) := by
  intro σ h a σ' hm
  obtain ⟨b, hrun, rfl⟩ := code_eq_ok hm
  have hk : b.insertBlock = σ.insertBlock := run_insertBlock hrun
  exact h.of_same (run_nblocks hrun).ge rfl rfl fun h0 v x =>
    ⟨hk.symm.trans h0, fun hv => gives_run hv hrun⟩

theorem code_nextId {c : Code EmitError α} {a : α} (h : VexLLVM.code c σ = .ok (a, σ')) :
    σ.nextId ≤ σ'.nextId := by
  obtain ⟨b, hrun, rfl⟩ := code_eq_ok h
  exact run_nextId hrun

/-- The cast of the context, in the block being filled. -/
theorem triple_castCtx (n : ℕ) : Triple (fun σ => Filed σ ∧ n ≤ σ.nextId)
    (VexLLVM.code (createBitCast gen.curGuestCtx (.ptr t)))
    fun p σ => Pointer σ p t 0 ∧ Filed σ ∧ n ≤ σ.nextId := by
  intro σ h p σ' hm
  have hf : Filed σ' := keeps_filed_code _ σ h.1 p σ' hm
  have hn : σ.nextId ≤ σ'.nextId := code_nextId hm
  cases hm
  exact ⟨⟨Builder.create_ty _ _, (Builder.gives_arg _ _).bitCast _⟩, hf, h.2.trans hn⟩

/-- The cast of the context, cached or made anew. -/
theorem triple_getCtxPtr (n : ℕ) : Triple (fun σ => Filed σ ∧ n ≤ σ.nextId)
    (gen.getCtxPtr (.ptr t)) fun p σ => Pointer σ p t 0 ∧ Filed σ ∧ n ≤ σ.nextId := by
  intro σ h p σ' hm
  change (if σ.insertBlock ≠ entryBB then _ else _ : EmitM Value) σ = _ at hm
  by_cases hb : σ.insertBlock = entryBB
  · rw [if_neg (not_not.2 hb)] at hm
    cases hc : σ.ctxcastMap (.ptr t) with
    | some q =>
        rw [hc] at hm
        cases hm
        exact ⟨h.1.casts hb _ p hc, h⟩
    | none =>
        rw [hc] at hm
        obtain ⟨q, σ₁, h₁, h₂⟩ := bind_eq_ok hm
        cases h₂
        obtain ⟨hq, hf, hn⟩ := triple_castCtx n σ h p σ₁ h₁
        refine ⟨hq, ⟨hf.entry, fun h0 ty r hr => ?_, hf.geps⟩, hn⟩
        have hr : Function.update σ₁.ctxcastMap (.ptr t) (some p) ty = some r := hr
        rcases eq_or_ne ty (.ptr t) with rfl | hne
        · rw [Function.update_self] at hr
          cases hr
          exact hq
        · exact hf.casts h0 ty r (by rwa [Function.update_of_ne hne] at hr)
  · rw [if_pos hb] at hm
    exact triple_castCtx n σ h p σ' hm

/-- The element of the context at an index that was made before. -/
theorem triple_getCtxTyGEP {w : ℕ} (hw : off.ty = .int w) :
    Triple (fun σ => Filed σ ∧ off.Below σ.nextId) (gen.getCtxTyGEP off t) fun p σ =>
      Filed σ ∧ p.ty = .ptr t ∧ σ.toBuilder.Made p ∧
        σ.toBuilder.AtPoint fun fr => ∀ i, fr.eval off = some (.bits i) → fr.eval p =
          some (.ctxPtr ((BitVec.ofNat w i).signExtend 64 * BitVec.ofNat 64 t.bytes)) := by
  intro σ h p σ' hm
  obtain ⟨q, σ₁, h₁, h₂⟩ := bind_eq_ok hm
  obtain ⟨hq, hf, hn⟩ := triple_getCtxPtr σ.nextId σ ⟨h.1, Nat.le_refl _⟩ q σ₁ h₁
  have hf' : Filed σ' := keeps_filed_code _ σ₁ hf p σ' h₂
  obtain ⟨hmade, hat⟩ := hq.2.gep hq.1 hw (h.2.mono hn)
  cases h₂
  simp only [zero_add] at hat
  exact ⟨hf', (Builder.create_ty _ _).trans hq.1, hmade, hat⟩

/-- The element of the context at a constant offset. -/
theorem triple_elemGEP (o : ℕ) : Triple Filed
    (gen.getCtxTyGEP (constInt 32 (o / t.bytes)) t)
    fun p σ => Pointer σ p t (ctxOff o t.bytes) ∧ Filed σ := by
  have hgep := @triple_getCtxTyGEP gen (constInt 32 (o / t.bytes)) t 32 rfl
  refine hgep.conseq (fun σ h => ⟨h, trivial⟩) ?_
  rintro p σ ⟨hf, hty, hmade, hat⟩
  exact ⟨⟨hty, hmade, hat.mono fun fr h => by rw [h _ rfl, ctxOff_mod]⟩, hf⟩

theorem triple_getCtxByteGEP (o : ℕ) : Triple Filed (gen.getCtxByteGEP o t)
    fun p σ => Pointer σ p t (ctxOff o t.bytes) ∧ Filed σ := by
  intro σ h p σ' hm
  unfold getCtxByteGEP at hm
  by_cases ht : t.bytes = 0
  · rw [if_pos ht] at hm
    cases hm
  · rw [if_neg ht] at hm
    beta_reduce at hm
    rw [get_bind] at hm
    cases hc : σ.gepbyteMap (o, t.bytes) with
    | some q =>
        rw [hc] at hm
        dsimp only at hm
        by_cases hq : σ.insertBlock = entryBB ∧ q.ty = .ptr t
        · rw [if_pos hq] at hm
          cases hm
          exact ⟨⟨hq.2, h.geps hq.1 o _ p hc⟩, h⟩
        · rw [if_neg hq] at hm
          exact triple_elemGEP o σ h p σ' hm
    | none =>
        rw [hc] at hm
        obtain ⟨q, σ₁, h₁, h₂⟩ := bind_eq_ok hm
        cases h₂
        obtain ⟨hq, hf⟩ := triple_elemGEP o σ h p σ₁ h₁
        refine ⟨hq, hf.entry, hf.casts, fun h0 o' n r hr => ?_⟩
        have hr : Function.update σ₁.gepbyteMap (o, t.bytes) (some p) (o', n) = some r := hr
        rcases eq_or_ne (o', n) (o, t.bytes) with he | hne
        · rw [he, Function.update_self] at hr
          cases hr
          cases he
          exact hq.2
        · exact hf.geps h0 o' n r (by rwa [Function.update_of_ne hne] at hr)

theorem Filed.emission (h : Filed σ) (hs : gen.Emission σ σ') : Filed σ' := by
  cases hs with
  | byteGEP hm => exact (triple_getCtxByteGEP _ σ h _ σ' hm).2
  | tyGEP hm =>
      obtain ⟨q, σ₁, h₁, h₂⟩ := bind_eq_ok hm
      obtain ⟨-, hf, -⟩ := triple_getCtxPtr 0 σ ⟨h, Nat.zero_le _⟩ q σ₁ h₁
      exact keeps_filed_code _ σ₁ hf _ σ' h₂
  | code hm => exact keeps_filed_code _ σ h _ σ' hm
  | setTmps values reads => exact h.of_same (Nat.le_refl _) rfl rfl fun h0 v x => ⟨h0, id⟩
  | createBlock =>
      refine h.of_same (Nat.le_succ _) rfl rfl fun h0 v x => ⟨h0, fun hv => ?_⟩
      have hne : σ.insertBlock ≠ σ.func.nblocks := by
        rw [show σ.insertBlock = entryBB from h0]
        exact h.entry.ne
      refine hv.congr rfl ?_ (Nat.le_refl _)
      rw [Builder.current, Builder.createBlock_insertBlock, Builder.createBlock_block, if_neg hne]
      rfl
  | terminate t =>
      refine h.of_same (Nat.le_refl _) rfl rfl fun h0 v x => ⟨h0, fun hv => ?_⟩
      refine hv.congr rfl ?_ (Nat.le_refl _)
      rw [Builder.current, Builder.terminate_insertBlock, Builder.terminate_block, if_pos rfl]
  | setInsertPoint k hk => exact h.of_same (Nat.le_refl _) rfl rfl fun h0 => absurd h0 hk

theorem Emitting.filed (h : gen.Emitting σ) : Filed σ := by
  induction h with
  | first => exact filed_beginBB
  | next retVal _ _ => exact filed_beginBB
  | step _ hs ih => exact ih.emission hs

end Requests

/-- An offset that is a multiple of the access size. -/
theorem ctxOff_eq {o n : ℕ} (hdvd : n ∣ o) (ho : o < 2 ^ 31) : ctxOff o n = BitVec.ofNat 64 o := by
  rw [ctxOff, elemAddr_eq ((Nat.div_le_self o n).trans_lt ho), Nat.div_mul_cancel hdvd]

/-- `p` is a pointer to `t` whose definition dominates the insertion point. -/
structure Usable (σ : GenState) (p : Value) (t : Ty) : Prop where
  ty : p.ty = .ptr t
  available : ∀ G, Builder.Extends σ.func G → G.Available p σ.insertBlock

theorem usable_of_made {σ : GenState} {p : Value} {t : Ty} (ht : p.ty = .ptr t)
    (h : σ.toBuilder.Made p) : Usable σ p t :=
  ⟨ht, fun _ hG => h.available (hG σ.insertBlock).1⟩

/-- Offsets into the context are of type `int` in VEX. -/
theorem ctxPointers_statement (gen : GenLLVM) (σ : GenState) (h : gen.Emitting σ) :
    (∀ (off : ℕ) (t : Ty) (p : Value) (σ' : GenState), t.bytes ∣ off → off < 2 ^ 31 →
      gen.getCtxByteGEP off t σ = .ok (p, σ') →
        Usable σ' p t ∧
          σ'.toBuilder.AtPoint fun fr => fr.eval p = some (.ctxPtr (BitVec.ofNat 64 off))) ∧
    (∀ (off : Value) (w : ℕ) (t : Ty) (p : Value) (σ' : GenState), off.ty = .int w →
      off.Below σ.nextId → gen.getCtxTyGEP off t σ = .ok (p, σ') →
        Usable σ' p t ∧
          σ'.toBuilder.AtPoint fun fr => ∀ i, fr.eval off = some (.bits i) → fr.eval p =
            some (.ctxPtr ((BitVec.ofNat w i).signExtend 64 * BitVec.ofNat 64 t.bytes))) ∧
    ∀ retVal, (openBB (endBB retVal σ)).gepbyteMap = (fun _ => none) ∧
      (openBB (endBB retVal σ)).ctxcastMap = fun _ => none := by
  refine ⟨?_, ?_, fun _ => ⟨rfl, rfl⟩⟩
  · intro off t p σ' hdvd hoff hm
    obtain ⟨⟨hty, hp⟩, -⟩ := triple_getCtxByteGEP off σ h.filed p σ' hm
    rw [ctxOff_eq hdvd hoff] at hp
    exact ⟨usable_of_made hty hp.toMade, hp.value⟩
  · intro off w t p σ' hw hb hm
    obtain ⟨-, hty, hmade, hat⟩ := triple_getCtxTyGEP hw σ ⟨h.filed, hb⟩ p σ' hm
    exact ⟨usable_of_made hty hmade, hat⟩

/-- The second request for the same eight bytes inserts nothing. -/
theorem ctxPointers_cached : ∃ σ p, plainGen.Emitting σ ∧
    plainGen.getCtxByteGEP 16 (.int 64) σ = .ok (p, σ) ∧ Usable σ p (.int 64) ∧
      σ.toBuilder.AtPoint fun fr => fr.eval p = some (.ctxPtr 16) := by
  obtain ⟨σ, p, hm, hc⟩ : ∃ σ p, plainGen.getCtxByteGEP 16 (.int 64) beginBB = .ok (p, σ) ∧
      plainGen.getCtxByteGEP 16 (.int 64) σ = .ok (p, σ) := ⟨_, _, rfl, rfl⟩
  have hσ : plainGen.Emitting σ := .step .first (.byteGEP hm)
  obtain ⟨hu, hat⟩ := (ctxPointers_statement plainGen σ hσ).1 16 (.int 64) p σ (by decide) (by decide) hc
  exact ⟨σ, p, hσ, hc, hu, hat⟩

end GenLLVM

end VexLLVM
