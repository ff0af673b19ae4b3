import VexLLVM.Emit.CondTmps

/-!
# Temporaries hidden behind a guard

The value that a dirty call sets under a guard is defined in a block that the rest of
the function is reached around. Every temporary that an emitted expression reads is
recorded as read, so reading such a temporary takes the function out of SSA form.
-/

namespace LLVM

/-- An instruction of the current block. -/
def Builder.Standing (b : Builder) (v : Value) : Prop :=
  ∃ id i, v = .inst id i.ty ∧ (id, i) ∈ b.current.insts

theorem Builder.standing_insert (b : Builder) (i : Inst) : (b.insert i).2.Standing (b.insert i).1 :=
  ⟨b.nextId, i, rfl, Builder.mem_insert_block.2 (.inr ⟨rfl, rfl⟩)⟩

/-- Casting an instruction gives an instruction. -/
theorem Builder.Standing.cast {b : Builder} {v : Value} (h : b.Standing v) (k : CastOp) (t : Ty) :
    (b.create (.cast k v t)).2.Standing (b.create (.cast k v t)).1 := by
  cases hs : (Inst.cast k v t).simplify? with
  | none =>
      rw [create_of_none hs]
      exact standing_insert b _
  | some w =>
      rw [create_of_some hs]
      unfold Inst.simplify? at hs
      split at hs
      · next w' hw =>
          cases hs
          have hop : v = w := by simpa [Inst.operands] using (Inst.sameTypeCast?_eq_some hw).1
          exact hop ▸ h
      · obtain ⟨id, i, rfl, hi⟩ := h
        have hc := (Inst.constFold?_eq_some hs).2.1 _ List.mem_cons_self
        cases hc

end LLVM

namespace VexLLVM

open LLVM LLVM.Code Vex StateExcept

variable {G : Func} {L : IRTemp → Prop} {σ σ₁ σ₂ σ' : GenState} {α β : Type} {t : IRTemp}

/-! ## What is read -/

class Reads (t : IRTemp) {α : Type} (m : EmitM α) : Prop where
  read : ∀ {σ σ' : GenState} {a : α}, m σ = .ok (a, σ') → σ.toBuilder.OK → ∃ k, (t, k) ∈ σ'.reads

namespace Reads

variable {m : EmitM α} {f : α → EmitM β}

theorem bind_left [Builds m] [∀ a, Flows VexStmt.AnyTmp (f a)] (h : Reads t m) :
    Reads t (m >>= f) where
  read hm hok := by
    obtain ⟨a, σ₁, h₁, h₂⟩ := bind_eq_ok hm
    obtain ⟨k, hk⟩ := h.read h₁ hok
    have hf : Flow VexStmt.AnyTmp _ _ := Flows.flow h₂ (Builds.onward h₁ hok).emits.ok
    exact ⟨k, hf.reads hk⟩

theorem bind_right [Builds m] (h : ∀ a, Reads t (f a)) : Reads t (m >>= f) where
  read hm hok := by
    obtain ⟨a, σ₁, h₁, h₂⟩ := bind_eq_ok hm
    exact (h a).read h₂ (Builds.onward h₁ hok).emits.ok

theorem getRegValue (t : IRTemp) : Reads t (getRegValue t) where
  read {σ σ' a} hm _ := by
    unfold VexLLVM.getRegValue at hm
    cases hv : σ.values t with
    | none =>
        rw [hv] at hm
        cases hm
    | some v =>
        rw [hv] at hm
        cases hm
        exact ⟨σ.insertBlock, List.mem_cons_self⟩

theorem emitAll {ms : List (EmitM α)} (hb : ∀ m ∈ ms, Builds m)
    (hf : ∀ m ∈ ms, Flows VexStmt.AnyTmp m) (h : ∃ m ∈ ms, Reads t m) : Reads t (emitAll ms) := by
  induction ms with
  | nil =>
      obtain ⟨m, hm, -⟩ := h
      cases hm
  | cons m ms ih =>
      have := hb m List.mem_cons_self
      have hb' := fun m' hm' => hb m' (List.mem_cons_of_mem m hm')
      have hf' := fun m' hm' => hf m' (List.mem_cons_of_mem m hm')
      have := builds_emitAll hb'
      have := flows_emitAll hb' hf'
      obtain ⟨m', hm', hr⟩ := h
      unfold VexLLVM.emitAll
      rcases List.mem_cons.1 hm' with rfl | hm'
      · exact hr.bind_left
      · exact bind_right fun _ => (ih hb' hf' ⟨m', hm', hr⟩).bind_left

theorem ifThen {cond : EmitM Value} {body : EmitM α} [Builds cond] [Builds body]
    [Flows VexStmt.AnyTmp body] (h : Reads t cond ∨ Reads t body) : Reads t (ifThen cond body) where
  read {σ σ' a} hm hok := by
    obtain ⟨c, σ₁, σ₂, h₁, h₂, rfl⟩ := ifThen_eq_ok hm
    have hi : IfThen σ σ₁ σ₂ _ (.br (σ.func.nblocks + 1)) :=
      IfThen.of_ok hok h₁ h₂ (by simp [Term.succs])
    rcases h with h | h
    · obtain ⟨k, hk⟩ := h.read h₁ hi.init.emits.ok
      have hf : Flow VexStmt.AnyTmp _ _ := Flows.flow h₂ hi.then_.enter.emits.ok
      exact ⟨k, hf.reads hk⟩
    · obtain ⟨k, hk⟩ := h.read h₂ hi.then_.enter.emits.ok
      exact ⟨k, hk⟩

theorem ifThenElse {b : Bool} {cond first second : EmitM Value} [Builds cond] [Builds first]
    [Builds second] [Flows VexStmt.AnyTmp first] [Flows VexStmt.AnyTmp second]
    (h : Reads t cond ∨ Reads t first ∨ Reads t second) :
    Reads t (ifThenElse b cond first second) where
  read {σ σ' r} hm hok := by
    obtain ⟨c, σ₁, x, σ₂, y, σ₃, h₁, h₂, h₃, -, rfl⟩ := ifThenElse_eq_ok hm
    have hi := IfThenElse.of_ok hok (by cases b <;> simp) h₁ h₂ h₃
    have hxe := hi.cond.emits.ok.endBlock (t := .condBr c σ.func.nblocks (σ.func.nblocks + 1))
      hi.first.waiting
    have hye := hi.first.all.emits.ok.endBlock (t := .br (σ.func.nblocks + 2)) hi.second.waiting
    have hfx : Flow VexStmt.AnyTmp _ σ₂ := Flows.flow h₂ hxe
    have hfy : Flow VexStmt.AnyTmp _ σ₃ := Flows.flow h₃ hye
    rcases h with h | h | h
    · obtain ⟨k, hk⟩ := h.read h₁ hi.init.emits.ok
      exact ⟨k, hfy.reads (hfx.reads hk)⟩
    · obtain ⟨k, hk⟩ := h.read h₂ hxe
      exact ⟨k, hfy.reads hk⟩
    · obtain ⟨k, hk⟩ := h.read h₃ hye
      exact ⟨k, hk⟩

end Reads

namespace VexStmt

variable {gen : GenLLVM} {types : List IRType}

end VexStmt

/-! ## What is hidden -/

/-- The temporary was set to an instruction of a block that the rest is reached around,
and that the places it was read at are reached around. -/
def Hidden (G : Func) (t : IRTemp) (σ : GenState) : Prop :=
  ∃ id ty d, σ.values t = some (.inst id ty) ∧ σ.func.DefinedIn id d ∧ d < σ.func.nblocks ∧
    G.Avoids d σ.insertBlock ∧ ∀ q ∈ σ.reads, q.1 = t → G.Avoids d q.2

/-- Where temporaries that were read have values, and blocks not made yet are on no
path to where code is inserted. -/
structure Front (G : Func) (σ : GenState) : Prop where
  known : ∀ q ∈ σ.reads, σ.values q.1 ≠ none
  avoids : ∀ d, σ.func.nblocks ≤ d → G.Avoids d σ.insertBlock

theorem Front.flow (h : Front G σ) (ho : σ.Onward σ') (hf : Flow L σ σ')
    (hG : Builder.Extends σ'.func G) : Front G σ' where
  known q hq := by
    rcases hf.known q hq with hq | hq
    · exact ho.set (h.known q hq)
    · exact hq
  avoids d hd := (hf.avoids d G hG (.inr hd) (h.avoids d (ho.emits.grows.nblocks.trans hd))).1

/-- What is hidden stays hidden. -/
theorem Hidden.flow (h : Hidden G t σ) (ho : σ.Onward σ') (hf : Flow L σ σ')
    (hG : Builder.Extends σ'.func G) : Hidden G t σ' := by
  obtain ⟨id, ty, d, hv, ⟨i, hi⟩, hd, ha, hr⟩ := h
  obtain ⟨ha', hr'⟩ := hf.avoids d G hG (.inl hd) ha
  refine ⟨id, ty, d, ho.values t _ hv, ⟨i, (ho.emits.ext d).1.subset hi⟩,
    hd.trans_le ho.emits.grows.nblocks, ha', fun q hq ht => ?_⟩
  rcases hr' q hq with hq | hq
  · exact hr q hq ht
  · exact hq

namespace VexStmt

variable {gen : GenLLVM} {types : List IRType} {ρ : IRTemp → Option Value}

end VexStmt

namespace VexSB

variable {gen : GenLLVM} {types : List IRType} {ρ : IRTemp → Option Value}

end VexSB

end VexLLVM
