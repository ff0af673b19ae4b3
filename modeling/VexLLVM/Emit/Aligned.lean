import VexLLVM.Emit.SBDraft
import VexLLVM.Emit.CAS

/-!
# Are the accesses to guest memory aligned?

Loads and stores of guest memory are emitted with an alignment of eight bytes, whatever
the guest address and the type are. Both go to the same host address, so that a load
reads back what was stored there.
-/

namespace VexLLVM

open LLVM LLVM.Code Vex StateExcept

/-- The state without what is recorded for the temporaries and for the context. -/
def GenState.bare (σ : GenState) : GenState := ⟨σ.toBuilder, fun _ => none, fun _ => none, fun _ => none, []⟩

section Bare

variable {gen : GenLLVM} {a d v : Value} {t : Ty} {σ σ' : GenState} {fr : Frame}
  {L : List (Value × RVal)}

theorem stands_bare (h : ∀ v r, (v, r) ∈ L → fr.Has σ.nextId v r) :
    Stands (fun _ => none) L fr.m σ.bare fr :=
  ⟨rfl, h, fun _ _ _ h => (by cases h), fun _ _ _ h => (by cases h), fun _ _ _ _ h => (by cases h)⟩

theorem code_bare {α : Type} {c : Code EmitError α} {r : α} (h : code c σ = .ok (r, σ')) :
    code c σ.bare = .ok (r, σ'.bare) := by
  unfold code at h ⊢
  rw [show σ.bare.toBuilder = σ.toBuilder from rfl]
  cases hrun : c.run σ.toBuilder with
  | error e =>
      rw [hrun] at h
      cases h
  | ok q =>
      rw [hrun] at h
      cases h
      rfl

theorem load_bare (h : gen.load a t σ = .ok (v, σ')) : gen.load a t σ.bare = .ok (v, σ'.bare) :=
  code_bare h

theorem store_bare (h : gen.store a d σ = .ok ((), σ')) :
    gen.store a d σ.bare = .ok ((), σ'.bare) := by
  unfold GenLLVM.store at h ⊢
  split at h
  · next hlog =>
      rw [if_pos hlog]
      obtain ⟨_, σ₁, h₁, h₂⟩ := bind_eq_ok h
      rw [bind_ok (code_bare h₁)]
      exact code_bare h₂
  · next hlog =>
      rw [if_neg hlog]
      exact code_bare h

end Bare

def GenState.placed (σ σ' : GenState) : ℕ := σ'.toBuilder.pos - σ.toBuilder.pos

/-- Where an access is emitted: the function is finished from there, and the frame has
got there with the guest address computed. -/
structure AccessAt (gen : GenLLVM) (a : Value) (x : ℕ) (σ σ' : GenState) (G : Func) (fr : Frame) :
    Prop where
  ok : σ.toBuilder.OK
  finished : Builder.Extends σ'.func G
  here : fr.At σ.toBuilder
  ty : a.ty = .int gen.addrBits
  addr : fr.Has σ.nextId a (.bits x)

/-- No access is undefined, and the value comes to the number. -/
def ReadsBack (ext : Extern) (G : Func) (σ σ' : GenState) (fr : Frame) (v : Value) (y : ℕ) : Prop :=
  G.DefinedFor ext (σ.placed σ') fr ∧
    ∃ fr', G.after ext (σ.placed σ') fr = some fr' ∧ fr'.eval v = some (.bits y)

section Access

variable {ext : Extern} {gen : GenLLVM} {a d v : Value} {x y : ℕ} {t : Ty} {σ σ' : GenState} {G : Func}
  {fr : Frame}

/-- From where an access is emitted, code is walked through that goes by what is known
there. -/
theorem AccessAt.walks {α : Type} {m : EmitM α} {r : α} {p : Prop} {Q : α → Assertion}
    {L : List (Value × RVal)} (h : AccessAt gen a x σ σ' G fr) (hm : m σ.bare = .ok (r, σ'.bare))
    (hL : ∀ v r, (v, r) ∈ L → fr.Has σ.nextId v r)
    (hp : Passes ext (Stands (fun _ => none) L fr.m) m p Q) :
    (G.DefinedFor ext (σ.placed σ') fr ↔ p) ∧
      ∃ fr', G.after ext (σ.placed σ') fr = some fr' ∧ Q r σ'.bare fr' := by
  obtain ⟨fr', hw, hq⟩ := hp σ.bare r σ'.bare G fr hm h.ok h.finished h.here (stands_bare hL)
  exact ⟨hw.defined, fr', hw.after, hq⟩

theorem AccessAt.known (h : AccessAt gen a x σ σ' G fr) (hd : fr.Has σ.nextId d (.bits y)) :
    ∀ v r, (v, r) ∈ [(a, RVal.bits x), (d, .bits y)] → fr.Has σ.nextId v r := by
  intro v r hv
  rcases List.mem_cons.1 hv with he | hv
  · cases he
    exact h.addr
  · cases List.mem_singleton.1 hv
    exact hd

theorem store_defined_iff (h : AccessAt gen a x σ σ' G fr) (hd : fr.Has σ.nextId d (.bits y))
    (hm : gen.store a d σ = .ok ((), σ')) :
    G.DefinedFor ext (σ.placed σ') fr ↔ 8 ∣ (gen.hostAt x).toNat :=
  (h.walks (store_bare hm) (h.known hd) (passes_store (x := x) (y := y) h.ty (by simp) (by simp))).1

theorem load_defined_iff (h : AccessAt gen a x σ σ' G fr) (hm : gen.load a t σ = .ok (v, σ')) :
    G.DefinedFor ext (σ.placed σ') fr ↔ (gen.fakeRead a = none → 8 ∣ (gen.hostAt x).toNat) :=
  (h.walks (load_bare hm) (h.known h.addr) (passes_load (x := x) h.ty (by simp) t)).1

/-- What is loaded right after a store at the same address. -/
theorem loaded_storeTo (ht : t.bits = 8 * t.bytes) (ht' : t.bytes ≤ 2 ^ 64) (hy : y < 2 ^ t.bits)
    (M : Machine) : (gen.loaded (gen.storeTo M x t.bytes y).mem a x t).2 =
      match gen.fakeRead a with
      | some u => u.toNat % 2 ^ t.bits
      | none => y := by
  unfold GenLLVM.loaded GenLLVM.storeTo
  cases gen.fakeRead a with
  | some u => rfl
  | none =>
      dsimp only
      rw [readBytes_writeBytes ht', ← ht, Nat.mod_eq_of_lt hy]

theorem passes_readBack (hty : a.ty = .int gen.addrBits) (L : List (Value × RVal))
    (ha : (a, .bits x) ∈ L) (hd : (d, .bits y) ∈ L) (M : Machine) :
    Passes ext (Stands (fun _ => none) L M) (do gen.store a d; gen.load a t)
      (8 ∣ (gen.hostAt x).toNat) (fun v _ fr => fr.eval v = some (.bits
        (gen.loaded (gen.storeTo M x d.ty.bytes y).mem a x t).2)) := by
  refine ((passes_store hty ha hd).bind fun _ => passes_load hty ha t).congr
    (and_iff_left_of_imp fun h _ => h) |>.post fun v σ fr h => ?_
  exact (h.2.vals _ _ (List.mem_cons_self ..)).2

theorem readsBack_iff (ht : t.bits = 8 * t.bytes) (ht' : t.bytes ≤ 2 ^ 64)
    (h : AccessAt gen a x σ σ' G fr) (hd : fr.Has σ.nextId d (.bits y)) (hdt : d.ty = t)
    (hy : y < 2 ^ t.bits) (hm : (do gen.store a d; gen.load a t) σ = .ok (v, σ')) :
    ReadsBack ext G σ σ' fr v y ↔ 8 ∣ (gen.hostAt x).toNat ∧
      ∀ u, gen.fakeRead a = some u → u.toNat % 2 ^ t.bits = y := by
  have hbare : (do gen.store a d; gen.load a t) σ.bare = .ok (v, σ'.bare) := by
    obtain ⟨_, σ₁, h₁, h₂⟩ := bind_eq_ok hm
    rw [bind_ok (store_bare h₁)]
    exact load_bare h₂
  have hpass := @passes_readBack ext gen a d x y t h.ty [(a, .bits x), (d, .bits y)] (by simp)
    (by simp) fr.m
  obtain ⟨hdef, fr', hafter, hv⟩ := h.walks hbare (h.known hd) hpass
  rw [hdt, loaded_storeTo ht ht' hy] at hv
  rw [ReadsBack, hdef]
  refine and_congr_right fun _ => ?_
  rw [hafter]
  cases hf : gen.fakeRead a with
  | none => simp_all
  | some u => simp_all

end Access

/-- An access at an address is defined exactly if the host address is a multiple of
eight, or the access is a load that is faked; and what is read back after a store is
what was stored exactly if both are defined, and the load is not faked or the host copy
of the system page has the same. -/
theorem access_iff (gen : GenLLVM) (a : Value) (x : ℕ) {t : Ty} (ht : t.bits = 8 * t.bytes)
    (ht' : t.bytes ≤ 2 ^ 64) (ext : Extern) (G : Func) (σ σ' : GenState) (fr : Frame)
    (h : AccessAt gen a x σ σ' G fr) :
    (∀ d y, fr.Has σ.nextId d (.bits y) → gen.store a d σ = .ok ((), σ') →
      (G.DefinedFor ext (σ.placed σ') fr ↔ 8 ∣ (gen.hostAt x).toNat)) ∧
    (∀ v, gen.load a t σ = .ok (v, σ') →
      (G.DefinedFor ext (σ.placed σ') fr ↔ (gen.fakeRead a = none → 8 ∣ (gen.hostAt x).toNat))) ∧
    ∀ d y v, d.ty = t → y < 2 ^ t.bits → fr.Has σ.nextId d (.bits y) →
      (do gen.store a d; gen.load a t) σ = .ok (v, σ') →
      (ReadsBack ext G σ σ' fr v y ↔ 8 ∣ (gen.hostAt x).toNat ∧
        ∀ u, gen.fakeRead a = some u → u.toNat % 2 ^ t.bits = y) :=
  ⟨fun _ _ hd hm => store_defined_iff h hd hm, fun _ hm => load_defined_iff h hm,
    fun _ _ _ hdt hy hd hm => readsBack_iff ht ht' h hd hdt hy hm⟩

def storeLoad (x : ℕ) : EmitM Value := do
  plainGen.store (constInt 64 x) (constInt 8 7)
  plainGen.load (constInt 64 x) (.int 8)

theorem accessAt_beginBB (x : ℕ) (σ' : GenState) :
    AccessAt plainGen (constInt 64 x) (x % 2 ^ 64) GenLLVM.beginBB σ' σ'.func
      (Func.start zeroMachine) where
  ok := VexSB.beginBB_OK.builder
  finished := .refl _
  here := at_beginBB _
  ty := rfl
  addr := .of_isConst rfl rfl

theorem access_iff_storeLoad :
    ∃ v σ', storeLoad 0x1000 GenLLVM.beginBB = .ok (v, σ') ∧
      ReadsBack (fun _ _ _ => none) σ'.func GenLLVM.beginBB σ' (Func.start zeroMachine) v 7 := by
  obtain ⟨⟨v, σ'⟩, h⟩ : ∃ r, storeLoad 0x1000 GenLLVM.beginBB = .ok r := ⟨_, rfl⟩
  have hiff := access_iff plainGen (constInt 64 0x1000) (0x1000 % 2 ^ 64) (t := .int 8) (by decide)
    (by decide) (fun _ _ _ => none) σ'.func GenLLVM.beginBB σ' (Func.start zeroMachine) (accessAt_beginBB 0x1000 σ')
  refine ⟨v, σ', h, (hiff.2.2 (constInt 8 7) 7 v rfl (by decide) (.of_isConst rfl rfl) h).2 ⟨?_, ?_⟩⟩
  · decide
  · exact fun u hu => by cases hu

/-- At an odd address neither access is defined. -/
theorem not_readsBack_storeLoad :
    ∃ v σ', storeLoad 0x1001 GenLLVM.beginBB = .ok (v, σ') ∧
      ¬ ReadsBack (fun _ _ _ => none) σ'.func GenLLVM.beginBB σ' (Func.start zeroMachine) v 7 := by
  obtain ⟨⟨v, σ'⟩, h⟩ : ∃ r, storeLoad 0x1001 GenLLVM.beginBB = .ok r := ⟨_, rfl⟩
  refine ⟨v, σ', h, fun hr => ?_⟩
  have hdvd := ((readsBack_iff (by decide) (by decide) (accessAt_beginBB 0x1001 σ')
    (.of_isConst rfl rfl) rfl (by decide) h).1 hr).1
  exact absurd hdvd (by decide)

end VexLLVM
