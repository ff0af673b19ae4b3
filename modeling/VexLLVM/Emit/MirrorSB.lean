import VexLLVM.Emit.MirrorStmt

/-!
# Superblocks with a log and without one

A superblock that is emitted without a log is emitted with one as well. Its function
with the log traces the one without it, and is well formed where no store is wider than
the data of an entry.
-/

namespace VexLLVM

open LLVM LLVM.Code Vex StateExcept

namespace VexSB

variable {gen : GenLLVM} {types : List IRType} {w : Pairing} {sb : VexSB}

section

variable (gen types)

/-- The LLVM types of the addresses and the data that the statements store. -/
def storedTys : (IRTemp → Option Value) → List VexStmt → List (Ty × Ty)
  | _, [] => []
  | ρ, s :: ss => (s.storedTy gen ρ).toList ++ storedTys (s.after gen types ρ) ss

def stored (sb : VexSB) : List (Ty × Ty) := storedTys gen sb.types noValues sb.stmts

end

theorem forall_storedTys_cons {Q : Ty × Ty → Prop} {ρ : IRTemp → Option Value} {s : VexStmt}
    {ss : List VexStmt} :
    (∀ p ∈ storedTys gen types ρ (s :: ss), Q p) ↔
      (∀ p ∈ s.storedTy gen ρ, Q p) ∧ ∀ p ∈ storedTys gen types (s.after gen types ρ) ss, Q p := by
  rw [storedTys, List.forall_mem_append]
  exact and_congr_left fun _ => forall_congr' fun p =>
    imp_congr_left Option.mem_toList

theorem mirrors_emitStmts (hlog : gen.logLastStore = false) (ss : List VexStmt)
    {ρ : IRTemp → Option Value} (hty : ∀ p ∈ storedTys gen types ρ ss,
      p.1 = .int gen.addrBits ∧ p.2.elem?.isSome = true) :
    Mirrors gen (Recorded ρ) w (emitStmts gen types ss) (emitStmts gen.logging types ss)
      (∀ p ∈ storedTys gen types ρ ss, p.2.bits ≤ MemLog.MAX_STORE_SIZE) SameThing := by
  induction ss generalizing ρ w with
  | nil => exact (mirrors_pure rfl).congr (iff_of_true trivial nofun)
  | cons s ss ih =>
      rw [forall_storedTys_cons] at hty
      exact ((VexStmt.mirrors_stmt hlog s hty.1).bind_emission (VexStmt.emission_stmt s)
        fun _ _ _ _ _ _ => ih hty.2).congr forall_storedTys_cons.symm

/-- The functions are the same but for the log. -/
theorem exists_endBB {M : Prop} {σ σ' σ₁ : GenState} {v v' : Value} {F : Func}
    (hm : Mirror gen w M σ σ') (hv : SameValue w v v') (h : endBB v σ = .ok (F, σ₁)) :
    ∃ F', endBB v' σ' = .ok (F', σ') ∧ Func.Traces w.pair (Logged gen w) F F' ∧
      (F'.Legal ↔ F.Legal ∧ M) := by
  cases h
  refine ⟨_, rfl, hm.traces_endBlock 0 (.ret hv), ?_⟩
  change (σ'.endBlock (.ret v') 0).func.Legal ↔ (σ.endBlock (.ret v) 0).func.Legal ∧ M
  rw [GenState.endBlock_legal, GenState.endBlock_legal, hm.legal]

theorem exists_emitJump {M : Prop} {σ σ' σ₁ : GenState} {F : Func} (hm : Mirror gen w M σ σ')
    (h : emitJump gen sb σ = .ok (F, σ₁)) :
    ∃ w₁ F' σ₁', emitJump gen.logging sb σ' = .ok (F', σ₁') ∧ w₁.OK σ₁.nextId σ₁'.nextId ∧
      Func.Traces w₁.pair (Logged gen w₁) F F' ∧ (F'.Legal ↔ F.Legal ∧ M) := by
  have hsame : emitJump gen.logging sb = emitJump gen sb := by
    simp only [emitJump, VexExpr.emit_logging]
    rfl
  obtain ⟨v, σ₂, h₁, h⟩ := bind_eq_ok h
  obtain ⟨w₁, v', σ₂', -, h₁', hm₁, hv⟩ :=
    VexExpr.mirrors_emit (P := fun _ => True) sb.jumpExpr w M σ σ' σ₂ v trivial hm h₁
  rw [and_true] at hm₁
  rw [hsame, emitJump, bind_ok h₁']
  cases hj : jumpExit sb.jumpKind with
  | none =>
      rw [hj] at h
      cases h
  | some t =>
      rw [hj] at h
      cases t with
      | none =>
          obtain ⟨F', hend, htr, hl⟩ := exists_endBB hm₁ hv h
          cases h
          exact ⟨w₁, F', σ₂', hend, hm₁.ok, htr, hl⟩
      | some t =>
          obtain ⟨⟨⟩, σ₃, h₂, h⟩ := bind_eq_ok h
          obtain ⟨w₂, ⟨⟩, σ₃', hw, h₂', hm₂, -⟩ :=
            GenLLVM.mirrors_setExitType (P := fun _ => True) t.code M σ₂ σ₂' σ₃ () trivial hm₁ h₂
          rw [and_true] at hm₂
          obtain ⟨F', hend, htr, hl⟩ := exists_endBB hm₂ (hv.mono hw.1) h
          cases h
          exact ⟨w₂, F', σ₃', (bind_ok h₂').trans hend, hm₂.ok, htr, hl⟩

theorem mirror_beginBB : Mirror gen Pairing.none True GenLLVM.beginBB GenLLVM.beginBB where
  ok := .none _ _
  built := .empty
  built' := .empty
  insertBlock := rfl
  nblocks := rfl
  traces := ⟨fun _ => .nil, fun _ => .none⟩
  legal := (and_iff_left trivial).symm
  values _ := .none
  gepbytes _ := .none
  ctxcasts _ := .none

/-- The superblock with the log. -/
theorem exists_emit_logging {F : Func} (hlog : gen.logLastStore = false)
    (hty : ∀ p ∈ sb.stored gen, p.1 = .int gen.addrBits ∧ p.2.elem?.isSome = true)
    (h : sb.emit gen = .ok F) :
    ∃ F' w n n', sb.emit gen.logging = .ok F' ∧ w.OK n n' ∧
      Func.Traces w.pair (Logged gen w) F F' ∧
      (F'.Legal ↔ F.Legal ∧ ∀ p ∈ sb.stored gen, p.2.bits ≤ MemLog.MAX_STORE_SIZE) := by
  obtain ⟨⟨F, σ₂⟩, hrun, rfl⟩ : ∃ r, sb.emitM gen GenLLVM.beginBB = .ok r ∧ r.1 = F := by
    unfold emit at h
    cases hr : sb.emitM gen GenLLVM.beginBB with
    | error e =>
        rw [hr] at h
        cases h
    | ok r =>
        rw [hr] at h
        cases h
        exact ⟨r, rfl, rfl⟩
  obtain ⟨⟨⟩, σ₁, h₁, h₂⟩ := bind_eq_ok hrun
  obtain ⟨w₁, ⟨⟩, σ₁', -, h₁', hm₁, -⟩ := mirrors_emitStmts hlog sb.stmts hty True _ _ σ₁ ()
    ⟨beginBB_OK, rfl⟩ mirror_beginBB h₁
  obtain ⟨w₂, F', σ₂', h₂', hok, htr, hl⟩ := exists_emitJump hm₁ h₂
  refine ⟨F', w₂, _, _, ?_, hok, htr, hl.trans (and_congr_right fun _ => and_iff_right trivial)⟩
  rw [emit, emitM, bind_ok h₁', h₂']
  rfl

/-- Both functions run alike, on machines that differ in the log only. -/
theorem run_logging {w : Pairing} {n n' : ℕ} {F F' : Func} {ext : Extern} (hext : ext.Blind)
    (hw : w.OK n n') (hF : Func.Traces w.pair (Logged gen w) F F') {m m' : Machine}
    (hm : m.Same m') :
    (∀ k r, F.run ext k (Func.start m) = some r → ∃ k' r', F'.run ext k' (Func.start m') = some r' ∧
      SameRun r r') ∧
    ∀ k r', F'.run ext k (Func.start m') = some r' → ∃ k' r, F.run ext k' (Func.start m) = some r ∧
      SameRun r r' := by
  have hc : (Func.start m).Coupled w.pair (Func.start m') := ⟨rfl, rfl, fun _ => rfl, hm⟩
  have hE : Silent ext w.pair (Logged gen w) := Logged.silent hw ext
  exact ⟨fun _ _ hr => hF.run hw.oneToOne hext hE hc (hF.insts 0) hr,
    fun _ _ hr => hF.run_back hw.oneToOne hext hE hc (hF.insts 0) hr⟩

end VexSB

end VexLLVM
