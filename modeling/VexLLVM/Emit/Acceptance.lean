import VexLLVM.Emit.SBDraft
import VexLLVM.Emit.VexXlate

/-!
# What the translator accepts

A block is refused while its count of unhandled expressions is not zero. Other
expressions that cannot be emitted are not counted: those that have no object,
and those of an operation whose emitter is not written. `handles` says which
blocks the translator is sound on.
-/

namespace VexLLVM

open LLVM LLVM.Code Vex

theorem VexSB.emit_ok_iff (gen : GenLLVM) (sb : VexSB) :
    (∃ f, sb.emit gen = .ok f) ↔ sb.fails gen = false := by
  have h := @VexSB.emission_emitM gen sb
  unfold VexSB.emit
  constructor
  · rintro ⟨f, hf⟩
    cases hm : sb.emitM gen GenLLVM.beginBB with
    | ok r => exact Bool.eq_false_iff.2 ((h _ VexSB.beginBB_OK rfl _ rfl).1 r.1 r.2 hm).1
    | error e =>
        rw [hm] at hf
        cases hf
  · intro hf
    obtain ⟨f, σ, hm⟩ := h.exists_ok VexSB.beginBB_OK rfl (Bool.eq_false_iff.1 hf)
    exact ⟨f, by rw [hm]; rfl⟩

namespace VexXlate

/-- The translator refuses the block, or hands back an object that is emitted to
the end. -/
def Sound (gen : GenLLVM) (a : BitVec 64) (irsb : IRSB) : Prop :=
  xlate gen a irsb = .ok none ∨ ∃ sb, xlate gen a irsb = .ok (some sb) ∧ ∃ f, sb.emit gen = .ok f

/-- The block is one the decoder gave up on; or building its objects does not end
the process, it has an instruction mark, and it holds an operation that is
counted or nothing that cannot be emitted. -/
def handles (gen : GenLLVM) (a : BitVec 64) (irsb : IRSB) : Bool :=
  irsb.jumpkind == .NoDecode ||
    (((VexSB.ofIRSB gen a irsb).exprs.findSome? VexExpr.aborts).isNone &&
      (VexSB.lastImark (VexSB.ofIRSB gen a irsb).stmts).isSome &&
        (unhandled irsb != 0 || !(VexSB.ofIRSB gen a irsb).fails gen))

/-- The translator is sound exactly on the blocks it handles. -/
theorem sound_iff (gen : GenLLVM) (a : BitVec 64) (irsb : IRSB) :
    Sound gen a irsb ↔ handles gen a irsb = true := by
  unfold Sound handles xlate VexSB.create
  by_cases hn : irsb.jumpkind = .NoDecode
  · simp [hn]
  · rw [if_neg hn]
    dsimp only
    cases (VexSB.ofIRSB gen a irsb).exprs.findSome? VexExpr.aborts with
    | some e => simp [hn]
    | none =>
        cases VexSB.lastImark (VexSB.ofIRSB gen a irsb).stmts with
        | none => simp [hn]
        | some p =>
            by_cases hu : unhandled irsb = 0
            · simp [hn, hu, VexSB.emit_ok_iff]
            · simp [hn, hu]

/-- A block that narrows two vectors: the operation has a class, and its emitter
asserts `false`. -/
def narrowBlock : IRSB :=
  ⟨[.V128], [.IMark 0x1000 4, .Put 224 (.Nary .Binop (.iop .NarrowBin16to8x16)
    ![.Get 224 .V128, .Get 240 .V128])], .Const (.U64 0x1004), .Boring⟩

theorem not_sound_narrowBlock : ¬ Sound plainGen 0x1000 narrowBlock := by
  have hx : (xlate plainGen 0x1000 narrowBlock).toOption.map Option.isSome = some true := by
    decide +kernel
  have he : ((xlate plainGen 0x1000 narrowBlock).toOption.map fun o =>
      o.all fun sb => (sb.emit plainGen).toOption.isNone) = some true := by
    decide +kernel
  rintro (h | ⟨sb, h, f, hf⟩)
  · rw [h] at hx
    cases hx
  · rw [h] at he
    simp [hf, Except.toOption] at he

end VexXlate

end VexLLVM
