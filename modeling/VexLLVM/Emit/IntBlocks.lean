import VexLLVM.Emit.CallBlocks

/-!
# The emitted function does what the block means

For well-typed blocks over the integers of a 64-bit guest: the function they are
emitted as takes the guest where the reference semantics does. They are the blocks that
call no helper, whatever the helpers are.
-/

namespace VexLLVM

open LLVM LLVM.Code Vex

/-- What holds of the guest before every statement that is run, and at the end. -/
def Throughout (P : State → Prop) (s : State) : List IRStmt → Prop
  | [] => P s
  | stmt :: stmts => P s ∧ ∀ s', stmt.run s = .ok (.next s') → Throughout P s' stmts

theorem throughout_of_forall {P : State → Prop} (h : ∀ s, P s) {stmts : List IRStmt} {s : State} :
    Throughout P s stmts := by
  induction stmts generalizing s with
  | nil => exact h s
  | cons stmt stmts ih => exact ⟨h s, fun _ _ => ih⟩

section Blocks

variable {callees : Callees} {types : List IRType} {Γ Γ' : Widths} {s : State} {sb : IRSB}

theorem implementsAt_none (gen : GenLLVM) (ext : Extern) (callees : Callees) :
    ImplementsAt gen (fun _ => none) ext callees where
  known _ _ h := by cases h
  signed _ _ h := by cases h
  calls _ _ h := by cases h

theorem throughoutWith_of_checkStmts {P : State → Prop} {stmts : List IRStmt}
    (h : checkStmts types Γ stmts = some Γ') (ht : Throughout P s stmts) :
    ThroughoutWith callees types P s stmts := by
  induction stmts generalizing Γ s with
  | nil => exact ht
  | cons stmt stmts ih =>
      obtain ⟨Γ₁, h₁, h⟩ := Option.bind_eq_some_iff.1 h
      refine ⟨ht.1, fun s' hs' => ih h (ht.2 s' ?_)⟩
      rwa [runWith_of_checks (checks_of_check h₁)] at hs'

theorem all_emittableWith_eq {stmts : List IRStmt} (h : checkStmts types Γ stmts = some Γ') :
    stmts.all (emittableWith types) = stmts.all emittable := by
  induction stmts generalizing Γ with
  | nil => rfl
  | cons stmt stmts ih =>
      obtain ⟨Γ₁, h₁, h⟩ := Option.bind_eq_some_iff.1 h
      rw [List.all_cons, List.all_cons, emittableWith_of_checks (checks_of_check h₁), ih h]

theorem blockEmittableWith_eq (hwt : sb.wellTyped = true) :
    blockEmittableWith sb = blockEmittable sb := by
  obtain ⟨-, Γ, hΓ, -⟩ := IRSB.exists_of_wellTyped hwt
  rw [blockEmittableWith, blockEmittable, all_emittableWith_eq hΓ]

end Blocks

/-- A well-typed block over the integers of a 64-bit guest is emitted exactly where its
types and jump kinds are known, and the function takes the guest where the block does:
to the same state, with the exit type of the jump in it, to the same memory, and to the
same next address. No shift is by the width or more. Where the host copy of the system
page stands in for loads from it, the guest has the copy there. -/
theorem intBlocks_statement (gen : GenLLVM) (a : BitVec 64) (sb : IRSB) (h64 : gen.is32Bit = false)
    (hoff : gen.exitTypeOffset < 2 ^ 31) (hwt : sb.wellTyped = true) :
    ((∃ F, (VexSB.ofIRSB gen a sb).emit gen = .ok F) ↔ blockEmittable sb = true) ∧
      ∀ F, (VexSB.ofIRSB gen a sb).emit gen = .ok F → ∀ (ext : Extern) (M : Machine),
        Throughout gen.Copied ⟨M.ctx, gen.guestMem M.mem, fun _ => none⟩ sb.stmts →
          sb.run M.ctx (gen.guestMem M.mem) ≠ .error .wideShift →
            ∃ r n M', sb.run M.ctx (gen.guestMem M.mem) = .ok r ∧
              F.run ext n (Func.start M) = some (.bits r.next.toNat, M') ∧
                M'.ctx = gen.marked r.jk r.guest ∧ gen.guestMem M'.mem = r.mem := by
  have hwith : sb.wellTypedWith (fun _ => none) = true := IRSB.wellTypedWith_of_wellTyped hwt
  refine ⟨?_, fun F he ext M hc hshift => ?_⟩
  · rw [← blockEmittableWith_eq hwt]
    exact emit_ok_iff_emittableWith a (fun _ _ h => by cases h) hwith
  · -- no helper is called, so that they may do anything
    let callees : Callees := fun _ _ guest mem => ⟨⟨1, 0⟩, guest, mem⟩
    have heq : sb.runWith callees M.ctx (gen.guestMem M.mem) = sb.run M.ctx (gen.guestMem M.mem) :=
      IRSB.runWith_eq_run hwt _ _
    obtain ⟨-, Γ, hΓ, -⟩ := IRSB.exists_of_wellTyped hwt
    have hmeans := block_means (implementsAt_none gen ext callees) h64 hoff hwith he
      (throughoutWith_of_checkStmts hΓ hc) (by rwa [heq])
    rwa [heq] at hmeans

/-- A block that counts a register up, and stores the element of an array that another
one selects where it is not zero; a call, when it is. -/
def countBlock : IRSB :=
  ⟨[.I64, .I8], [.IMark 0x1000 4,
    .WrTmp 0 (.Nary .Binop (.iop .Add64) ![.Get 16 .I64, .Const (.U64 1)]),
    .Put 16 (.RdTmp 0),
    .WrTmp 1 (.ITE (.Nary .Binop (.iop .CmpLT64U) ![.RdTmp 0, .Get 24 .I64]) (.Get 32 .I8)
      (.GetI ⟨64, .I8, 8⟩ (.Get 40 .I32) (-1))),
    .StoreG .LE (.RdTmp 0) (.RdTmp 1) (.Nary .Binop (.iop .CmpNE8) ![.RdTmp 1, .Const (.U8 0)]),
    .Exit (.Nary .Binop (.iop .CmpEQ8) ![.RdTmp 1, .Const (.U8 0)]) (.U64 0x2000) .Call],
    .Load .LE .I64 (.RdTmp 0), .Boring⟩

theorem intBlocks_count :
    ∃ F, (VexSB.ofIRSB plainGen 0x1000 countBlock).emit plainGen = .ok F ∧
      ∃ n M', F.run (fun _ _ _ => none) n (Func.start ⟨fun _ => 0, fun _ => 0, []⟩) =
        some (.bits 0x2000, M') ∧
      M'.ctx 16 = 1 ∧ M'.ctx 904 = BitVec.ofNat 8 GuestExitType.CALL.code := by
  obtain ⟨hemit, hmeans⟩ :=
    intBlocks_statement plainGen 0x1000 countBlock rfl (by decide) (by decide +kernel)
  obtain ⟨F, he⟩ := hemit.2 (by decide +kernel)
  have hend : (countBlock.run (fun _ => 0) fun _ => 0).toOption.map
      (fun r => (r.next, r.jk, r.guest 16)) = some (0x2000, .Call, 1) := by
    decide +kernel
  obtain ⟨r, n, M', hr, hn, hctx, -⟩ := hmeans F he (fun _ _ _ => none) ⟨fun _ => 0, fun _ => 0, []⟩
    (throughout_of_forall fun s hf => by cases hf) fun h => by
      change countBlock.run (fun _ => 0) (fun _ => 0) = _ at h
      rw [h] at hend
      cases hend
  change countBlock.run (fun _ => 0) (fun _ => 0) = _ at hr
  rw [hr] at hend
  simp only [Except.toOption, Option.map_some, Option.some.injEq, Prod.mk.injEq] at hend
  obtain ⟨hnext, hjk, h16⟩ := hend
  rw [hnext] at hn
  rw [hjk] at hctx
  refine ⟨F, he, n, M', hn, ?_, ?_⟩
  · rw [hctx, GenLLVM.marked]
    exact h16
  · rw [hctx, GenLLVM.marked]
    rfl

end VexLLVM
