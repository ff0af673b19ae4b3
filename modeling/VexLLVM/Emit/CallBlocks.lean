import VexLLVM.Emit.CallStmt
import VexLLVM.Emit.Meaning

/-!
# Blocks that call helpers are emitted as they mean

The function that a well-typed block is emitted as takes the guest where the block
does, calls of helpers, compare-and-swaps and conditional stores included. A block over
the integers alone is the case without a helper.
-/

namespace VexLLVM

open LLVM LLVM.Code Vex StateExcept

/-- What holds of the guest before every statement that is run, calls included, and at
the end. -/
def ThroughoutWith (callees : Callees) (types : List IRType) (P : State → Prop) (s : State) :
    List IRStmt → Prop
  | [] => P s
  | stmt :: stmts => P s ∧
      ∀ s', stmt.runWith callees types s = .ok (.next s') → ThroughoutWith callees types P s' stmts

/-! ## Which blocks are emitted -/

def emittableWith (types : List IRType) : IRStmt → Bool
  | .LLSC result addr none => readable addr && (types[result]?.bind vexTy2LLVM).isSome
  | .LLSC _ addr (some data) => readable addr && readable data
  | stmt => emittable stmt

def blockEmittableWith (sb : IRSB) : Bool :=
  sb.stmts.all (emittableWith sb.types) && (readable sb.next && (VexSB.jumpExit sb.jumpkind).isSome)

section Fails

variable {gen : GenLLVM} {sigs : String → Option Signature} {types : List IRType} {Γ Γ' : Widths} {ρ : IRTemp → Option LLVM.Value}
  {w : ℕ} {e : IRExpr} {es : List IRExpr}

theorem readable_of_isAtom (h : e.isAtom = true) : readable e = true := by
  cases e <;> first | rfl | cases h

theorem fails_atom (gen : GenLLVM) (hρ : OfWidths Γ ρ) (ha : e.isAtom = true) (h : HasWidth Γ e w) :
    (VexExpr.create gen e).fails gen ρ = false ∧ (VexExpr.create gen e).llvmTy gen ρ = .int w := by
  have hr := readable_of_isAtom ha
  have hf : (VexExpr.create gen e).fails gen ρ = !readable e ∧ _ := fails_of_hasWidth hρ h
  exact ⟨hf.1.trans (congrArg not hr), hf.2 hr⟩

/-- The operands of a well-typed call are emitted. -/
theorem fails_args (hρ : OfWidths Γ ρ) {ps : List (Option ℕ)} (h : List.Forall₂ (ArgHas Γ) es ps) :
    ∀ e ∈ es, (VexExpr.create gen e).fails gen ρ = false := by
  induction h with
  | nil => exact fun _ h => by cases h
  | cons he _ ih =>
      refine List.forall_mem_cons.2 ⟨?_, ih⟩
      cases he with
      | state => rfl
      | word ha hw => exact (fails_atom gen hρ ha hw).1

theorem loadFails_word (gen : GenLLVM) (a : LLVM.Value) (hw : w ∈ [8, 16, 32, 64]) :
    gen.loadFails a (.int w) = false ∧ (gen.loadDraft a (.int w)).ty = .int w := by
  have hf : gen.loadFails a (.int w) = false := by
    simp only [List.mem_cons, List.not_mem_nil, or_false] at hw
    have hbits : decide (0 < (Ty.int w).bits ∧ (Ty.int w).bits ≤ 64) = true :=
      decide_eq_true ⟨by rw [Ty.bits_int]; omega, by rw [Ty.bits_int]; omega⟩
    rw [GenLLVM.loadFails, hbits]
    exact Bool.and_false _
  exact ⟨hf, VexStmt.loadDraft_ty hf (.inl rfl)⟩

theorem callDraft_ty (r w : ℕ) : (VexStmt.callDraft (.int r) (.int w)).ty = .int w := by
  unfold VexStmt.callDraft
  rw [Ty.bits_int, Ty.bits_int]
  split
  · next h => rw [h]; rfl
  · rfl

/-- A call fails where its temporary cannot be set. -/
theorem fails_dirty (hρ : OfWidths Γ ρ) {cee : String} {guard : IRExpr} {args : List IRExpr}
    {sig : Signature} (hsig : gen.sigs cee = some sig) (hargs : List.Forall₂ (ArgHas Γ) args sig.params)
    (hne : sig.params ≠ []) (hatom : guard.isAtom = true) (hg : HasWidth Γ guard 1)
    (tmp : Option IRTemp) :
    ∃ fn : FnTy, VexStmt.create gen (.Dirty cee guard tmp args) =
        .dirty cee fn (VexExpr.create gen guard) tmp (args.map (VexExpr.create gen)) ∧
      fn.ret = .int sig.ret ∧
        (VexStmt.dirty cee fn (VexExpr.create gen guard) tmp (args.map (VexExpr.create gen))).fails gen
            types ρ =
          tmp.any fun t => (VexStmt.tmpTy types t).isNone || (ρ t).isSome := by
  obtain ⟨fn, hfn, hret, hps⟩ := GenLLVM.exists_of_sigs hsig
  have hcreate : VexStmt.create gen (.Dirty cee guard tmp args) =
      .dirty cee fn (VexExpr.create gen guard) tmp (args.map (VexExpr.create gen)) := by
    rw [VexStmt.create, hfn]
  refine ⟨fn, hcreate, hret, ?_⟩
  have hany : ((args.map (VexExpr.create gen)).any fun e => e.fails gen ρ) = false := by
    rw [List.any_map]
    exact List.any_eq_false.2 fun e he => Bool.eq_false_iff.1 (fails_args hρ hargs e he)
  have hargs' : (args.map (VexExpr.create gen)).isEmpty = false := by
    rw [List.isEmpty_map, List.isEmpty_eq_false_iff]
    rintro rfl
    exact hne (List.forall₂_nil_left_iff.1 hargs)
  have hps' : fn.params.isEmpty = false := List.isEmpty_eq_false_iff.2 (hps hne)
  rw [VexStmt.fails, (fails_atom gen hρ hatom hg).1, hany, hargs', hps']
  rfl

theorem emittableWith_of_checks {stmt : IRStmt} (h : Checks types Γ stmt Γ') :
    emittableWith types stmt = emittable stmt := by
  cases h <;> rfl

/-- A well-typed statement is emitted unless it cannot be, calls included. -/
theorem fails_of_checksWith (hk : ∀ cee sig, sigs cee = some sig → gen.sigs cee = some sig)
    (hρ : OfWidths Γ ρ) {stmt : IRStmt} (h : ChecksWith sigs types Γ stmt Γ') :
    (VexStmt.create gen stmt).fails gen types ρ = !emittableWith types stmt ∧
      (emittableWith types stmt = true →
        OfWidths Γ' ((VexStmt.create gen stmt).after gen types ρ)) := by
  cases h with
  | plain h =>
      rw [emittableWith_of_checks h]
      exact fails_of_checks hρ h
  | @ccall tmp cee retty n args sig _ hsig hargs hwords hret h =>
      obtain ⟨fn, hfn, hret, -⟩ := GenLLVM.exists_of_sigs (hk cee sig hsig)
      rw [VexStmt.create, VexExpr.create, hfn]
      have hf : ((List.finRange n).any fun i => (VexExpr.create gen (args i)).fails gen ρ) = false :=
        List.any_eq_false.2 fun i _ => Bool.eq_false_iff.1
          (fails_args hρ hargs _ (List.mem_ofFn.2 ⟨i, rfl⟩))
      refine ⟨?_, fun _ => hρ.assign h hret⟩
      rw [VexStmt.fails, VexExpr.fails, hf, hρ.isSome_eq_false h]
      rfl
  | @dirty cee guard args sig hsig hargs hne hwords hatom hg =>
      obtain ⟨fn, hcreate, hret, hf⟩ := fails_dirty hρ (hk cee sig hsig) hargs hne hatom hg none
      rw [hcreate, hf]
      exact ⟨rfl, fun _ => hρ⟩
  | @dirtyTmp cee t args sig w _ hsig hargs hne hwords hw hle h =>
      have hg := HasWidth.const (Γ := Γ) (show (IRConst.U1 true).word? = some _ from rfl)
      obtain ⟨fn, hcreate, hret, hf⟩ := fails_dirty hρ (hk cee sig hsig) hargs hne rfl hg (some t)
      have htmp := tmpTy_of_width hw hle
      rw [hcreate, hf, Option.any_some, htmp, hρ.isSome_eq_false h]
      refine ⟨rfl, fun _ => ?_⟩
      rw [VexStmt.after, Option.elim_some, htmp, hret]
      exact hρ.assign h (callDraft_ty sig.ret w)
  | @cas oldLo addr expd data w _ haa hea hda ha he hd hw h =>
      obtain ⟨hfa, -⟩ := fails_atom gen hρ haa ha
      obtain ⟨hfe, hty⟩ := fails_atom gen hρ hea he
      obtain ⟨hfd, -⟩ := fails_atom gen hρ hda hd
      obtain ⟨hl, hlt⟩ := loadFails_word gen ((VexExpr.create gen addr).draft gen ρ) hw
      rw [VexStmt.create, VexStmt.fails, hfa, hfe, hfd, hty, hl,
        hρ.isSome_eq_false h]
      refine ⟨rfl, fun _ => ?_⟩
      rw [VexStmt.after, hty]
      exact hρ.assign h hlt
  | @loadLinked result addr w _ ha hw h =>
      obtain ⟨ty, hty, hst⟩ := Option.bind_eq_some_iff.1 hw
      have htmp : VexStmt.tmpTy types result = vexTy2LLVM ty := by
        unfold VexStmt.tmpTy
        rw [List.getD_eq_getElem?_getD, hty]
        rfl
      rw [VexStmt.create, Option.map_none, VexStmt.fails, VexStmt.after, htmp, emittableWith, hty,
        (fails_of_hasWidth hρ ha).1, hρ.isSome_eq_false h, Option.bind_some]
      cases ht : vexTy2LLVM ty with
      | none => simp
      | some t =>
          obtain ⟨hf, hdraft⟩ := loadDraft_stored gen hst ht ((VexExpr.create gen addr).draft gen ρ)
          rw [Option.all_some, hf]
          exact ⟨by simp, fun _ => hρ.assign h hdraft⟩
  | @storeCond result addr data w _ ha hd hw h =>
      rw [VexStmt.create, Option.map_some, VexStmt.fails, emittableWith, (fails_of_hasWidth hρ ha).1,
        (fails_of_hasWidth hρ hd).1, hρ.isSome_eq_false h, Bool.not_and]
      exact ⟨Bool.or_false _, fun _ => hρ.assign h rfl⟩
  | mbe => exact ⟨rfl, fun _ => hρ⟩

/-- The statements one after the other are emitted unless one of them cannot be. -/
theorem stmtsFail_of_checkStmtsWith
    (hk : ∀ cee sig, sigs cee = some sig → gen.sigs cee = some sig) (hρ : OfWidths Γ ρ)
    {stmts : List IRStmt} (h : checkStmtsWith sigs types Γ stmts = some Γ') :
    VexSB.stmtsFail gen types ρ (stmts.map (VexStmt.create gen)) = !stmts.all (emittableWith types) ∧
      (stmts.all (emittableWith types) = true →
        OfWidths Γ' (VexSB.after gen types ρ (stmts.map (VexStmt.create gen)))) := by
  induction stmts generalizing Γ ρ with
  | nil =>
      cases h
      exact ⟨rfl, fun _ => hρ⟩
  | cons stmt stmts ih =>
      obtain ⟨Γ₁, h₁, h⟩ := Option.bind_eq_some_iff.1 h
      obtain ⟨hf, hρ₁⟩ := fails_of_checksWith hk hρ (checksWith_of_checkWith h₁)
      rw [List.map_cons, VexSB.stmtsFail, List.all_cons, hf]
      cases hs : emittableWith types stmt with
      | false => exact ⟨rfl, fun h => by cases h⟩
      | true => exact ih (hρ₁ hs) h

/-- A well-typed block is emitted exactly where it can be. -/
theorem emit_ok_iff_emittableWith {sb : IRSB} (a : BitVec 64)
    (hk : ∀ cee sig, sigs cee = some sig → gen.sigs cee = some sig)
    (hwt : sb.wellTypedWith sigs = true) :
    (∃ F, (VexSB.ofIRSB gen a sb).emit gen = .ok F) ↔ blockEmittableWith sb = true := by
  obtain ⟨hjk, Γ, hΓ, hn⟩ := IRSB.exists_of_wellTypedWith hwt
  have hnone : OfWidths (fun _ => none) VexSB.noValues := fun _ => rfl
  obtain ⟨hstmts, hρ⟩ := stmtsFail_of_checkStmtsWith hk hnone hΓ
  have hfails : (VexSB.ofIRSB gen a sb).fails gen = !blockEmittableWith sb := by
    simp only [VexSB.fails, VexSB.ofIRSB]
    rw [hstmts, blockEmittableWith]
    cases hall : sb.stmts.all (emittableWith sb.types) with
    | false => rfl
    | true =>
        cases ht : VexSB.jumpExit sb.jumpkind with
        | none => exact (Bool.or_true _).trans (congrArg not (Bool.and_false _)).symm
        | some t =>
            rw [loadJump_eq hjk ht, (fails_of_hasWidth (hρ hall) (hasWidth_of_width hn)).1]
            exact (Bool.or_false _).trans (congrArg not (Bool.and_true _)).symm
  rw [VexSB.emit_ok_iff, hfails, Bool.not_eq_false']

end Fails

theorem VexSB.exists_of_emit {gen : GenLLVM} {sb : VexSB} {F : Func} (h : sb.emit gen = .ok F) :
    ∃ σ, sb.emitM gen GenLLVM.beginBB = .ok (F, σ) := by
  unfold VexSB.emit at h
  cases hm : sb.emitM gen GenLLVM.beginBB with
  | error e =>
      rw [hm] at h
      cases h
  | ok p =>
      rw [hm] at h
      cases h
      exact ⟨p.2, rfl⟩

section Blocks

variable {gen : GenLLVM} {sigs : String → Option Signature} {callees : Callees} {Γ Γ' : Widths}
  {s : State} {M : Machine} {total : Bool}
  {ext : Extern} {sb : IRSB} {r : Result} {a : BitVec 64}

theorem throughoutWith_of_forall {P : State → Prop} (h : ∀ s, P s) {types : List IRType}
    {stmts : List IRStmt} {s : State} : ThroughoutWith callees types P s stmts := by
  induction stmts generalizing s with
  | nil => exact h s
  | cons stmt stmts ih => exact ⟨h s, fun _ _ => ih⟩

/-- The statements, from wherever some of them have gone. -/
theorem goes_stmtsWith (hI : ImplementsAt gen sigs ext callees) (h64 : gen.is32Bit = false)
    (hoff : gen.exitTypeOffset < 2 ^ 31) {stmts : List IRStmt} (hs : s.Typed Γ) (hM : gen.Shows M s)
    (hc : ThroughoutWith callees sb.types gen.Copied s stmts)
    (h : checkStmtsWith sigs sb.types Γ stmts = some Γ')
    (hr : sb.runFromWith callees s stmts = .ok r) :
    Runs total ext (Stands (tmpValues s) [] M)
      (VexSB.emitStmts gen sb.types (stmts.map (VexStmt.create gen)))
      (fun _ σ fr => ∃ s', s'.Typed Γ' ∧ gen.Copied s' ∧ sb.runFrom s' [] = .ok r ∧
        Showing gen s' σ fr)
      (gen.Ends r) := by
  induction stmts generalizing Γ s M with
  | nil =>
      cases h
      exact runs_done.post fun _ _ _ h => ⟨s, hs, hc, hr, h.showing hM⟩
  | cons stmt stmts ih =>
      obtain ⟨Γ₁, h₁, h⟩ := Option.bind_eq_some_iff.1 h
      obtain ⟨st, hst, hr⟩ := exists_of_bind_ok hr
      have hchecks := checksWith_of_checkWith h₁
      have htyped := fine_stmtWith hI.signed hs hchecks
      rw [hst] at htyped
      have hrun : Runs total ext (Stands (tmpValues s) [] M)
        ((VexStmt.create gen stmt).emit gen sb.types)
          (fun _ σ fr => ∃ s', st = .next s' ∧ Showing gen s' σ fr)
          (fun fr v => ∃ jk dst, st = .leave jk dst ∧ gen.Leaves s jk dst fr v) :=
        goes_of_runWith (Ready.of_copied h64 hM hs hc.1) hI hoff hchecks hst
      cases st with
      | next s' =>
          refine (hrun.conseq (fun _ _ => id) (fun _ _ _ => id) fun fr v h => ?_).bind fun _ => ?_
          · obtain ⟨_, _, he, -⟩ := h
            cases he
          · refine runs_exists fun s'' => runs_of_and fun he => ?_
            cases he
            exact runs_showing fun M' hM' => ih htyped hM' (hc.2 s' hst) h hr
      | leave jk dst =>
          refine (hrun.conseq (fun _ _ => id) (fun _ _ _ => id) fun fr v h => ?_).bind fun _ => ?_
          · obtain ⟨jk', dst', he, hv⟩ := h
            cases he
            cases hr
            exact ⟨hv.next, hv.ctx, hv.mem⟩
          · exact runs_exists fun s'' => runs_of_and fun he => by cases he

/-- The function of a block ends as the block does. -/
theorem block_leavesWith (hI : ImplementsAt gen sigs ext callees) (h64 : gen.is32Bit = false)
    (hoff : gen.exitTypeOffset < 2 ^ 31) (hwt : sb.wellTypedWith sigs = true) {F : Func}
    {σ : GenState} (he : (VexSB.ofIRSB gen a sb).emitM gen GenLLVM.beginBB = .ok (F, σ))
    (hc : ThroughoutWith callees sb.types gen.Copied ⟨M.ctx, gen.guestMem M.mem, fun _ => none⟩ sb.stmts)
    (hrun : sb.runWith callees M.ctx (gen.guestMem M.mem) = .ok r) :
    F.Leaves ext (Func.start M) (gen.Ends r) := by
  obtain ⟨hjk, Γ, hΓ, hn⟩ := IRSB.exists_of_wellTypedWith hwt
  obtain ⟨σ₁, ret, σ₂, t, h₁, h₂, ht, h₃, rfl⟩ := VexSB.emitM_eq_ok he
  have ht : VexSB.jumpExit sb.jumpkind = some t := ht
  rw [VexSB.ofIRSB, loadJump_eq hjk ht] at h₂
  rw [← exitMark_jump ht] at h₃
  have ho₁ := Builds.onward h₁ VexSB.beginBB_OK.builder
  have ho₂ := Builds.onward h₂ ho₁.emits.ok
  have ho₃ := Builds.onward h₃ ho₂.emits.ok
  have hG₃ := Builder.Extends.terminate ho₃.emits.ok (.ret ret)
  have hG₁ := ho₂.emits.ext.trans (ho₃.emits.ext.trans hG₃)
  have hstmts : Runs true ext _ _ _ _ := goes_stmtsWith hI h64 hoff (.start _ _) ⟨rfl, rfl⟩ hc hΓ hrun
  rcases hstmts GenLLVM.beginBB () σ₁ _ (Func.start M) h₁ VexSB.beginBB_OK.builder hG₁ (.inl rfl)
    (at_beginBB M) (stands_beginBB M) with ⟨fr₁, hr₁, hat₁, -, s', hs', hcp, hend, hq₁⟩ | hleave
  swap
  · exact hleave
  have hm : (do
      let ret ← (VexExpr.create gen sb.next).emit gen
      VexSB.markJump gen (exitMark sb.jumpkind)
      pure ret) σ₁ = .ok (ret, σ) := by
    rw [bind_ok h₂, bind_ok h₃]
    rfl
  have hjump : Runs true ext _ _ _ fun _ _ => False :=
    runs_jump (Ready.of_copied h64 hq₁.1 hs' hcp) hoff hn hend
  rcases hjump σ₁ ret σ _ fr₁ hm ho₁.emits.ok hG₃ (.inl rfl) hat₁ hq₁.2 with
    ⟨fr₂, hr₂, hat₂, -, v, hv, hq₂⟩ | ⟨_, _, _, _, hno⟩
  swap
  · exact hno.elim
  obtain ⟨hget, hterm⟩ := Builder.terminate_getElem? (t := .ret ret) (Builder.Extends.refl _) hat₂
  exact ⟨fr₂, v, hr₁.trans hr₂, by simp [Func.step, hget, hterm, hv], hq₂⟩

/-- The function of a block takes the guest where the block does. -/
theorem block_means (hI : ImplementsAt gen sigs ext callees) (h64 : gen.is32Bit = false)
    (hoff : gen.exitTypeOffset < 2 ^ 31) (hwt : sb.wellTypedWith sigs = true) {F : Func}
    (he : (VexSB.ofIRSB gen a sb).emit gen = .ok F)
    (hc : ThroughoutWith callees sb.types gen.Copied ⟨M.ctx, gen.guestMem M.mem, fun _ => none⟩ sb.stmts)
    (hshift : sb.runWith callees M.ctx (gen.guestMem M.mem) ≠ .error .wideShift) :
    ∃ r n M', sb.runWith callees M.ctx (gen.guestMem M.mem) = .ok r ∧
      F.run ext n (Func.start M) = some (.bits r.next.toNat, M') ∧
        M'.ctx = gen.marked r.jk r.guest ∧ gen.guestMem M'.mem = r.mem := by
  obtain ⟨r, hrun⟩ := (IRSB.fine_runWith hI.signed hwt M.ctx (gen.guestMem M.mem)).exists_ok hshift
  obtain ⟨σ, hm⟩ := VexSB.exists_of_emit he
  obtain ⟨fr, v, hreach, hdone, hv⟩ := block_leavesWith hI h64 hoff hwt hm hc hrun
  obtain ⟨n, hn⟩ := hreach.run_eq hdone
  cases hv.next
  exact ⟨r, n, fr.m, hrun, hn, hv.ctx, hv.mem⟩

end Blocks

/-- A well-typed block of a 64-bit guest that calls helpers is emitted exactly where its
types and jump kinds are known, and the function takes the guest where the block does, if
the functions of the helper modules do what the helpers do: calls change the guest and its
memory as they may, a compare-and-swap stores where the words are equal, and the exit type
of the jump is told. No shift is by the width or more. Where the host copy of the system
page stands in for loads from it, the guest has the copy there. -/
theorem callBlocks_statement (gen : GenLLVM) (callees : Callees) (ext : Extern) (a : BitVec 64)
    (sb : IRSB) (h64 : gen.is32Bit = false) (hoff : gen.exitTypeOffset < 2 ^ 31)
    (hwt : sb.wellTypedWith gen.sigs = true) (hI : Implements gen ext callees) :
    ((∃ F, (VexSB.ofIRSB gen a sb).emit gen = .ok F) ↔ blockEmittableWith sb = true) ∧
      ∀ F, (VexSB.ofIRSB gen a sb).emit gen = .ok F → ∀ M : Machine,
        ThroughoutWith callees sb.types gen.Copied ⟨M.ctx, gen.guestMem M.mem, fun _ => none⟩ sb.stmts →
          sb.runWith callees M.ctx (gen.guestMem M.mem) ≠ .error .wideShift →
            ∃ r n M', sb.runWith callees M.ctx (gen.guestMem M.mem) = .ok r ∧
              F.run ext n (Func.start M) = some (.bits r.next.toNat, M') ∧
                M'.ctx = gen.marked r.jk r.guest ∧ gen.guestMem M'.mem = r.mem := by
  exact ⟨emit_ok_iff_emittableWith a hI.known hwt,
    fun F he M hc hshift => block_means hI h64 hoff hwt he hc hshift⟩

/-- The guest with a number added to the counter at an offset of 16. -/
def counted (guest : BitVec 64 → LLVM.Byte) (n : ℕ) : BitVec 64 → LLVM.Byte :=
  writeBytes guest 16 8 (readBytes guest 16 8 + n)

def argNumber : Arg → ℕ
  | .word a => a.bits.toNat
  | .state => 0

/-- A helper that adds numbers to the counter, and gives back what it was. -/
def advanceCounter : Callees := fun _ as guest mem =>
  ⟨⟨64, BitVec.ofNat 64 (readBytes guest 16 8)⟩, counted guest (as.map argNumber).sum, mem⟩

def advanceExtern : Extern := fun _ rs M =>
  some (.bits (readBytes M.ctx 16 8),
    { M with ctx := counted M.ctx (rs.map fun r => r.bits?.getD 0).sum })

def advanceGen : GenLLVM :=
  { plainGen with
    helpers := fun f => if f = "advance" then some ⟨[.ptr (.int 8), .int 64], .int 64⟩ else none }

theorem implements_advance : Implements advanceGen advanceExtern advanceCounter where
  known _ _ h := h
  signed cee sig hsig as guest mem := by
    obtain ⟨fn, hfn, h⟩ := Option.bind_eq_some_iff.1 hsig
    change (if cee = "advance" then some (⟨[.ptr (.int 8), .int 64], .int 64⟩ : FnTy) else none) = _ at hfn
    split at hfn
    · cases hfn
      cases h
      rfl
    · cases hfn
  calls cee sig _ as _ M := by
    have hargs : (as.map argRVal).map (fun r => r.bits?.getD 0) = as.map argNumber := by
      rw [List.map_map]
      exact List.map_congr_left fun a _ => by cases a <;> rfl
    have hold : (BitVec.ofNat 64 (readBytes M.ctx 16 8)).toNat = readBytes M.ctx 16 8 :=
      toNat_ofNat_readBytes (w := 64) rfl
    refine ⟨{ M with ctx := counted M.ctx (as.map argNumber).sum }, ?_, rfl, rfl⟩
    rw [advanceExtern, advanceCounter, hargs, hold]

/-- A block that calls the helper, and stores what it gave back where there is nothing. -/
def advanceBlock : IRSB :=
  ⟨[.I64, .I64], [.IMark 0x1000 4,
    .Dirty "advance" (.Const (.U1 true)) (some 0) [.GSPTR, .Const (.U64 5)],
    .CAS none 1 (.Const (.U64 0x2000)) none (.Const (.U64 0)) none (.RdTmp 0)],
    .Const (.U64 0x1004), .Call⟩

def sevenMachine : Machine := ⟨fun p => if p = 16 then 7 else 0, fun _ => 0, []⟩

theorem callBlocks_advance :
    ∃ F, (VexSB.ofIRSB advanceGen 0x1000 advanceBlock).emit advanceGen = .ok F ∧
      ∃ n M', F.run advanceExtern n (Func.start sevenMachine) = some (.bits 0x1004, M') ∧
        M'.ctx 16 = 12 ∧ advanceGen.guestMem M'.mem 0x2000 = 7 := by
  obtain ⟨hemit, hmeans⟩ := callBlocks_statement advanceGen advanceCounter advanceExtern 0x1000
    advanceBlock rfl (by decide) (by decide +kernel) implements_advance
  obtain ⟨F, he⟩ := hemit.2 (by decide +kernel)
  have hend : (advanceBlock.runWith advanceCounter sevenMachine.ctx
      (advanceGen.guestMem sevenMachine.mem)).toOption.map
        (fun r => (r.next, r.jk, r.guest 16, r.mem 0x2000)) = some (0x1004, .Call, 12, 7) := by
    decide +kernel
  obtain ⟨r, n, M', hr, hn, hctx, hmem⟩ := hmeans F he sevenMachine
    (throughoutWith_of_forall fun s hf => by cases hf) fun h => by
      rw [h] at hend
      cases hend
  rw [hr] at hend
  simp only [Except.toOption, Option.map_some, Option.some.injEq, Prod.mk.injEq] at hend
  obtain ⟨hnext, hjk, h16, h2000⟩ := hend
  rw [hnext] at hn
  rw [hjk] at hctx
  refine ⟨F, he, n, M', hn, ?_, ?_⟩
  · rw [hctx, GenLLVM.marked]
    exact h16
  · rw [hmem]
    exact h2000

end VexLLVM
