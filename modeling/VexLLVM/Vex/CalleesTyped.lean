import VexLLVM.Vex.Callees

/-!
# Well-typed blocks with calls have a meaning

The typing rules of `Callees` as a relation, and that running keeps to them: a well-typed
block has a result, unless it shifts by the width of a word or more. A block over the
integers alone is the case without a call.
-/

namespace Vex

variable {sigs : String → Option Signature} {callees : Callees} {types : List IRType}
  {Γ Γ' : Widths} {s : State} {e : IRExpr} {es : List IRExpr} {w : ℕ}

inductive ArgHas (Γ : Widths) : IRExpr → Option ℕ → Prop where
  | state : ArgHas Γ .GSPTR none
  | word {e : IRExpr} {w : ℕ} (ha : e.isAtom = true) (hw : HasWidth Γ e w) : ArgHas Γ e (some w)

theorem argHas_of_argWidth {p : Option ℕ} (h : e.argWidth Γ = some p) : ArgHas Γ e p := by
  unfold IRExpr.argWidth at h
  split at h
  · cases h
    exact .state
  · split at h
    · next ha =>
        obtain ⟨w, hw, rfl⟩ := Option.map_eq_some_iff.1 h
        exact .word ha (hasWidth_of_width hw)
    · cases h

theorem argsHave_of_argWidths {ps : List (Option ℕ)} (h : argWidths Γ es = some ps) :
    List.Forall₂ (ArgHas Γ) es ps := by
  induction es generalizing ps with
  | nil =>
      cases h
      exact .nil
  | cons e es ih =>
      obtain ⟨p, hp, h⟩ := Option.bind_eq_some_iff.1 h
      obtain ⟨ps, hps, h⟩ := Option.bind_eq_some_iff.1 h
      cases h
      exact .cons (argHas_of_argWidth hp) (ih hps)

inductive ChecksWith (sigs : String → Option Signature) (types : List IRType) (Γ : Widths) :
    IRStmt → Widths → Prop where
  | plain {stmt : IRStmt} {Γ' : Widths} (h : Checks types Γ stmt Γ') : ChecksWith sigs types Γ stmt Γ'
  | ccall {tmp : IRTemp} {cee : String} {retty : IRType} {n : ℕ} {args : Fin n → IRExpr}
      {sig : Signature} {Γ' : Widths} (hsig : sigs cee = some sig)
      (hargs : List.Forall₂ (ArgHas Γ) (List.ofFn args) sig.params) (hwords : none ∉ sig.params)
      (hret : retty.width? = some sig.ret) (h : Γ.assign types tmp sig.ret = some Γ') :
      ChecksWith sigs types Γ (.WrTmp tmp (.CCall cee retty n args)) Γ'
  | dirty {cee : String} {guard : IRExpr} {args : List IRExpr} {sig : Signature}
      (hsig : sigs cee = some sig) (hargs : List.Forall₂ (ArgHas Γ) args sig.params)
      (hne : sig.params ≠ []) (hwords : none ∉ sig.params.tail) (hatom : guard.isAtom = true)
      (hg : HasWidth Γ guard 1) : ChecksWith sigs types Γ (.Dirty cee guard none args) Γ
  | dirtyTmp {cee : String} {t : IRTemp} {args : List IRExpr} {sig : Signature} {w : ℕ} {Γ' : Widths}
      (hsig : sigs cee = some sig) (hargs : List.Forall₂ (ArgHas Γ) args sig.params)
      (hne : sig.params ≠ []) (hwords : none ∉ sig.params.tail)
      (hw : types[t]?.bind IRType.width? = some w) (hle : w ≤ 64) (h : Γ.assign types t w = some Γ') :
      ChecksWith sigs types Γ (.Dirty cee (.Const (.U1 true)) (some t) args) Γ'
  | cas {oldLo : IRTemp} {addr expd data : IRExpr} {w : ℕ} {Γ' : Widths} (haa : addr.isAtom = true)
      (hea : expd.isAtom = true) (hda : data.isAtom = true) (ha : HasWidth Γ addr 64)
      (he : HasWidth Γ expd w) (hd : HasWidth Γ data w) (hw : w ∈ [8, 16, 32, 64])
      (h : Γ.assign types oldLo w = some Γ') :
      ChecksWith sigs types Γ (.CAS none oldLo addr none expd none data) Γ'
  | loadLinked {result : IRTemp} {addr : IRExpr} {w : ℕ} {Γ' : Widths} (ha : HasWidth Γ addr 64)
      (hw : types[result]?.bind IRType.stored? = some w) (h : Γ.assign types result w = some Γ') :
      ChecksWith sigs types Γ (.LLSC result addr none) Γ'
  | storeCond {result : IRTemp} {addr data : IRExpr} {w : ℕ} {Γ' : Widths} (ha : HasWidth Γ addr 64)
      (hd : HasWidth Γ data w) (hw : 8 ≤ w) (h : Γ.assign types result 1 = some Γ') :
      ChecksWith sigs types Γ (.LLSC result addr (some data)) Γ'
  | mbe : ChecksWith sigs types Γ .MBE Γ

theorem checksWith_of_checkWith {stmt : IRStmt} (h : stmt.checkWith sigs types Γ = some Γ') :
    ChecksWith sigs types Γ stmt Γ' := by
  unfold IRStmt.checkWith at h
  split at h
  · next tmp cee retty n args =>
      obtain ⟨sig, hsig, h⟩ := Option.bind_eq_some_iff.1 h
      obtain ⟨as, has, h⟩ := Option.bind_eq_some_iff.1 h
      split at h
      · next hp =>
          obtain ⟨rfl, hwords, hret⟩ := hp
          exact .ccall hsig (argsHave_of_argWidths has) hwords hret h
      · cases h
  · next cee guard tmp args =>
      obtain ⟨sig, hsig, h⟩ := Option.bind_eq_some_iff.1 h
      obtain ⟨as, has, h⟩ := Option.bind_eq_some_iff.1 h
      split at h
      · next hp =>
          obtain ⟨rfl, hne, hwords, hatom, hg⟩ := hp
          have hargs := argsHave_of_argWidths has
          split at h
          · cases h
            exact .dirty hsig hargs hne hwords hatom (hasWidth_of_width hg)
          · split at h
            · obtain ⟨w, hw, h⟩ := Option.bind_eq_some_iff.1 h
              split at h
              · next hle => exact .dirtyTmp hsig hargs hne hwords hw hle h
              · cases h
            · cases h
      · cases h
  · next oldLo addr expd data =>
      obtain ⟨w, he, h⟩ := Option.bind_eq_some_iff.1 h
      split at h
      · next hp =>
          obtain ⟨haa, hea, hda, ha, hd, hw⟩ := hp
          exact .cas haa hea hda (hasWidth_of_width ha) (hasWidth_of_width he) (hasWidth_of_width hd)
            hw h
      · cases h
  · next result addr =>
      obtain ⟨w, hw, h⟩ := Option.bind_eq_some_iff.1 h
      split at h
      · next ha => exact .loadLinked (hasWidth_of_width ha) hw h
      · cases h
  · next result addr data =>
      obtain ⟨w, hd, h⟩ := Option.bind_eq_some_iff.1 h
      split at h
      · next hp =>
          exact .storeCond (hasWidth_of_width hp.1) (hasWidth_of_width hd) hp.2 h
      · cases h
  · cases h
    exact .mbe
  · exact .plain (checks_of_check h)

/-- A statement over the integers runs as before. -/
theorem runWith_of_checks {stmt : IRStmt} (h : Checks types Γ stmt Γ') :
    stmt.runWith callees types s = stmt.run s := by
  cases h with
  | wrTmp hd h => cases hd <;> rfl
  | _ => rfl

/-- A call that is sure to be made. -/
theorem runWith_dirtyTmp (cee : String) (t : IRTemp) (args : List IRExpr) :
    (IRStmt.Dirty cee (.Const (.U1 true)) (some t) args).runWith callees types s =
      mapArgs s.arg args >>= fun as =>
        .next <$> (s.returned (callees cee as s.guest s.mem)).assignAs types t
          (callees cee as s.guest s.mem).val := rfl

def Callees.Signed (callees : Callees) (sigs : String → Option Signature) : Prop :=
  ∀ cee sig, sigs cee = some sig → ∀ as guest mem, (callees cee as guest mem).val.width = sig.ret

def Arg.Fits : Arg → Option ℕ → Prop
  | .state, p => p = none
  | .word a, p => p = some a.width

theorem fine_arg (hs : s.Typed Γ) {p : Option ℕ} (h : ArgHas Γ e p) :
    Fine (fun a => a.Fits p) (s.arg e) := by
  cases h with
  | state => exact rfl
  | @word _ w ha hw =>
      have harg : s.arg e = .word <$> s.eval e := by
        cases e <;> first | rfl | cases ha
      rw [harg]
      have hf := fine_eval hs hw
      cases he : s.eval e with
      | ok a =>
          rw [he] at hf
          exact congrArg some hf.symm
      | error f =>
          rw [he] at hf
          exact hf

theorem fine_mapArgs (hs : s.Typed Γ) {ps : List (Option ℕ)} (h : List.Forall₂ (ArgHas Γ) es ps) :
    Fine (fun as => List.Forall₂ Arg.Fits as ps) (mapArgs s.arg es) := by
  induction h with
  | nil => exact .nil
  | cons he _ ih => exact (fine_arg hs he).bind fun a ha => ih.bind fun as has => .cons ha has

theorem State.Typed.returned (hs : s.Typed Γ) (r : Returned) : (s.returned r).Typed Γ := hs

/-- A well-typed statement goes on to where it checks, and its calls are typed. -/
theorem fine_stmtWith (hsigs : callees.Signed sigs) (hs : s.Typed Γ) {stmt : IRStmt}
    (h : ChecksWith sigs types Γ stmt Γ') : Fine (Step.Typed Γ') (stmt.runWith callees types s) := by
  cases h with
  | plain h =>
      rw [runWith_of_checks h]
      exact fine_stmt hs h
  | ccall hsig hargs hwords hret h =>
      refine (fine_orIllTyped hret).bind fun w hw => ?_
      subst hw
      refine (fine_mapArgs hs hargs).bind fun as _ => ?_
      exact (fine_as (hsigs _ _ hsig _ _ _)).bind fun v _ => (hs.returned _).assign h
  | dirty hsig hargs hne hwords hatom hg =>
      refine (fine_evalAs hs hg).bind fun g _ => ?_
      split
      · exact (fine_mapArgs hs hargs).bind fun as _ => hs.returned _
      · exact hs
  | @dirtyTmp cee t args sig w _ hsig hargs hne hwords hw hle h =>
      rw [runWith_dirtyTmp]
      refine (fine_mapArgs hs hargs).bind fun as _ => ?_
      unfold State.assignAs
      rw [hw]
      exact (hs.returned _).assign h
  | cas haa hea hda ha he hd hw h =>
      refine (fine_evalAs hs ha).bind fun a _ => (fine_eval hs he).bind fun e hew => ?_
      subst hew
      refine (fine_evalAs hs hd).bind fun d _ => ?_
      refine State.Typed.assign ?_ h
      split
      · exact hs
      · exact hs
  | loadLinked ha hw h =>
      refine (fine_orIllTyped hw).bind fun w hw => (fine_evalAs hs ha).bind fun a _ => ?_
      subst hw
      exact hs.assign h
  | storeCond ha hd hw h =>
      exact (fine_evalAs hs ha).bind fun a _ => (fine_eval hs hd).bind fun d _ =>
        State.Typed.assign (s := s.store a d) hs h
  | mbe => exact hs

theorem fine_runFromWith (hsigs : callees.Signed sigs) {sb : IRSB} (hs : s.Typed Γ)
    {stmts : List IRStmt} (h : checkStmtsWith sigs sb.types Γ stmts = some Γ')
    (hn : sb.next.width Γ' = some 64) : Fine (fun _ => True) (sb.runFromWith callees s stmts) := by
  induction stmts generalizing Γ s with
  | nil =>
      cases h
      exact (fine_evalAs hs (hasWidth_of_width hn)).bind fun _ _ => trivial
  | cons stmt stmts ih =>
      obtain ⟨Γ₁, h₁, h⟩ := Option.bind_eq_some_iff.1 h
      refine (fine_stmtWith hsigs hs (checksWith_of_checkWith h₁)).bind fun st hst => ?_
      cases st with
      | next s' => exact ih hst h
      | leave jk dst => trivial

/-- The parts of a well-typed block. -/
theorem IRSB.exists_of_wellTypedWith {sb : IRSB} (h : sb.wellTypedWith sigs = true) :
    sb.jumpkind ≠ .Sys_sysenter ∧
      ∃ Γ, checkStmtsWith sigs sb.types (fun _ => none) sb.stmts = some Γ ∧
        sb.next.width Γ = some 64 := by
  unfold IRSB.wellTypedWith at h
  rw [Bool.and_eq_true, bne_iff_ne, beq_iff_eq] at h
  obtain ⟨Γ, hΓ, hn⟩ := Option.bind_eq_some_iff.1 h.2
  exact ⟨h.1, Γ, hΓ, hn⟩

/-- A well-typed block has a result, unless it shifts too far. -/
theorem IRSB.fine_runWith (hsigs : callees.Signed sigs) {sb : IRSB}
    (h : sb.wellTypedWith sigs = true) (guest mem : BitVec 64 → LLVM.Byte) :
    Fine (fun _ => True) (sb.runWith callees guest mem) := by
  obtain ⟨-, Γ, hΓ, hn⟩ := IRSB.exists_of_wellTypedWith h
  exact fine_runFromWith hsigs (.start guest mem) hΓ hn

/-! ## Blocks over the integers alone -/

theorem checkWith_of_checks {stmt : IRStmt} (hc : Checks types Γ stmt Γ')
    (h : stmt.check types Γ = some Γ') : stmt.checkWith sigs types Γ = some Γ' := by
  cases hc with
  | wrTmp hd _ => cases hd <;> exact h
  | _ => exact h

theorem checkStmtsWith_of_checkStmts {stmts : List IRStmt}
    (h : checkStmts types Γ stmts = some Γ') : checkStmtsWith sigs types Γ stmts = some Γ' := by
  induction stmts generalizing Γ with
  | nil => exact h
  | cons stmt stmts ih =>
      obtain ⟨Γ₁, h₁, h⟩ := Option.bind_eq_some_iff.1 h
      rw [checkStmtsWith, checkWith_of_checks (checks_of_check h₁) h₁]
      exact ih h

/-- The parts of a well-typed block. -/
theorem IRSB.exists_of_wellTyped {sb : IRSB} (h : sb.wellTyped = true) :
    sb.jumpkind ≠ .Sys_sysenter ∧
      ∃ Γ, checkStmts sb.types (fun _ => none) sb.stmts = some Γ ∧ sb.next.width Γ = some 64 := by
  unfold IRSB.wellTyped at h
  rw [Bool.and_eq_true, bne_iff_ne, beq_iff_eq] at h
  obtain ⟨Γ, hΓ, hn⟩ := Option.bind_eq_some_iff.1 h.2
  exact ⟨h.1, Γ, hΓ, hn⟩

/-- A block over the integers is well typed whatever the helpers. -/
theorem IRSB.wellTypedWith_of_wellTyped {sb : IRSB} (h : sb.wellTyped = true) :
    sb.wellTypedWith sigs = true := by
  obtain ⟨hjk, Γ, hΓ, hn⟩ := IRSB.exists_of_wellTyped h
  rw [IRSB.wellTypedWith, Bool.and_eq_true, bne_iff_ne, beq_iff_eq,
    checkStmtsWith_of_checkStmts hΓ]
  exact ⟨hjk, hn⟩

theorem runFromWith_of_checkStmts {sb : IRSB} {stmts : List IRStmt}
    (h : checkStmts sb.types Γ stmts = some Γ') :
    sb.runFromWith callees s stmts = sb.runFrom s stmts := by
  induction stmts generalizing Γ s with
  | nil => rfl
  | cons stmt stmts ih =>
      obtain ⟨Γ₁, h₁, h⟩ := Option.bind_eq_some_iff.1 h
      rw [IRSB.runFromWith, IRSB.runFrom, runWith_of_checks (checks_of_check h₁)]
      refine bind_congr fun st => ?_
      cases st with
      | next s' => exact ih h
      | leave jk dst => rfl

/-- A block over the integers alone runs as before. -/
theorem IRSB.runWith_eq_run {sb : IRSB} (h : sb.wellTyped = true) (guest mem : BitVec 64 → LLVM.Byte) :
    sb.runWith callees guest mem = sb.run guest mem := by
  obtain ⟨-, Γ, hΓ, -⟩ := IRSB.exists_of_wellTyped h
  exact runFromWith_of_checkStmts hΓ

end Vex
