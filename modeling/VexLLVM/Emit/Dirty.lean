import VexLLVM.Emit.Access
import VexLLVM.Emit.SBDraft

/-!
# Calls of helpers

What `VexStmtDirty` does: the helper is called in a block that the guard decides
about, or right away where the guard is a constant that is true. The first argument is
cast to the type of the first parameter, whether there is one or not.
-/

namespace VexLLVM

open LLVM LLVM.Code Vex StateExcept VexStmt

/-- The arguments fit the helper. The first one may be a pointer to something else. -/
inductive Fits : List Ty → List Ty → Prop where
  | nil : Fits [] []
  | same (t : Ty) (ts : List Ty) : Fits (t :: ts) (t :: ts)
  | ptr (t p : Ty) (ts : List Ty) : Fits (.ptr t :: ts) (.ptr p :: ts)

theorem Fits.ne_nil {ts ps : List Ty} (h : Fits ts ps) (ht : ts ≠ []) : ps ≠ [] := by
  cases h with
  | nil => exact absurd rfl ht
  | same t ts => exact List.cons_ne_nil _ _
  | ptr t p ts => exact List.cons_ne_nil _ _

def dirtyTemps (types : List IRType) (ρ : IRTemp → Option (Ty × ℕ)) {r : ℕ} (y : BitVec r) :
    Option IRTemp → IRTemp → Option (Ty × ℕ)
  | none => ρ
  | some t => Function.update ρ t ((tmpTy types t).map fun ty => (ty, (y.setWidth ty.bits).toNat))

section Runs

variable {total : Bool} {ext : Extern} {R : Frame → RVal → Prop} {ρ : IRTemp → Option (Ty × ℕ)}
  {L : List (Value × RVal)} {M M' : Machine} {gen : GenLLVM} {types : List IRType}
  {args : List VexExpr} {qs : List (Ty × RVal)} {vs : List Value} {rs : List RVal}

/-- The arguments are evaluated in order. -/
theorem runs_args (h : List.Forall₂ (fun e q => Operand gen ρ e q.1 q.2) args qs) :
    Runs total ext (Stands ρ L M) (emitAll (args.map fun e => e.emit gen))
      (fun vs σ fr => vs.map Value.ty = qs.map Prod.fst ∧
        Stands ρ (vs.zip (qs.map Prod.snd) ++ L) M σ fr) R := by
  induction h generalizing L with
  | nil => exact (runs_pure []).pre fun σ fr h => ⟨rfl, h⟩
  | @cons e q args qs he hes ih =>
      have hb : Builds (emitAll (args.map fun e => e.emit gen)) := builds_emitAll fun m hm => by
        obtain ⟨e, -, rfl⟩ := List.mem_map.1 hm
        infer_instance
      refine (he total ext L M R).got fun v hv => ?_
      refine ih.bind fun vs => runs_of_and fun hvs => ?_
      refine (runs_pure (v :: vs)).pre fun σ fr h =>
        ⟨by rw [List.map_cons, hv, hvs, List.map_cons], ?_⟩
      refine h.sub fun z hz => ?_
      rcases List.mem_cons.1 hz with rfl | hz
      · simp
      · rcases List.mem_append.1 hz with hz | hz
        · exact List.mem_append_left _ hz
        · exact List.mem_append_right _ (List.mem_cons_of_mem _ hz)

theorem mapM_eval {fr : Frame} {n : ℕ} (hL : ∀ v x, (v, x) ∈ L → fr.Has n v x)
    (h : List.Forall₂ (fun v r => (v, r) ∈ L) vs rs) : vs.mapM fr.eval = some rs := by
  induction h with
  | nil => rfl
  | cons hv _ ih =>
      rw [List.mapM_cons, (hL _ _ hv).2, ih]
      rfl

/-- A call of a function that returns. -/
theorem runs_call {f : String} {sig : FnTy} {r : RVal}
    (h : List.Forall₂ (fun v r => (v, r) ∈ L) vs rs) (hext : ext f rs M = some (r, M')) :
    Runs total ext (Stands ρ L M) (code (createCall f sig vs)) (Got ρ L M' sig.ret r) R := by
  have hexec : ∀ σ fr, Stands ρ L M σ fr → (Inst.call f sig vs).exec ext fr = some (r, M') := by
    intro σ fr hs
    rw [Inst.exec, mapM_eval hs.vals h, hs.mach]
    exact hext
  refine runs_inst (by simp [Inst.simplify?, Inst.sameTypeCast?, Inst.constFold?, Inst.eval])
    (fun _ σ fr hs => by rw [hexec σ fr hs]; rfl) ?_
  intro σ σ' fr fr' v x hl hk hs hx hv hty
  rw [hexec σ fr hs] at hx
  cases hx
  exact ⟨hty, (hs.moved hl hk).cons hv⟩

/-- The result is widened or cut to the width of the temporary. -/
theorem runs_castResult {call : Value} {r w : ℕ} {y : BitVec r} (hty : call.ty = .int r)
    (hy : (call, .bits y.toNat) ∈ L) :
    Runs total ext (Stands ρ L M) (code (castResult call (.int r) (.int w)))
      (Got ρ L M (.int w) (.bits (y.setWidth w).toNat)) R := by
  refine runs_code_got fun ev hev => ?_
  have hcall := hev.num hty hy
  unfold castResult
  rw [Ty.bits_int, Ty.bits_int, BitVec.toNat_setWidth]
  split
  · next hlt =>
      rw [Nat.mod_eq_of_lt (y.isLt.trans_le (Nat.pow_le_pow_right (by decide) hlt.le))]
      exact (computes_cast_self .bitcast hcall).then fun v hv => computes_zext hv w
  · split
    · next hlt =>
        exact (computes_cast_self .bitcast hcall).then fun v hv => computes_trunc hv y.isLt hlt.le
    · next h₁ h₂ =>
        obtain rfl : r = w := by omega
        rw [Nat.mod_eq_of_lt y.isLt]
        exact hcall

theorem forall₂_zip (h : vs.length = rs.length) (hL : vs.zip rs ⊆ L) :
    List.Forall₂ (fun v r => (v, r) ∈ L) vs rs := by
  induction vs generalizing rs with
  | nil =>
      rw [List.eq_nil_of_length_eq_zero h.symm]
      exact .nil
  | cons v vs ih =>
      cases rs with
      | nil => cases h
      | cons r rs =>
          rw [List.zip_cons_cons, List.cons_subset] at hL
          exact .cons hL.1 (ih (Nat.succ.inj h) hL.2)

variable {f : String} {sig : FnTy} {tmp : Option IRTemp} {r : ℕ} {y : BitVec r}

/-- What `emitDirtyCall` does with the result of the call. -/
def setResult (types : List IRType) (ret : Ty) (call : Value) : Option IRTemp → EmitM Unit
  | none => pure ()
  | some t => do
      let tmpType ← regType types t
      let r ← code (castResult call ret tmpType)
      setRegValue t r

instance builds_setResult (ret : Ty) (call : Value) (tmp : Option IRTemp) :
    Builds (setResult types ret call tmp) := by
  cases tmp <;> unfold setResult <;> infer_instance

def callArgs (types : List IRType) (f : String) (sig : FnTy) (tmp : Option IRTemp) :
    List Value → List Ty → EmitM Unit
  | v :: vs, p :: _ => do
      let v ← code (createBitCast v p)
      let call ← code (createCall f sig (v :: vs))
      setResult types sig.ret call tmp
  | _, _ => throw (.assertion "args_v[0]")

instance builds_callArgs (f : String) (sig : FnTy) (tmp : Option IRTemp) (vs : List Value) (ps : List Ty) :
    Builds (callArgs types f sig tmp vs ps) := by
  cases vs <;> cases ps <;> unfold callArgs <;> infer_instance

theorem emitDirtyCall_eq (f : String) (sig : FnTy) (tmp : Option IRTemp) :
    emitDirtyCall gen types f sig tmp args =
      emitAll (args.map fun e => e.emit gen) >>= fun vs =>
        callArgs types f sig tmp vs sig.params := by
  unfold emitDirtyCall
  congr 1

/-- The temporary, if there is one, gets the result. -/
theorem runs_setResult {call : Value}
    (htmp : ∀ t ∈ tmp, sig.ret = .int r ∧ ∃ w, tmpTy types t = some (.int w))
    (hty : call.ty = sig.ret) (hy : (call, .bits y.toNat) ∈ L) :
    Runs total ext (Stands ρ L M) (setResult types sig.ret call tmp)
      (fun _ => Stands (dirtyTemps types ρ y tmp) [] M) R := by
  cases tmp with
  | none =>
      have hdone : Runs total ext (Stands ρ L M) (pure ()) (fun _ => Stands ρ L M) R := runs_done
      exact hdone.post fun _ _ _ h => h.sub (List.nil_subset _)
  | some t =>
      obtain ⟨hret, w, hw⟩ := htmp t rfl
      have hreg : regType types t = pure (.int w) := llvmTy_of_some hw
      unfold setResult
      dsimp only
      rw [hreg, pure_bind, hret]
      refine (runs_castResult (hty.trans hret) hy).got fun v hv => ?_
      refine (runs_setRegValue_stands t hv (List.mem_cons_self ..)).post fun _ σ fr h => ?_
      rw [dirtyTemps, hw]
      exact h.sub (List.nil_subset _)

theorem runs_dirtyCall {q : Ty × RVal}
    (h : List.Forall₂ (fun e q => Operand gen ρ e q.1 q.2) args (q :: qs))
    (hparams : sig.params ≠ [])
    (htmp : ∀ t ∈ tmp, sig.ret = .int r ∧ ∃ w, tmpTy types t = some (.int w))
    (hext : ext f ((q :: qs).map Prod.snd) M = some (.bits y.toNat, M')) :
    Runs total ext (Stands ρ L M) (emitDirtyCall gen types f sig tmp args)
      (fun _ => Stands (dirtyTemps types ρ y tmp) [] M') R := by
  have hb : Builds (emitAll (args.map fun e => e.emit gen)) := builds_emitAll fun m hm => by
    obtain ⟨e, -, rfl⟩ := List.mem_map.1 hm
    infer_instance
  obtain ⟨p, ps, hp⟩ := List.exists_cons_of_ne_nil hparams
  rw [emitDirtyCall_eq]
  refine (runs_args h).bind fun vs => runs_of_and fun hvs => ?_
  cases vs with
  | nil => cases hvs
  | cons v vs =>
      rw [List.map_cons, List.map_cons, List.cons.injEq] at hvs
      have hlen : vs.length = (qs.map Prod.snd).length := by
        have := congrArg List.length hvs.2
        simpa using this
      rw [hp, callArgs]
      refine Runs.got (t := p) (r := q.2) (runs_code_got fun ev hev => ?_) fun v' hv' => ?_
      · exact computes_bitCast ⟨hvs.1, hev.vals _ _ (by simp)⟩ p
      · have hzip : vs.zip (qs.map Prod.snd) ⊆
            (v', q.2) :: ((v :: vs).zip ((q :: qs).map Prod.snd) ++ L) := fun z hz => by simp [hz]
        refine (runs_call (.cons (List.mem_cons_self ..) (forall₂_zip hlen hzip)) hext).got
          fun call hcall => ?_
        exact runs_setResult htmp hcall (List.mem_cons_self ..)

theorem isOneValue_iff {v : Value} : isOneValue v = true ↔ ∃ t, v = .const t 1 := by
  cases v with
  | const t n => simp [isOneValue]
  | _ => simp [isOneValue]

variable {guard : VexExpr}

/-- The helper is called where the guard is true. -/
theorem runs_dirty_true {q : Ty × RVal} (hg : Operand gen ρ guard (.int 1) (.bits 1))
    (h : List.Forall₂ (fun e q => Operand gen ρ e q.1 q.2) args (q :: qs))
    (hparams : sig.params ≠ [])
    (htmp : ∀ t ∈ tmp, sig.ret = .int r ∧ ∃ w, tmpTy types t = some (.int w))
    (hext : ext f ((q :: qs).map Prod.snd) M = some (.bits y.toNat, M')) :
    Runs total ext (Stands ρ [] M) (emitDirty gen types f sig guard tmp args)
      (fun _ => Stands (dirtyTemps types ρ y tmp) [] M') R := by
  unfold emitDirty
  refine (hg total ext [] M R).got fun c hc => ?_
  split
  · exact runs_dirtyCall h hparams htmp hext
  · refine runs_ifThen_stands (c := 1) (t := .int 1) (kept_stands _ _ _) ?_ (fun h =>
      absurd h one_ne_zero)
      fun _ => runs_dirtyCall h hparams htmp hext
    exact (runs_pure c).pre fun σ fr h => ⟨hc, h.cons (h.vals _ _ (List.mem_cons_self ..))⟩

/-- Where it is not, nothing happens. -/
theorem runs_dirty_false (hg : Operand gen ρ guard (.int 1) (.bits 0)) :
    Runs total ext (Stands ρ [] M) (emitDirty gen types f sig guard tmp args)
      (fun _ => Stands ρ [] M) R := by
  unfold emitDirty
  refine (hg total ext [] M R).got fun c hc => ?_
  split
  · next hone =>
      obtain ⟨t, rfl⟩ := isOneValue_iff.1 hone
      intro σ a σ' G fr _ _ _ _ _ hs
      have h0 := (hs.vals _ _ (List.mem_cons_self ..)).2
      cases h0
  · refine runs_ifThen_stands (c := 0) (t := .int 1) (kept_stands _ _ _) ?_
      (fun _ σ fr h => h.sub (List.nil_subset _)) fun h => absurd rfl h
    exact (runs_pure c).pre fun σ fr h => ⟨hc, h.cons (h.vals _ _ (List.mem_cons_self ..))⟩

end Runs

/-! ## The statement -/

/-- What the statement should do. It is emitted; from a state where the guard is false the
code comes to its end with nothing changed, and from one where it is true with the machine
that the helper left when it was called with the arguments, and with its result in the
temporary. -/
def CallsHelper (gen : GenLLVM) (types : List IRType) (f : String) (sig : FnTy) (guard : VexExpr)
    (tmp : Option IRTemp) (args : List VexExpr) (ρ : IRTemp → Option (Ty × ℕ)) (g : Bool) (rs : List RVal)
    (r : ℕ) (σ : GenState) : Prop :=
  ∃ σ', (VexStmt.dirty f sig guard tmp args).emit gen types σ = .ok ((), σ') ∧
    ∀ (ext : Extern) (G : Func) (fr : Frame) (M : Machine), Builder.Extends σ'.func G →
      fr.At σ.toBuilder → Stands ρ [] M σ fr →
        (g = false → ∃ fr', G.Reach ext fr fr' ∧ fr'.At σ'.toBuilder ∧ Stands ρ [] M σ' fr') ∧
        (g = true → ∀ (y : BitVec r) (M' : Machine), ext f rs M = some (.bits y.toNat, M') →
          ∃ fr', G.Reach ext fr fr' ∧ fr'.At σ'.toBuilder ∧
            Stands (dirtyTemps types ρ y tmp) [] M' σ' fr')

theorem Runs.arrives {ext : Extern} {P Q : Assertion} {m : EmitM Unit} {σ σ' : GenState} {G : Func}
    {fr : Frame} (h : Runs true ext P m (fun _ => Q) fun _ _ => False) (hm : m σ = .ok ((), σ'))
    (hok : σ.toBuilder.OK) (hG : Builder.Extends σ'.func G) (hat : fr.At σ.toBuilder)
    (hp : P σ fr) :
    ∃ fr', G.Reach ext fr fr' ∧ fr'.At σ'.toBuilder ∧ Q σ' fr' := by
  rcases h σ () σ' G fr hm hok hG (.inl rfl) hat hp with ⟨fr', hr, hat', -, hq⟩ | ⟨_, _, _, _, h⟩
  · exact ⟨fr', hr, hat', hq⟩
  · exact h.elim

/-- A statement whose operands are emitted and whose temporary is not set calls its helper
as it should exactly if it has an argument. -/
theorem dirty_callsHelper_iff {gen : GenLLVM} {types : List IRType} {f : String} {sig : FnTy}
    {guard : VexExpr} {tmp : Option IRTemp} {args : List VexExpr} {ρ : IRTemp → Option (Ty × ℕ)} {g : Bool}
    {qs : List (Ty × RVal)} {r : ℕ} {σ : GenState} (hok : σ.OK)
    (hg : Operand gen ρ guard (.int 1) (.bits g.toNat))
    (hargs : List.Forall₂ (fun e q => Operand gen ρ e q.1 q.2) args qs)
    (hge : guard.fails gen σ.table = false) (hae : ∀ e ∈ args, e.fails gen σ.table = false)
    (hfit : Fits (qs.map Prod.fst) sig.params)
    (htmp : ∀ t ∈ tmp, (sig.ret = .int r ∧ ∃ w, tmpTy types t = some (.int w)) ∧ σ.values t = none) :
    CallsHelper gen types f sig guard tmp args ρ g (qs.map Prod.snd) r σ ↔ args ≠ [] := by
  have hem := @emission_stmt gen types σ.table (.dirty f sig guard tmp args)
  constructor
  · rintro ⟨σ', hm, -⟩ rfl
    refine ((hem σ hok rfl σ rfl).1 () σ' hm).1 ?_
    simp [VexStmt.fails]
  · intro hne
    cases hargs with
    | nil => exact absurd rfl hne
    | @cons e q args qs he hes =>
        have hparams : sig.params ≠ [] := hfit.ne_nil (List.cons_ne_nil _ _)
        have htys : ∀ t ∈ tmp, sig.ret = .int r ∧ ∃ w, tmpTy types t = some (.int w) :=
          fun t ht => (htmp t ht).1
        have hfails : (VexStmt.dirty f sig guard tmp (e :: args)).fails gen types σ.table ≠ true := by
          have hany : ((e :: args).any fun e => e.fails gen σ.table) = false :=
            List.any_eq_false.2 fun e he => Bool.eq_false_iff.1 (hae e he)
          have htmp' : (tmp.any fun t => (tmpTy types t).isNone || (σ.table t).isSome) = false := by
            cases tmp with
            | none => rfl
            | some t =>
                obtain ⟨⟨-, w, hw⟩, hnone⟩ := htmp t rfl
                simp [GenState.table, hw, hnone]
          have hps : sig.params.isEmpty = false := by simpa using hparams
          rw [VexStmt.fails, hge, hany, htmp', hps]
          exact Bool.false_ne_true
        obtain ⟨⟨⟩, σ', hm⟩ := hem.exists_ok hok rfl hfails
        refine ⟨σ', hm, fun ext G fr M hG hat hs => ⟨?_, ?_⟩⟩
        · rintro rfl
          exact (runs_dirty_false hg).arrives hm hok.builder hG hat hs
        · rintro rfl y M' hext
          exact (runs_dirty_true hg (.cons he hes) hparams htys hext).arrives hm hok.builder hG hat hs

def rdtsc : FnTy := ⟨[], .int 64⟩

def rotate : FnTy := ⟨[.ptr (.int 8), .int 64], .int 32⟩

theorem dirty_callsHelper_rotate : CallsHelper plainGen [.I64] "rotate" rotate (.const (.U1 true)) (some 0)
    [.gsptr, .const (.U64 5)] (fun _ => none) true [.ctxPtr 0, .bits 5] 32 GenLLVM.beginBB := by
  have hargs : List.Forall₂ (fun e (q : Ty × RVal) => Operand plainGen (fun _ => none) e q.1 q.2)
      [.gsptr, .const (.U64 5)] [(.ptr plainGen.guestCtxTy, .ctxPtr 0), (.int 64, .bits 5)] :=
    .cons (operand_gsptr plainGen _) (.cons (operand_const plainGen _ rfl) .nil)
  have hfit : Fits [.ptr plainGen.guestCtxTy, .int 64] rotate.params := .ptr _ _ _
  have htmp : ∀ t ∈ some 0, (rotate.ret = .int 32 ∧ ∃ w, tmpTy [.I64] t = some (.int w)) ∧
      GenLLVM.beginBB.values t = none := by
    rintro t ⟨⟩
    exact ⟨⟨rfl, 64, rfl⟩, rfl⟩
  exact (dirty_callsHelper_iff (g := true) VexSB.beginBB_OK (operand_const plainGen _ rfl) hargs rfl
    (by decide +kernel) hfit htmp).2 (by decide)

/-- The first argument is cast where there is none. -/
theorem dirty_not_callsHelper : ¬ CallsHelper plainGen [.I64] "rdtsc" rdtsc (.const (.U1 true)) (some 0) []
    (fun _ => none) true [] 64 GenLLVM.beginBB := by
  rintro ⟨σ', hm, -⟩
  have h : ((VexStmt.dirty "rdtsc" rdtsc (.const (.U1 true)) (some 0) []).emit plainGen [.I64]
    GenLLVM.beginBB).toOption.isSome = false := by decide +kernel
  rw [hm] at h
  cases h

end VexLLVM
