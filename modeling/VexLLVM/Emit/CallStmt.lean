import VexLLVM.Vex.CalleesTyped
import VexLLVM.Emit.IntStmt
import VexLLVM.Emit.CAS
import VexLLVM.Emit.Dirty

/-!
# Statements that call helpers

What is emitted for calls, compare-and-swaps, conditional stores and fences does what
the statements mean, where the functions of the helper modules do what the helpers do.
-/

namespace LLVM

/-- What a parameter takes: a word of some width, or a pointer. -/
def Ty.paramWidth? : Ty → Option (Option ℕ)
  | .scalar (.int w) => some (some w)
  | .ptr _ => some none
  | _ => none

/-- The function as a helper, where it takes words and pointers and returns a word. -/
def FnTy.signature? (fn : FnTy) : Option Vex.Signature := do
  let params ← fn.params.mapM Ty.paramWidth?
  match fn.ret with
  | .scalar (.int w) => pure ⟨params, w⟩
  | _ => none

end LLVM

namespace VexLLVM

open LLVM LLVM.Code Vex StateExcept VexStmt

def GenLLVM.sigs (gen : GenLLVM) (cee : String) : Option Signature :=
  (gen.helpers cee).bind FnTy.signature?

theorem GenLLVM.exists_of_sigs {gen : GenLLVM} {cee : String} {sig : Signature}
    (h : gen.sigs cee = some sig) : ∃ fn, gen.helpers cee = some fn ∧ fn.ret = .int sig.ret ∧
      (sig.params ≠ [] → fn.params ≠ []) := by
  obtain ⟨fn, hfn, h⟩ := Option.bind_eq_some_iff.1 h
  obtain ⟨ps, hps, h⟩ := Option.bind_eq_some_iff.1 h
  split at h
  · next w hw =>
      cases h
      refine ⟨fn, hfn, hw, fun hne hnil => hne ?_⟩
      rw [hnil] at hps
      cases hps
      rfl
  · cases h

def argRVal : Arg → RVal
  | .word a => .bits a.bits.toNat
  | .state => .ctxPtr 0

/-- The functions of the helper modules do what the helpers with these signatures do. -/
structure ImplementsAt (gen : GenLLVM) (sigs : String → Option Signature) (ext : Extern)
    (callees : Callees) : Prop where
  known : ∀ cee sig, sigs cee = some sig → gen.sigs cee = some sig
  signed : callees.Signed sigs
  calls : ∀ cee sig, sigs cee = some sig → ∀ as, List.Forall₂ Arg.Fits as sig.params → ∀ M : Machine,
    ∃ M', ext cee (as.map argRVal) M =
        some (.bits (callees cee as M.ctx (gen.guestMem M.mem)).val.bits.toNat, M') ∧
      M'.ctx = (callees cee as M.ctx (gen.guestMem M.mem)).guest ∧
        gen.guestMem M'.mem = (callees cee as M.ctx (gen.guestMem M.mem)).mem

abbrev Implements (gen : GenLLVM) (ext : Extern) (callees : Callees) : Prop :=
  ImplementsAt gen gen.sigs ext callees

section Statements

variable {gen : GenLLVM} {sigs : String → Option Signature} {callees : Callees} {Γ : Widths} {s s' : State} {M M' : Machine}
  {total : Bool} {ext : Extern} {R : Frame → RVal → Prop} {types : List IRType} {w : ℕ}
  {e addr data guard : IRExpr} {es : List IRExpr} {a : IRWord}

/-! ## Operands -/

theorem operand_atom (ha : e.isAtom = true) (he : s.eval e = .ok a) :
    Operand gen (tmpValues s) (VexExpr.create gen e) (.int a.width) (.bits a.bits.toNat) := by
  cases e with
  | RdTmp tmp =>
      refine operand_rdTmp gen ?_
      unfold tmpValues
      rw [eq_some_of_orIllTyped he]
      rfl
  | Const con =>
      have hc := eq_some_of_orIllTyped he
      have hcreate : VexExpr.create gen (.Const con) = .const con := by
        cases con <;> first | rfl | cases hc
      rw [hcreate]
      refine operand_const gen _ ?_
      cases con with
      | U1 b =>
          cases hc
          cases b <;> rfl
      | U8 _ | U16 _ | U32 _ | U64 _ =>
          cases hc
          rfl
      | _ => cases hc
  | _ => cases ha

def argTy (gen : GenLLVM) : Arg → Ty
  | .word a => .int a.width
  | .state => .ptr gen.guestCtxTy

theorem operand_arg {p : Option ℕ} {x : Arg} (h : ArgHas Γ e p) (hx : s.arg e = .ok x) :
    Operand gen (tmpValues s) (VexExpr.create gen e) (argTy gen x) (argRVal x) := by
  cases h with
  | state =>
      cases hx
      exact operand_gsptr gen _
  | word ha hw =>
      have harg : s.arg e = .word <$> s.eval e := by
        cases e <;> first | rfl | cases ha
      rw [harg] at hx
      cases he : s.eval e with
      | error f =>
          rw [he] at hx
          cases hx
      | ok a =>
          rw [he] at hx
          cases hx
          exact operand_atom ha he

/-- All operands of a call. -/
theorem operands_args {ps : List (Option ℕ)} {as : List Arg} (h : List.Forall₂ (ArgHas Γ) es ps)
    (hm : mapArgs s.arg es = .ok as) :
    List.Forall₂ (fun e (q : Ty × RVal) => Operand gen (tmpValues s) e q.1 q.2)
      (es.map (VexExpr.create gen)) (as.map fun x => (argTy gen x, argRVal x)) := by
  induction h generalizing as with
  | nil =>
      cases hm
      exact .nil
  | cons he _ ih =>
      obtain ⟨x, hx, hm⟩ := exists_of_bind_ok hm
      obtain ⟨xs, hxs, hm⟩ := exists_of_bind_ok hm
      cases hm
      exact .cons (operand_arg he hx) (ih hxs)

theorem map_snd_args (as : List Arg) :
    (as.map fun x => (argTy gen x, argRVal x)).map Prod.snd = as.map argRVal := by
  rw [List.map_map]
  rfl

/-- The operands of a typed call fit. -/
theorem fits_of_mapArgs (hs : s.Typed Γ) {ps : List (Option ℕ)} {as : List Arg}
    (h : List.Forall₂ (ArgHas Γ) es ps) (hm : mapArgs s.arg es = .ok as) :
    List.Forall₂ Arg.Fits as ps := by
  have hf := fine_mapArgs hs h
  rwa [hm] at hf

/-! ## Calls -/

/-- The guest after a call is on the machine after it. -/
theorem shows_returned {cee : String} {as : List Arg} (hM : gen.Shows M s)
    (hctx : M'.ctx = (callees cee as M.ctx (gen.guestMem M.mem)).guest)
    (hmem : gen.guestMem M'.mem = (callees cee as M.ctx (gen.guestMem M.mem)).mem) :
    gen.Shows M' (s.returned (callees cee as s.guest s.mem)) := by
  rw [hM.guest, hM.mem]
  exact ⟨hctx.symm, hmem.symm⟩

theorem goes_ccall (hr : Ready gen Γ s M) (hI : ImplementsAt gen sigs ext callees) {tmp : IRTemp}
    {cee : String} {retty : IRType} {n : ℕ} {args : Fin n → IRExpr} {sig : Signature} {as : List Arg}
    {v : BitVec sig.ret} (hsig : sigs cee = some sig)
    (hargs : List.Forall₂ (ArgHas Γ) (List.ofFn args) sig.params)
    (has : mapArgs s.arg (List.ofFn args) = .ok as)
    (hv : (callees cee as s.guest s.mem).val = ⟨sig.ret, v⟩) :
    Runs total ext (Stands (tmpValues s) [] M)
      ((VexStmt.create gen (.WrTmp tmp (.CCall cee retty n args))).emit gen types)
      (fun _ => Showing gen
        ((s.returned (callees cee as s.guest s.mem)).assign tmp ⟨sig.ret, v⟩)) R := by
  obtain ⟨fn, hfn, hret, -⟩ := GenLLVM.exists_of_sigs (hI.known cee sig hsig)
  obtain ⟨M', hext, hctx, hmem⟩ := hI.calls cee sig hsig as (fits_of_mapArgs hr.typed hargs has) M
  have hM := shows_returned hr.shows hctx hmem
  have hbits : (callees cee as M.ctx (gen.guestMem M.mem)).val.bits.toNat = v.toNat := by
    rw [← hr.shows.guest, ← hr.shows.mem, hv]
  have hemit : (VexStmt.create gen (.WrTmp tmp (.CCall cee retty n args))).emit gen types = (do
      let vs ← emitAll (((List.ofFn args).map (VexExpr.create gen)).map fun e => e.emit gen)
      let x ← code (createCall cee fn vs)
      setRegValue tmp x) := by
    rw [VexStmt.create, VexExpr.create, hfn, VexStmt.emit, VexExpr.emit, List.map_ofFn,
      List.map_ofFn, bind_assoc]
    rfl
  rw [hemit]
  have hb : Builds (emitAll (((List.ofFn args).map (VexExpr.create gen)).map fun e => e.emit gen)) :=
    builds_emitAll fun m hm => by
      obtain ⟨e, -, rfl⟩ := List.mem_map.1 hm
      infer_instance
  refine (runs_args (operands_args hargs has)).bind fun vs => runs_of_and fun hvs => ?_
  rw [map_snd_args]
  have hlen : vs.length = (as.map argRVal).length := by
    simpa using congrArg List.length hvs
  refine (runs_call (forall₂_zip hlen fun z hz => List.mem_append_left _ hz) hext).got fun x hx => ?_
  refine (runs_setRegValue_stands tmp (hx.trans hret) (List.mem_cons_self ..)).post fun _ σ fr h => ?_
  rw [hbits] at h
  exact Stands.showing (s := (s.returned _).assign tmp ⟨sig.ret, v⟩)
    (tmpValues_assign (s.returned _) tmp ⟨sig.ret, v⟩ ▸ h) ⟨hM.guest, hM.mem⟩

theorem tmpTy_of_width {t : IRTemp} (h : types[t]?.bind IRType.width? = some w) (hle : w ≤ 64) :
    tmpTy types t = some (.int w) := by
  obtain ⟨ty, hty, hw⟩ := Option.bind_eq_some_iff.1 h
  unfold tmpTy
  rw [List.getD_eq_getElem?_getD, hty]
  cases ty <;> cases hw <;> first | rfl | exact absurd hle (by decide)

/-- The first operand, and the others. -/
theorem exists_cons_args {ps : List (Option ℕ)} {as : List Arg} (h : List.Forall₂ Arg.Fits as ps)
    (hne : ps ≠ []) : ∃ a as', as = a :: as' := by
  cases h with
  | nil => exact absurd rfl hne
  | cons _ _ => exact ⟨_, _, rfl⟩

theorem exists_of_width (h : a.width = w) : ∃ y : BitVec w, a = ⟨w, y⟩ := by
  subst h
  exact ⟨a.bits, rfl⟩

/-- A call that is made, and whose result is kept where there is a temporary for it. -/
theorem goes_dirty (hr : Ready gen Γ s M) (hI : ImplementsAt gen sigs ext callees) {cee : String}
    {args : List IRExpr} {sig : Signature} {as : List Arg} {tmp : Option IRTemp}
    (hsig : sigs cee = some sig) (hargs : List.Forall₂ (ArgHas Γ) args sig.params)
    (hne : sig.params ≠ [])
    (hg : Operand gen (tmpValues s) (VexExpr.create gen guard) (.int 1) (.bits 1))
    (has : mapArgs s.arg args = .ok as)
    (htmp : ∀ t ∈ tmp, ∃ w, types[t]?.bind IRType.width? = some w ∧ w ≤ 64)
    (hs' : s'.guest = (callees cee as s.guest s.mem).guest)
    (hm' : s'.mem = (callees cee as s.guest s.mem).mem)
    (ht' : tmpValues s' = dirtyTemps types (tmpValues s) (callees cee as s.guest s.mem).val.bits tmp) :
    Runs total ext (Stands (tmpValues s) [] M)
      ((VexStmt.create gen (.Dirty cee guard tmp args)).emit gen types) (fun _ => Showing gen s') R := by
  obtain ⟨fn, hfn, hret, hps⟩ := GenLLVM.exists_of_sigs (hI.known cee sig hsig)
  have hfits := fits_of_mapArgs hr.typed hargs has
  obtain ⟨M', hext, hctx, hmem⟩ := hI.calls cee sig hsig as hfits M
  rw [← hr.shows.guest, ← hr.shows.mem] at hext hctx hmem
  obtain ⟨x, xs, rfl⟩ := exists_cons_args hfits hne
  have hops : List.Forall₂ (fun e (q : Ty × RVal) => Operand gen (tmpValues s) e q.1 q.2)
      (args.map (VexExpr.create gen)) ((x :: xs).map fun x => (argTy gen x, argRVal x)) :=
    operands_args hargs has
  have hcreate : VexStmt.create gen (.Dirty cee guard tmp args) =
      .dirty cee fn (VexExpr.create gen guard) tmp (args.map (VexExpr.create gen)) := by
    rw [VexStmt.create, hfn]
  obtain ⟨y, hy⟩ := exists_of_width (hI.signed cee sig hsig (x :: xs) s.guest s.mem)
  rw [hy] at hext ht'
  have hrun : Runs total ext (Stands (tmpValues s) [] M)
      (emitDirty gen types cee fn (VexExpr.create gen guard) tmp (args.map (VexExpr.create gen)))
      (fun _ => Stands (dirtyTemps types (tmpValues s) y tmp) [] M') R := by
    refine runs_dirty_true hg hops (hps hne) (fun t ht => ?_) ?_
    · obtain ⟨w, hw, hle⟩ := htmp t ht
      exact ⟨hret, w, tmpTy_of_width hw hle⟩
    · change ext cee (((x :: xs).map fun x => (argTy gen x, argRVal x)).map Prod.snd) M = _
      rw [map_snd_args]
      exact hext
  rw [hcreate]
  refine hrun.post fun _ σ fr h => ?_
  rw [← ht'] at h
  exact Stands.showing h ⟨hs'.trans hctx.symm, hm'.trans hmem.symm⟩

/-- A call that is not made. -/
theorem goes_dirty_skip (hr : Ready gen Γ s M) {cee : String} {args : List IRExpr} {sig : Signature}
    (tmp : Option IRTemp) (hsig : gen.sigs cee = some sig)
    (hg : Operand gen (tmpValues s) (VexExpr.create gen guard) (.int 1) (.bits 0)) :
    Runs total ext (Stands (tmpValues s) [] M)
      ((VexStmt.create gen (.Dirty cee guard tmp args)).emit gen types) (fun _ => Showing gen s) R := by
  obtain ⟨fn, hfn, -⟩ := GenLLVM.exists_of_sigs hsig
  rw [VexStmt.create, hfn]
  exact (runs_dirty_false hg).post fun _ _ _ h => h.showing hr.shows

/-! ## Shared memory -/

/-- The word that is compared is the guest's. -/
theorem load_eq_wordAt (hM : gen.Shows M s) (p : BitVec 64) (k : ℕ) :
    s.load p (8 * k) = ⟨8 * k, wordAt M.mem (gen.hostAt p.toNat) k⟩ := by
  rw [State.load, hM.mem, GenLLVM.readBytes_guestMem, Nat.mul_div_cancel_left _ (by decide)]
  rfl

/-- The address of a compare-and-swap. -/
theorem exists_addr (h64 : gen.is32Bit = false) (p : BitVec 64) :
    ∃ adr : BitVec gen.addrBits, adr.toNat = p.toNat := by
  refine ⟨BitVec.ofNat _ p.toNat, ?_⟩
  rw [BitVec.toNat_ofNat, GenLLVM.addrBits, h64]
  exact Nat.mod_eq_of_lt p.isLt

theorem exists_bytes (h : w ∈ [8, 16, 32, 64]) : ∃ k, w = 8 * k ∧ 0 < k ∧ k ≤ 8 := by
  refine ⟨w / 8, ?_⟩
  simp only [List.mem_cons, List.not_mem_nil, or_false] at h
  omega

/-- The machine after a compare-and-swap shows the guest after it. -/
theorem shows_cas {k : ℕ} {p : BitVec 64} {adr : BitVec gen.addrBits} {x d : BitVec (8 * k)}
    (hM : gen.Shows M s) (hadr : adr.toNat = p.toNat) (hd : CASDone gen M M' adr ⟨x, d⟩ none)
    (oldLo : IRTemp) :
    gen.Shows M' ((if s.load p (8 * k) = ⟨8 * k, x⟩ then s.store p ⟨8 * k, d⟩ else s).assign oldLo
      (s.load p (8 * k))) := by
  have hmem := hd.mem
  have hk : 8 * k / 8 = k := Nat.mul_div_cancel_left _ (by decide)
  rw [casTaken, casStored, hadr] at hmem
  rw [load_eq_wordAt hM]
  by_cases h : wordAt M.mem (gen.hostAt p.toNat) k = x
  · subst h
    rw [beq_self_eq_true, if_pos rfl] at hmem
    rw [if_pos rfl]
    refine ⟨hM.guest.trans hd.ctx.symm, ?_⟩
    change writeBytes s.mem p (8 * k / 8) d.toNat = _
    rw [hmem, hM.mem, hk, setWord, GenLLVM.guestMem_writeBytes]
  · have hne : ¬ (⟨8 * k, wordAt M.mem (gen.hostAt p.toNat) k⟩ : IRWord) = ⟨8 * k, x⟩ := fun he =>
      h (by cases he; rfl)
    rw [beq_eq_false_iff_ne.2 (Ne.symm h), if_neg Bool.false_ne_true] at hmem
    rw [if_neg hne]
    exact ⟨hM.guest.trans hd.ctx.symm, hM.mem.trans (congrArg gen.guestMem hmem.symm)⟩

theorem goes_cas (hr : Ready gen Γ s M) {k : ℕ} (hk : 0 < k) (hk' : k ≤ 8) (oldLo : IRTemp)
    {expd : IRExpr} {p : BitVec 64} {x d : BitVec (8 * k)}
    (ha : Operand gen (tmpValues s) (VexExpr.create gen addr) (.int 64) (.bits p.toNat))
    (hx : Operand gen (tmpValues s) (VexExpr.create gen expd) (.int (8 * k)) (.bits x.toNat))
    (hd : Operand gen (tmpValues s) (VexExpr.create gen data) (.int (8 * k)) (.bits d.toNat)) :
    Runs total ext (Stands (tmpValues s) [] M)
      ((VexStmt.create gen (.CAS none oldLo addr none expd none data)).emit gen types)
      (fun _ => Showing gen ((if s.load p (8 * k) = ⟨8 * k, x⟩ then s.store p ⟨8 * k, d⟩ else s).assign
        oldLo (s.load p (8 * k)))) R := by
  obtain ⟨adr, hadr⟩ := exists_addr hr.is64 p
  rw [GenLLVM.int_addrBits hr.is64, ← hadr] at ha
  have hlo : CASWord.Reads ⟨oldLo, VexExpr.create gen expd, VexExpr.create gen data⟩ gen (tmpValues s)
      (⟨x, d⟩ : CASValue k) := ⟨hx, hd⟩
  have hrun : Runs total ext (Stands (tmpValues s) [] M)
      ((VexStmt.create gen (.CAS none oldLo addr none expd none data)).emit gen types) _ R :=
    runs_cas_single hk hk' hr.copies ha hlo
  refine hrun.post fun _ σ fr ⟨M', hdone, h⟩ => ?_
  have hs : Stands (tmpValues ((if s.load p (8 * k) = ⟨8 * k, x⟩ then s.store p ⟨8 * k, d⟩ else s).assign
      oldLo (s.load p (8 * k)))) [] M' σ fr := by
    have hif : tmpValues (if s.load p (8 * k) = ⟨8 * k, x⟩ then s.store p ⟨8 * k, d⟩ else s) =
        tmpValues s := by
      split <;> rfl
    rw [tmpValues_assign, hif, load_eq_wordAt hr.shows, ← hadr]
    exact h
  exact hs.showing (shows_cas hr.shows hadr hdone oldLo)

theorem goes_loadLinked (hr : Ready gen Γ s M) {result : IRTemp} {p : BitVec 64}
    (hw : types[result]?.bind IRType.stored? = some w) (ha : Emits gen s M addr ⟨64, p⟩) :
    Runs total ext (Stands (tmpValues s) [] M)
      ((VexStmt.create gen (.LLSC result addr none)).emit gen types)
      (fun _ => Showing gen (s.assign result (s.load p w))) R := by
  obtain ⟨ty, hty, hst⟩ := Option.bind_eq_some_iff.1 hw
  change Runs total ext _ (do
    let a ← (VexExpr.create gen addr).emit gen
    let t ← llvmTy (types.getD result .I1)
    let v ← gen.load a t
    setRegValue result v) _ R
  rw [List.getD_eq_getElem?_getD, hty]
  refine (ha total ext [] R).got fun u hu => runs_llvmTy_bind fun t ht => ?_
  obtain ⟨rfl, -, hw8, hpos, hle⟩ := vexTy2LLVM_stored hst ht
  exact (runs_loadWord hr hw8 hpos hle hu (List.mem_cons_self ..)).got fun v hv =>
    runs_assign hr hv (List.mem_cons_self ..)

theorem goes_storeCond (hr : Ready gen Γ s M) {result : IRTemp} {p : BitVec 64} {d : IRWord}
    (ha : Emits gen s M addr ⟨64, p⟩) (hd : Emits gen s M data d) :
    Runs total ext (Stands (tmpValues s) [] M)
      ((VexStmt.create gen (.LLSC result addr (some data))).emit gen types)
      (fun _ => Showing gen ((s.store p d).assign result ⟨1, 1⟩)) R := by
  have hlinked : ∀ (L : List (LLVM.Value × RVal)) (M : Machine),
      Runs total ext (Stands (tmpValues s) L M) (pure getLinked)
        (Got (tmpValues s) L M (.int 1) (.bits 1)) R := fun L M =>
    (runs_code_got (c := pure getLinked) fun ev hev =>
      num_constInt hev.consts (Nat.one_lt_two_pow (by decide)))
  have hbody : Runs total ext (Stands (tmpValues s) [] M) (do
      let a ← (VexExpr.create gen addr).emit gen
      let x ← (VexExpr.create gen data).emit gen
      gen.store a x) (fun _ => Stands (tmpValues s) []
        (gen.storeTo M p.toNat (d.width / 8) d.bits.toNat)) R := by
    refine (ha total ext _ R).got fun u hu => (hd total ext _ R).got fun x hx => ?_
    exact (runs_storeWord hr hu hx (List.mem_cons_of_mem _ (List.mem_cons_self ..))
      (List.mem_cons_self ..)).post fun _ _ _ h => h.sub (List.nil_subset _)
  change Runs total ext _ (do
    ifThen (pure getLinked) do
      let a ← (VexExpr.create gen addr).emit gen
      let x ← (VexExpr.create gen data).emit gen
      gen.store a x
    setRegValue result getLinked) _ R
  refine (runs_ifThen_machine (hlinked _ _) hbody).bind fun _ => ?_
  rw [if_neg one_ne_zero, ← pure_bind getLinked (setRegValue result)]
  refine (hlinked _ _).got fun v hv => ?_
  refine (runs_setRegValue_stands result hv (List.mem_cons_self ..)).post fun _ σ fr h => ?_
  have hM := shows_store (a := p) (d := d) hr.shows rfl
  exact Stands.showing (s := (s.store p d).assign result ⟨1, 1⟩)
    (tmpValues_assign (s.store p d) result ⟨1, 1⟩ ▸ h) ⟨hM.guest, hM.mem⟩

theorem goes_mbe (hM : gen.Shows M s) :
    Runs total ext (Stands (tmpValues s) [] M) ((VexStmt.create gen .MBE).emit gen types)
      (fun _ => Showing gen s) R := by
  have hfence : Runs total ext (Stands (tmpValues s) [] M) (code (LLVM.Code.create .fence))
      (fun _ => Stands (tmpValues s) [] M) R := by
    refine runs_inst (by simp [Inst.simplify?, Inst.sameTypeCast?, Inst.constFold?, Inst.eval])
      (fun _ _ _ _ => rfl) fun σ σ' fr fr' v x hl hk hs hx _ _ => ?_
    have hm : fr.m = fr'.m := congrArg Prod.snd (Option.some.inj hx)
    exact hs.mach ▸ hm ▸ hs.moved hl hk
  change Runs total ext _ (code (LLVM.Code.create .fence) >>= fun _ => pure ()) _ R
  exact hfence.bind fun _ => runs_done.post fun _ _ _ h => h.showing hM

/-! ## All statements -/

theorem goes_of_runWith (hr : Ready gen Γ s M) (hI : ImplementsAt gen sigs ext callees)
    (hoff : gen.exitTypeOffset < 2 ^ 31) {stmt : IRStmt} {Γ' : Widths} {st : Step}
    (h : ChecksWith sigs types Γ stmt Γ') (hst : stmt.runWith callees types s = .ok st) :
    Runs total ext (Stands (tmpValues s) [] M) ((VexStmt.create gen stmt).emit gen types)
      (fun _ σ fr => ∃ s', st = .next s' ∧ Showing gen s' σ fr)
      (fun fr v => ∃ jk dst, st = .leave jk dst ∧ gen.Leaves s jk dst fr v) := by
  have hnext : ∀ {s' : State} {m : EmitM Unit} {R : Frame → RVal → Prop},
      Runs total ext (Stands (tmpValues s) [] M) m (fun _ => Showing gen s') R →
        Runs total ext (Stands (tmpValues s) [] M) m
          (fun _ σ fr => ∃ s'', Step.next s' = .next s'' ∧ Showing gen s'' σ fr) R := fun h =>
    h.post fun _ _ _ h => ⟨_, rfl, h⟩
  cases h with
  | plain h =>
      rw [runWith_of_checks h] at hst
      exact goes_of_run hr hoff h hst
  | @ccall tmp cee retty n args sig _ hsig hargs hwords hret h =>
      obtain ⟨w, hw, hst⟩ := exists_of_bind_ok hst
      cases hret.symm.trans (eq_some_of_orIllTyped hw)
      obtain ⟨as, has, hst⟩ := exists_of_bind_ok hst
      obtain ⟨v, hv, hst⟩ := exists_of_bind_ok hst
      cases hst
      exact hnext (goes_ccall hr hI hsig hargs has (IRWord.as_eq_ok hv))
  | @dirty cee guard args sig hsig hargs hne hwords hatom hg =>
      obtain ⟨g, hgv, hst⟩ := exists_of_bind_ok hst
      obtain ⟨a, ha, hgw⟩ := exists_of_bind_ok hgv
      cases IRWord.as_eq_ok hgw
      have hop : Operand gen (tmpValues s) _ _ _ := operand_atom hatom ha
      split at hst
      · next h1 =>
          subst h1
          obtain ⟨as, has, hst⟩ := exists_of_bind_ok hst
          cases hst
          exact hnext (goes_dirty hr hI hsig hargs hne hop has (fun t ht => by cases ht) rfl rfl rfl)
      · next h1 =>
          cases hst
          have h0 : g.toNat = 0 := not_not.1 fun h0 => h1 ((bit_ne_zero g).1 h0)
          dsimp only at hop
          rw [h0] at hop
          exact hnext (goes_dirty_skip hr none (hI.known cee sig hsig) hop)
  | @dirtyTmp cee t args sig w _ hsig hargs hne hwords hw hle h =>
      rw [runWith_dirtyTmp] at hst
      obtain ⟨as, has, hst⟩ := exists_of_bind_ok hst
      unfold State.assignAs at hst
      rw [hw] at hst
      cases hst
      have hop : Operand gen (tmpValues s) (VexExpr.create gen (.Const (.U1 true))) (.int 1) (.bits 1) :=
        operand_const gen _ rfl
      refine hnext (goes_dirty hr hI hsig hargs hne hop has (fun u hu => ?_) rfl rfl ?_)
      · cases hu
        exact ⟨w, hw, hle⟩
      · rw [tmpValues_assign, dirtyTemps, tmpTy_of_width hw hle]
        rfl
  | @cas oldLo addr expd data w _ haa hea hda ha he hd hw h =>
      obtain ⟨p, hp, hst⟩ := exists_of_bind_ok hst
      obtain ⟨x, hx, hst⟩ := exists_of_bind_ok hst
      obtain ⟨d, hdv, hst⟩ := exists_of_bind_ok hst
      cases hst
      obtain ⟨k, rfl, hk, hk'⟩ := exists_bytes hw
      obtain ⟨y, rfl⟩ := exists_of_width (width_of_eval hr.typed he hx)
      obtain ⟨b, hb, hpw⟩ := exists_of_bind_ok hp
      cases IRWord.as_eq_ok hpw
      obtain ⟨c, hc, hdw⟩ := exists_of_bind_ok hdv
      cases IRWord.as_eq_ok hdw
      exact hnext (goes_cas hr hk hk' oldLo (operand_atom haa hb) (operand_atom hea hx)
        (operand_atom hda hc))
  | loadLinked ha hw h =>
      obtain ⟨w', hw', hst⟩ := exists_of_bind_ok hst
      cases hw.symm.trans (eq_some_of_orIllTyped hw')
      obtain ⟨p, hp, hst⟩ := exists_of_bind_ok hst
      cases hst
      exact hnext (goes_loadLinked hr hw (emits_of_evalAs hr ha hp))
  | storeCond ha hd hw h =>
      obtain ⟨p, hp, hst⟩ := exists_of_bind_ok hst
      obtain ⟨d, hdv, hst⟩ := exists_of_bind_ok hst
      cases hst
      exact hnext (goes_storeCond hr (emits_of_evalAs hr ha hp) (emits_of_eval hr hd hdv))
  | mbe =>
      cases hst
      exact hnext (goes_mbe hr.shows)

end Statements

end VexLLVM
