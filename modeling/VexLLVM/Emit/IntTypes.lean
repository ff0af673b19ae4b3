import VexLLVM.Vex.Typed
import VexLLVM.Emit.OpInt
import VexLLVM.Emit.SBDraft

/-!
# Which integer blocks are emitted

A well-typed expression comes out as an integer of its width, and a well-typed block is
emitted unless it reads a type that LLVM is not given one for, or leaves with a jump
kind that is not known.
-/

namespace VexLLVM

open LLVM LLVM.Code Vex

def OfWidths (Γ : Widths) (ρ : IRTemp → Option LLVM.Value) : Prop :=
  ∀ t, (ρ t).map LLVM.Value.ty = (Γ t).map Ty.int

def readable : IRExpr → Bool
  | .Get _ ty => (vexTy2LLVM ty).isSome
  | .GetI descr ix _ => readable ix && (vexTy2LLVM descr.elemTy).isSome
  | .Nary tag _ args => (List.finRange tag.arity).all fun i => readable (args i)
  | .Load _ ty addr => readable addr && (vexTy2LLVM ty).isSome
  | .ITE cond iftrue iffalse => readable cond && readable iftrue && readable iffalse
  | _ => true

/-- The expressions of the statement can be read, and its jump kind is one of a side
exit. -/
def emittable : IRStmt → Bool
  | .Put _ data | .WrTmp _ data => readable data
  | .PutI _ ix _ data => readable data && readable ix
  | .Store _ addr data => readable addr && readable data
  | .StoreG _ addr data guard => readable addr && readable data && readable guard
  | .LoadG _ _ _ addr alt guard => readable guard && readable addr && readable alt
  | .Exit guard _ jk => readable guard && (VexStmt.exitTypeOf jk).isSome
  | _ => true

def blockEmittable (sb : IRSB) : Bool :=
  sb.stmts.all emittable && (readable sb.next && (VexSB.jumpExit sb.jumpkind).isSome)

/-- The draft of an operation has the type in the table. -/
theorem OpEmit.ty_draft {helpers : Helpers} {e : OpEmit} (hg : e.good = true) {vs : List LLVM.Value}
    (hlen : vs.length = e.arity) :
    (e.draft helpers vs).ty = e.resTy helpers (vs.map LLVM.Value.ty) := by
  unfold OpEmit.draft
  cases hd : (e.build helpers vs).draft.toOption.filter LLVM.Value.isConst with
  | none => rfl
  | some v =>
      obtain ⟨hd, -⟩ := Option.filter_eq_some_iff.1 hd
      unfold Code.draft at hd
      cases hrun : (e.build helpers vs).run Builder.empty with
      | error err =>
          rw [hrun] at hd
          cases hd
      | ok r =>
          rw [hrun] at hd
          cases hd
          have hgives : Gives (fun _ => True) True (e.resTy helpers (vs.map LLVM.Value.ty)) _
              (e.build helpers vs) :=
            OpEmit.build_gives (fun _ _ => trivial) e hg hlen (fun _ _ => trivial) fun _ => trivial
          obtain ⟨⟨_, ⟨-, hty, -⟩, -⟩, -⟩ :=
            (hgives True).run hrun .empty ⟨fun _ _ => trivial, fun _ _ _ => trivial⟩
          exact (LLVM.Value.ty_blur _).trans hty

section Types

variable {gen : GenLLVM} {Γ Γ' : Widths} {ρ : IRTemp → Option LLVM.Value} {types : List IRType}
  {e : IRExpr} {w : ℕ}

theorem intUnop_resTy (helpers : Helpers) {o : IntUnop} (hf : intUnopFits o = true) :
    (intUnopEmit o).resTy helpers [.int o.arg] = .int o.res ∧
      (intUnopEmit o).fails helpers [.int o.arg] = false ∧ (intUnopEmit o).arity = 1 := by
  cases o with
  | not w => exact ⟨rfl, rfl, rfl⟩
  | widen signed w w' => exact ⟨rfl, rfl, rfl⟩
  | narrow w w' => exact ⟨rfl, rfl, rfl⟩
  | high w =>
      by_cases h64 : w = 64
      · subst h64
        exact ⟨rfl, rfl, rfl⟩
      · rw [intUnopEmit, if_neg h64]
        exact ⟨rfl, rfl, rfl⟩

theorem intBinop_resTy (helpers : Helpers) (o : IntBinop) :
    (intBinopEmit o).resTy helpers [.int o.lhs, .int o.rhs] = .int o.res ∧
      (intBinopEmit o).fails helpers [.int o.lhs, .int o.rhs] = false ∧
        (intBinopEmit o).arity = 2 := by
  cases o <;> exact ⟨rfl, rfl, rfl⟩

theorem bytes_int (w : ℕ) : (Ty.int w).bytes = w / 8 := by simp [Ty.bytes]

/-- The types that integers are kept in bytes as: all but the one of 128 bits have an
LLVM type. -/
theorem vexTy2LLVM_stored {ty : IRType} {t : Ty} (h : ty.stored? = some w)
    (ht : vexTy2LLVM ty = some t) :
    t = .int w ∧ t.bytes = w / 8 ∧ w = 8 * (w / 8) ∧ 0 < w / 8 ∧ w / 8 ≤ 8 := by
  cases ty <;> cases ht <;> cases h <;> decide

theorem ofFn_one {α : Type} {n : ℕ} {f : Fin n → α} (h : n = 1) :
    List.ofFn f = [f ⟨0, by omega⟩] := by
  subst h
  rfl

theorem ofFn_two {α : Type} {n : ℕ} {f : Fin n → α} (h : n = 2) :
    List.ofFn f = [f ⟨0, by omega⟩, f ⟨1, by omega⟩] := by
  subst h
  rfl

theorem tagop_intUnop {op : Iop} {o : IntUnop} (h : op.intUnop? = some o) : op.tagop = 1 := by
  have hall : ∀ op : Iop, op.intUnop?.isSome = true → op.tagop = 1 :=
    Iop.forall_of_ofNat (by decide +kernel)
  exact hall op (by rw [h]; rfl)

theorem tagop_intBinop {op : Iop} {o : IntBinop} (h : op.intBinop? = some o) : op.tagop = 2 := by
  have hall : ∀ op : Iop, op.intBinop?.isSome = true → op.tagop = 2 :=
    Iop.forall_of_ofNat (by decide +kernel)
  exact hall op (by rw [h]; rfl)

/-- A load of an integer type that has an LLVM type can be made. -/
theorem loadDraft_stored (gen : GenLLVM) {ty : IRType} {t : Ty} (h : ty.stored? = some w)
    (ht : vexTy2LLVM ty = some t) (a : LLVM.Value) :
    gen.loadFails a t = false ∧ (gen.loadDraft a t).ty = .int w := by
  obtain ⟨rfl, -, hw, hpos, hle⟩ := vexTy2LLVM_stored h ht
  have hf : gen.loadFails a (.int w) = false := by
    have hbits : decide (0 < (Ty.int w).bits ∧ (Ty.int w).bits ≤ 64) = true :=
      decide_eq_true ⟨by rw [Ty.bits_int]; omega, by rw [Ty.bits_int]; omega⟩
    rw [GenLLVM.loadFails, hbits]
    exact Bool.and_false _
  exact ⟨hf, VexStmt.loadDraft_ty hf (.inl rfl)⟩

/-- An operation fails where an operand does, if it does not on the types of operands
that are emitted, and the value has the type in the table. -/
theorem nary_fails (op : Iop) {args : Fin op.tagop → VexExpr} {t : Ty}
    (harity : (opEmit gen.fp op).arity = op.tagop) {b : Bool}
    (ha : ((List.ofFn fun i => (args i).fails gen ρ).any id) = !b)
    (hf : b = true → (opEmit gen.fp op).fails gen.helpers (VexExpr.llvmTys gen ρ args) = false ∧
      (opEmit gen.fp op).resTy gen.helpers (VexExpr.llvmTys gen ρ args) = t) :
    (VexExpr.nary op args).fails gen ρ = !b ∧
      (b = true → (VexExpr.nary op args).llvmTy gen ρ = t) := by
  rw [List.ofFn_eq_map, List.any_map] at ha
  rw [VexExpr.fails, show ((List.finRange op.tagop).any fun i => (args i).fails gen ρ) = !b from ha]
  refine ⟨?_, fun hb => ?_⟩
  · cases b with
    | false => rfl
    | true => exact (hf rfl).1
  · rw [VexExpr.llvmTy, VexExpr.draft,
      OpEmit.ty_draft (opEmit_good gen.fp op) (by rw [List.length_ofFn, harity]), List.map_ofFn]
    exact (hf hb).2

/-- A well-typed expression is emitted unless it cannot be read, and comes out as an
integer of its width. -/
theorem fails_of_hasWidth (hρ : OfWidths Γ ρ) (h : HasWidth Γ e w) :
    (VexExpr.create gen e).fails gen ρ = !readable e ∧
      (readable e = true → (VexExpr.create gen e).llvmTy gen ρ = .int w) := by
  induction h with
  | @get offset ty w hty hp =>
      rw [VexExpr.create, VexExpr.fails, readable, VexExpr.llvmTy, VexExpr.draft]
      cases ht : vexTy2LLVM ty with
      | none => exact ⟨rfl, fun h => by cases h⟩
      | some t =>
          obtain ⟨rfl, hbytes, -, hpos, -⟩ := vexTy2LLVM_stored hty ht
          exact ⟨beq_eq_false_iff_ne.2 (hbytes ▸ hpos.ne'), fun _ => rfl⟩
  | @getI descr ix w bias hix hty hd ih =>
      rw [VexExpr.create, VexExpr.fails, readable, VexExpr.llvmTy, VexExpr.draft, ih.1]
      cases ht : vexTy2LLVM descr.elemTy with
      | none => simp
      | some t =>
          obtain ⟨rfl, hbytes, -, hpos, -⟩ := vexTy2LLVM_stored hty ht
          obtain ⟨-, hdvd, -⟩ := of_decide_eq_true hd
          have hbase : descr.base % (w / 8) = 0 := Nat.mod_eq_zero_of_dvd hdvd
          have hne : (w / 8 == 0) = false := beq_eq_false_iff_ne.2 hpos.ne'
          rw [Option.all_some, hbytes, hbase, hne]
          simp
  | @rdTmp tmp w h =>
      have htmp := hρ tmp
      rw [h] at htmp
      obtain ⟨v, hv, hty⟩ := Option.map_eq_some_iff.1 htmp
      rw [VexExpr.create, VexExpr.fails, VexExpr.llvmTy, VexExpr.draft, hv]
      exact ⟨rfl, fun _ => hty⟩
  | @unop op o args ho _ ih =>
      obtain ⟨hop, hf⟩ := opEmit_intUnop gen.fp ho
      obtain ⟨hres, hfails, harity⟩ := intUnop_resTy gen.helpers hf
      have htag := tagop_intUnop ho
      have hread : readable (.Nary .Unop (.iop op) args) = readable (args ⟨0, by decide⟩) := by
        rw [readable]
        exact Bool.and_true _
      rw [VexExpr.create, hread]
      refine nary_fails op (by rw [hop, htag, harity]) ?_ fun hb => ?_
      · rw [ofFn_one htag, ← ih.1]
        exact Bool.or_false _
      · rw [hop, VexExpr.llvmTys, ofFn_one htag, ← hres, ← hfails, ← ih.2 hb]
        exact ⟨rfl, rfl⟩
  | @binop op o args ho _ _ iha ihb =>
      have hop := (opEmit_intBinop gen.fp ho).1
      obtain ⟨hres, hfails, harity⟩ := intBinop_resTy gen.helpers o
      have htag := tagop_intBinop ho
      have hread : readable (.Nary .Binop (.iop op) args) =
          (readable (args ⟨0, by decide⟩) && readable (args ⟨1, by decide⟩)) := by
        rw [readable]
        exact congrArg _ (Bool.and_true _)
      rw [VexExpr.create, hread]
      refine nary_fails op (by rw [hop, htag, harity]) ?_ fun hb => ?_
      · rw [ofFn_two htag, Bool.not_and, ← iha.1, ← ihb.1]
        exact congrArg _ (Bool.or_false _)
      · obtain ⟨ha, hb⟩ := Bool.and_eq_true_iff.1 hb
        rw [hop, VexExpr.llvmTys, ofFn_two htag, ← hres, ← hfails, ← iha.2 ha, ← ihb.2 hb]
        exact ⟨rfl, rfl⟩
  | @load ty addr w _ hty ih =>
      rw [VexExpr.create, VexExpr.fails, readable, VexExpr.llvmTy, VexExpr.draft, ih.1]
      cases ht : vexTy2LLVM ty with
      | none => simp
      | some t =>
          obtain ⟨hf, hdraft⟩ := loadDraft_stored gen hty ht ((VexExpr.create gen addr).draft gen ρ)
          rw [Option.all_some, hf, Option.getD_some, hdraft]
          simp
  | @const con a h =>
      cases con <;> cases h <;> exact ⟨rfl, fun _ => rfl⟩
  | @ite cond iftrue iffalse w _ _ _ ihc iha ihb =>
      rw [VexExpr.create, VexExpr.fails, readable, VexExpr.llvmTy, VexExpr.draft, ihc.1,
        iha.1, ihb.1]
      refine ⟨by simp, fun h => ?_⟩
      rw [Bool.and_eq_true] at h
      have hty := ihb.2 h.2
      rw [VexExpr.llvmTy] at hty
      rw [hty]
      rfl

/-! ## Statements and blocks -/

/-- The object of a well-typed expression is not null. -/
theorem create_ne_null (h : HasWidth Γ e w) : VexExpr.create gen e ≠ .null := by
  cases h with
  | @const con a h => cases con <;> cases h <;> exact fun h => by cases h
  | _ => exact fun h => by cases h

theorem create_put (h : HasWidth Γ e w) (offset : ℕ) :
    VexStmt.create gen (.Put offset e) = .put offset (.create gen e) := by
  rw [VexStmt.create]
  split
  · next hn => exact absurd hn (create_ne_null h)
  · rfl

theorem create_putI {ix : IRExpr} {w' : ℕ} (hi : HasWidth Γ ix w') (hd : HasWidth Γ e w)
    (descr : IRRegArray) (bias : ℤ) :
    VexStmt.create gen (.PutI descr ix bias e) =
      .putI descr.base descr.nElems (.create gen ix) bias (.create gen e) := by
  rw [VexStmt.create]
  split
  · next hn => exact absurd hn (create_ne_null hi)
  · next hn _ => exact absurd hn (create_ne_null hd)
  · rfl

theorem OfWidths.isSome_eq_false (hρ : OfWidths Γ ρ) {tmp : IRTemp}
    (h : Γ.assign types tmp w = some Γ') :
    (ρ tmp).isSome = false := by
  unfold Widths.assign at h
  split at h
  · next hnew =>
      have htmp := hρ tmp
      rw [hnew.1] at htmp
      rw [Option.map_eq_none_iff.1 htmp]
      rfl
  · cases h

theorem OfWidths.assign (hρ : OfWidths Γ ρ) {tmp : IRTemp} (h : Γ.assign types tmp w = some Γ')
    {v : LLVM.Value} (hv : v.ty = .int w) : OfWidths Γ' (Function.update ρ tmp (some v)) := by
  unfold Widths.assign at h
  split at h
  · cases h
    intro t
    simp only [Function.update_apply]
    split
    · exact congrArg some hv
    · exact hρ t
  · cases h

/-- A guarded load of an integer is one of a type that it widens to 32 bits. -/
theorem loadGTy_shape {cvt : IRLoadGOp} {p : ℕ × Bool} (h : cvt.shape? = some p) (a : LLVM.Value) :
    ((VexStmt.loadGTy cvt).all fun p => gen.loadFails a p.1) = false ∧
      VexStmt.loadGResTy cvt = .int 32 := by
  cases cvt <;> cases h <;> exact ⟨Bool.and_false _, rfl⟩

/-- A well-typed statement is emitted unless it cannot be, and what is recorded after it
has the widths. -/
theorem fails_of_checks (hρ : OfWidths Γ ρ) {stmt : IRStmt} (h : Checks types Γ stmt Γ') :
    (VexStmt.create gen stmt).fails gen types ρ = !emittable stmt ∧
      (emittable stmt = true → OfWidths Γ' ((VexStmt.create gen stmt).after gen types ρ)) := by
  have hexpr : ∀ {e : IRExpr} {w : ℕ}, HasWidth Γ e w → (VexExpr.create gen e).fails gen ρ =
    !readable e :=
    fun h => (fails_of_hasWidth hρ h).1
  cases h with
  | noOp | imark | abiHint => exact ⟨rfl, fun _ => hρ⟩
  | @put offset data w hd hw hp =>
      rw [create_put hd, VexStmt.fails, emittable, hexpr hd]
      refine ⟨?_, fun _ => hρ⟩
      cases hr : readable data with
      | false => rfl
      | true =>
          rw [(fails_of_hasWidth hρ hd).2 hr, bytes_int]
          exact beq_eq_false_iff_ne.2 (by omega)
  | @putI descr ix data w bias hi hd hty hf =>
      rw [create_putI hi hd, VexStmt.fails, emittable, hexpr hd, hexpr hi]
      refine ⟨?_, fun _ => hρ⟩
      cases hr : readable data with
      | false => rfl
      | true =>
          obtain ⟨-, hdvd, -⟩ := of_decide_eq_true hf
          have hw : (w / 8 == 0) = false := by
            have hw := of_decide_eq_true (Option.filter_eq_some_iff.1 hty).2
            exact beq_eq_false_iff_ne.2 (by omega)
          rw [(fails_of_hasWidth hρ hd).2 hr, bytes_int, Nat.mod_eq_zero_of_dvd hdvd, hw]
          exact Bool.or_false _
  | @wrTmp tmp data w _ hd h =>
      rw [VexStmt.create, VexStmt.fails, hexpr hd, hρ.isSome_eq_false h]
      exact ⟨Bool.or_false _, fun hr => hρ.assign h ((fails_of_hasWidth hρ hd).2 hr)⟩
  | @store addr data w ha hd hw =>
      rw [VexStmt.create, VexStmt.fails, emittable, hexpr ha, hexpr hd, Bool.not_and]
      exact ⟨rfl, fun _ => hρ⟩
  | @storeG addr data guard w hg ha hd hw =>
      rw [VexStmt.create, VexStmt.fails, emittable, hexpr ha, hexpr hd, hexpr hg, Bool.not_and,
        Bool.not_and]
      exact ⟨rfl, fun _ => hρ⟩
  | @loadG cvt p dst addr alt guard _ hp hg ha halt h =>
      obtain ⟨hload, hty⟩ := loadGTy_shape hp ((VexExpr.create gen addr).draft gen ρ)
      rw [VexStmt.create, VexStmt.fails, emittable, hexpr ha, hexpr halt, hexpr hg, hload,
        hρ.isSome_eq_false h]
      exact ⟨by simp, fun _ => hρ.assign h hty⟩
  | @exit guard dst jk hg =>
      rw [VexStmt.create, emittable]
      cases VexStmt.exitTypeOf jk with
      | none => exact ⟨(congrArg not (Bool.and_false _)).symm, fun _ => hρ⟩
      | some t => exact ⟨(hexpr hg).trans (congrArg not (Bool.and_true _)).symm, fun _ => hρ⟩

end Types

end VexLLVM
