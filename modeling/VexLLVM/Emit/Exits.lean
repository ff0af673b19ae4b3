import VexLLVM.Emit.ExitType
import VexLLVM.Emit.Dirty

/-!
# Exits

The exits of a superblock: its side exits, and the jump at its end. A run of the
emitted function leaves through one of them, known by the block it returns from, and
the exit type is the one that belongs to it.
-/

namespace LLVM

def Ty.isInt : Ty → Bool
  | .int _ => true
  | _ => false

theorem Ty.exists_of_isInt {t : Ty} (h : t.isInt = true) : ∃ w, t = .int w := by
  cases t with
  | scalar s =>
      cases s with
      | int w => exact ⟨w, rfl⟩
      | _ => cases h
  | _ => cases h

end LLVM

namespace VexLLVM

open LLVM LLVM.Code Vex StateExcept VexStmt

/-- The context is written below the exit type, and guest memory at addresses that are
numbers. -/
def VexStmt.within (gen : GenLLVM) (ρ : IRTemp → Option Value) : VexStmt → Bool
  | put offset data => decide (offset + (data.llvmTy gen ρ).bytes ≤ gen.exitTypeOffset)
  | putI base len _ _ data =>
      decide (0 < len ∧ base + len * (data.llvmTy gen ρ).bytes ≤ gen.exitTypeOffset)
  | store addr _ => (addr.llvmTy gen ρ).isInt
  | storeG addr _ _ => (addr.llvmTy gen ρ).isInt
  | llsc _ addr _ => (addr.llvmTy gen ρ).isInt
  | cas _ _ addr _ _ _ _ => (addr.llvmTy gen ρ).isInt
  | _ => true

def VexSB.stmtsWithin (gen : GenLLVM) (types : List IRType) : (IRTemp → Option Value) → List VexStmt → Bool
  | _, [] => true
  | ρ, s :: ss => s.within gen ρ && stmtsWithin gen types (s.after gen types ρ) ss

def VexSB.within (gen : GenLLVM) (sb : VexSB) : Bool := stmtsWithin gen sb.types noValues sb.stmts

def Tabled (ρ : IRTemp → Option Value) (σ : GenState) : Prop := σ.OK ∧ σ.table = ρ

section Statements

variable {ext : Extern} {total : Bool} {R : Frame → RVal → Prop} {ρ ρ' : IRTemp → Option Value}
  {gen : GenLLVM} {types : List IRType} {b : LLVM.Byte} {P : Assertion} {α : Type}

/-- What is known of an emission beforehand. -/
theorem Runs.tabled {m : EmitM α} {Q : α → Assertion} {all : Bool} {F p : Prop} {out : α → Prop}
    (he : Emission all ρ m F out ρ' p) (h : Runs total ext P m Q R) :
    Runs total ext (fun σ fr => Tabled ρ σ ∧ P σ fr) m
      (fun a σ fr => out a ∧ Tabled ρ' σ ∧ Q a σ fr) R := by
  intro σ a σ' G fr hm hok hG hl hat hp
  obtain ⟨-, ho, hlays⟩ := (he σ hp.1.1 hp.1.2 σ rfl).1 a σ' hm
  refine (h σ a σ' G fr hm hok hG hl hat hp.2).imp_left ?_
  rintro ⟨fr', hr, hat', hk, hq⟩
  exact ⟨fr', hr, hat', hk, ho, ⟨hlays.ok, hlays.table⟩, hq⟩

theorem opens_tabled (ρ : IRTemp → Option Value) : Opens fun σ _ => Tabled ρ σ where
  newBlock _ _ hok hp := ⟨⟨hok, hp.1.casts⟩, hp.2⟩
  enter _ _ _ _ _ hok hp := ⟨⟨hok, hp.1.casts⟩, hp.2⟩

theorem opens_marked (gen : GenLLVM) (b : LLVM.Byte) : Opens (Marked gen b) :=
  (lasting_marked gen b).opens

/-- An expression, and the LLVM type it comes out as. -/
theorem runs_expr_ty (hext : gen.Spares ext) (e : VexExpr) :
    Runs false ext (fun σ fr => Tabled ρ σ ∧ Marked gen b σ fr) (e.emit gen) (fun v σ fr =>
      v.ty = e.llvmTy gen ρ ∧ Tabled ρ σ ∧ Marked gen b σ fr) R :=
  (Runs.tabled (@VexExpr.emission_expr _ _ false e) (runs_expr_marked hext e)).post
    fun v _ _ h => ⟨by rw [VexExpr.llvmTy, ← h.1, Value.ty_blur], h.2⟩

theorem runs_setRegValue_marked (t : IRTemp) (v : Value) :
    Runs total ext (Marked gen b) (setRegValue t v) (fun _ => Marked gen b) R :=
  runs_setRegValue t v (lasting_marked gen b) fun _ _ _ h => h

/-- A block that leaves the exit type alone. -/
theorem runs_ifThen_marked {cond : EmitM Value} {body : EmitM Unit} [Builds cond] [Builds body]
    (hP : Opens P) (hc : Runs false ext P cond (fun _ => P) R)
    (hm : ∀ σ fr, P σ fr → Marked gen b σ fr)
    (hb : Runs false ext P body (fun _ => Marked gen b) R) :
    Runs false ext P (ifThen cond body) (fun _ => Marked gen b) R :=
  runs_ifThen hP hP (lasting_marked gen b) hc (fun h => by cases h) (fun _ _ _ _ h _ _ => h)
    (fun _ σ fr h _ => hm σ fr h) hb

/-- A store at an expression's address. -/
theorem runs_storeAt (hext : gen.Spares ext) {addr : VexExpr}
    (hw : (addr.llvmTy gen ρ).isInt = true) (data : VexExpr) :
    Runs false ext (fun σ fr => Tabled ρ σ ∧ Marked gen b σ fr)
      (do
        let a ← addr.emit gen
        let d ← data.emit gen
        gen.store a d) (fun _ => Marked gen b) R := by
  obtain ⟨w, hw⟩ := Ty.exists_of_isInt hw
  refine (runs_expr_ty hext addr).bind fun a => runs_of_and fun ha => ?_
  refine ((runs_expr_marked hext data).pre fun _ _ h => h.2).bind fun d => ?_
  exact runs_store_marked hext (ha.trans hw) d

theorem runs_emitCASSwap_marked (hext : gen.Spares ext) (oldHi : Option IRTemp) (oldLo : IRTemp)
    (new : VexExpr) {a : Value} (e l : Value) {hi : Option (Value × Value × Value)} {w : ℕ}
    (ha : a.ty = .int w) (hhi : ∀ q ∈ hi, q.2.1.ty = .int w) :
    Runs false ext (Marked gen b) (emitCASSwap gen oldHi oldLo new a e l hi)
      (fun _ => Marked gen b) R := by
  have hopens := opens_marked gen b
  have hset := fun t v => @runs_setRegValue_marked ext false R gen b t v
  have hstore : ∀ {a : Value}, a.ty = .int w → Runs false ext (Marked gen b)
      (do let n ← new.emit gen; gen.store a n) (fun _ => Marked gen b) R := fun ha =>
    (runs_expr_marked hext new).bind fun n => runs_store_marked hext ha n
  cases hi with
  | none =>
      have hif := runs_ifThen_marked hopens (runs_quiet hext (do
        let cmp ← createICmp .eq e l
        pure cmp)) (fun _ _ => id) ((runs_expr_marked hext new).bind fun n =>
          (runs_store_marked hext ha n).bind fun _ => runs_done (R := R))
      exact hif.bind fun _ => (hset oldLo l).bind fun _ => runs_done
  | some q =>
      have hif := runs_ifThen_marked hopens (runs_quiet hext (do
        let cmp ← createICmp .eq e l
        let c ← createICmp .eq q.1 q.2.2
        createICmp .eq cmp c)) (fun _ _ => id) ((runs_expr_marked hext new).bind fun n =>
          (runs_store_marked hext ha n).bind fun _ => hstore (hhi q rfl))
      cases oldHi with
      | none => exact hif.bind fun _ => (hset oldLo l).bind fun _ => runs_throw _
      | some t => exact hif.bind fun _ => (hset oldLo l).bind fun _ => hset t q.2.2

theorem runs_emitCAS_marked (hext : gen.Spares ext) (oldHi : Option IRTemp) (oldLo : IRTemp)
    {addr : VexExpr} (hw : (addr.llvmTy gen ρ).isInt = true) (expectedHi : Option VexExpr)
    (expected new : VexExpr) :
    Runs false ext (fun σ fr => Tabled ρ σ ∧ Marked gen b σ fr)
      (emitCAS gen oldHi oldLo addr expectedHi expected new) (fun _ => Marked gen b) R := by
  obtain ⟨w, hw⟩ := Ty.exists_of_isInt hw
  have hload : ∀ (f : Value → Value → Value → EmitM Unit) [∀ a e l, Builds (f a e l)],
      (∀ a e l, a.ty = .int w → Runs false ext (Marked gen b) (f a e l) (fun _ => Marked gen b) R) →
        Runs false ext (fun σ fr => Tabled ρ σ ∧ Marked gen b σ fr) (do
          let a ← addr.emit gen
          let e ← expected.emit gen
          let l ← gen.load a e.ty
          f a e l) (fun _ => Marked gen b) R := fun f _ hf => by
    refine (runs_expr_ty hext addr).bind fun a => runs_of_and fun ha => ?_
    refine ((runs_expr_marked hext expected).pre fun _ _ h => h.2).bind fun e => ?_
    exact (runs_load_marked hext a e.ty).bind fun l => hf a e l (ha.trans hw)
  cases expectedHi with
  | none =>
      rw [emitCAS_none]
      exact hload _ fun a e l ha => runs_emitCASSwap_marked hext _ _ new e l ha
        fun _ h => by cases h
  | some eh =>
      rw [emitCAS_some]
      refine hload _ fun a e l ha => ?_
      have hhi : Runs false ext (Marked gen b) (emitCASHi gen a e.ty eh)
          (fun q σ fr => q.2.1.ty = .int w ∧ Marked gen b σ fr) R := by
        unfold emitCASHi
        refine (runs_expr_marked hext eh).bind fun e' => ?_
        refine (runs_create_typed (runs_create_quiet hext rfl)).bind fun ah =>
          runs_of_and fun hah => ?_
        refine (runs_load_marked hext ah e.ty).bind fun l => ?_
        exact (runs_pure (e', ah, l)).pre fun σ fr h => ⟨hah.trans ha, h⟩
      refine hhi.bind fun q => runs_of_and fun hq => ?_
      exact runs_emitCASSwap_marked hext _ _ new e l ha fun _ h => by
        cases h
        exact hq

theorem runs_args_marked (hext : gen.Spares ext) (args : List VexExpr) :
    Runs false ext (Marked gen b) (emitAll (args.map fun e => e.emit gen))
      (fun _ => Marked gen b) R :=
  runs_emitAll (fun m hm => by
    obtain ⟨e, -, rfl⟩ := List.mem_map.1 hm
    infer_instance) fun m hm => by
    obtain ⟨e, -, rfl⟩ := List.mem_map.1 hm
    exact runs_expr_marked hext e

instance quiet_castResult (call : Value) (ret tmp : Ty) : Quiet (castResult call ret tmp) := by
  unfold castResult
  infer_instance

theorem runs_emitDirtyCall_marked (hext : gen.Spares ext) (f : String) (sig : FnTy)
    (tmp : Option IRTemp) (args : List VexExpr) :
    Runs false ext (Marked gen b) (emitDirtyCall gen types f sig tmp args)
      (fun _ => Marked gen b) R := by
  have hb : Builds (emitAll (args.map fun e => e.emit gen)) := builds_emitAll fun m hm => by
    obtain ⟨e, -, rfl⟩ := List.mem_map.1 hm
    infer_instance
  rw [emitDirtyCall_eq]
  refine (runs_args_marked hext args).bind fun vs => ?_
  unfold callArgs
  split
  · refine (runs_quiet hext _).bind fun v => (runs_quiet hext _).bind fun call => ?_
    cases tmp with
    | none => exact runs_done
    | some t =>
        exact runs_llvmTy_bind fun ty _ => (runs_quiet hext _).bind fun r =>
          runs_setRegValue_marked t r
  · exact runs_throw _

theorem runs_loadG_of (hext : gen.Spares ext) (dst : IRTemp) (addr alt guard : VexExpr)
    {first : Value → EmitM Value} [∀ a, Builds (first a)]
    (hfirst : ∀ a, Runs false ext (Marked gen b) (first a) (fun _ => Marked gen b) R) :
    Runs false ext (Marked gen b) (do
        let g ← guard.emit gen
        let a ← addr.emit gen
        let altV ← alt.emit gen
        let ((c, bbThen), (_, bbAlt)) ← ifThenElse false (pure g) (first a) (pure altV)
        let pn ← code (LLVM.Code.create (.phi c.ty [(c, bbThen), (altV, bbAlt)]))
        setRegValue dst pn) (fun _ => Marked gen b) R := by
  have hm := lasting_marked gen b
  refine (runs_expr_marked hext guard).bind fun g => (runs_expr_marked hext addr).bind
    fun a => (runs_expr_marked hext alt).bind fun altV => ?_
  refine Runs.bind (runs_ifThenElse (b := false) hm hm hm hm (fun _ => hm) (fun _ => hm)
    (runs_pure (Q := fun _ => Marked gen b) g) (fun h => by cases h) (fun _ _ _ _ h _ _ => h)
    (fun _ _ _ h _ => h) (fun _ _ _ h => h) (hfirst a) (runs_pure (Q := fun _ => Marked gen b) altV)
    (hands_true _ _) (hands_true _ _)) fun r => ?_
  refine Runs.bind ((runs_quiet hext _).pre fun σ fr h => ?_) fun pn =>
    runs_setRegValue_marked dst pn
  exact h.2.elim And.right And.right

/-- No statement but an exit touches the exit type. -/
theorem runs_stmt_marked (hext : gen.Spares ext) (hoff : gen.exitTypeOffset < 2 ^ 31) {s : VexStmt}
    (hw : s.within gen ρ = true) (hs : ∀ guard jk t dst, s ≠ .exit guard jk t dst) :
    Runs false ext (fun σ fr => Tabled ρ σ ∧ Marked gen b σ fr) (s.emit gen types)
      (fun _ => Marked gen b) R := by
  have hdrop : ∀ {m : EmitM Unit}, Runs false ext (Marked gen b) m (fun _ => Marked gen b) R →
      Runs false ext (fun σ fr => Tabled ρ σ ∧ Marked gen b σ fr) m (fun _ => Marked gen b) R :=
    fun h => h.pre fun _ _ h => h.2
  have hopens := (opens_tabled ρ).and (opens_marked gen b)
  cases s with
  | abort e => exact runs_throw _
  | noOp | imark guestAddr guestOpLen | abiHint => exact hdrop runs_done
  | put offset data =>
      refine (runs_expr_ty hext data).bind fun v => runs_of_and fun hv => ?_
      have hle := of_decide_eq_true hw
      rw [← hv] at hle
      exact hdrop (runs_writeCtx_marked hoff hle)
  | putI base len ix bias data =>
      refine (runs_expr_ty hext data).bind fun v => runs_of_and fun hv => ?_
      obtain ⟨hlen, hle⟩ := of_decide_eq_true hw
      rw [← hv] at hle
      exact hdrop ((runs_expr_marked hext ix).bind fun i =>
        runs_writeCtxI_marked hoff bias i hlen hle)
  | wrTmp tmp data =>
      exact hdrop ((runs_expr_marked hext data).bind fun v => runs_setRegValue_marked tmp v)
  | store addr data =>
      obtain ⟨w, hw⟩ := Ty.exists_of_isInt hw
      refine (Runs.tabled (@VexExpr.emission_expr _ _ false data) (runs_expr_marked hext data)).bind
        fun d => runs_of_and fun _ => ?_
      refine (runs_expr_ty hext addr).bind fun a => runs_of_and fun ha => ?_
      exact hdrop (runs_store_marked hext (ha.trans hw) d)
  | llsc result addr data =>
      cases data with
      | none =>
          refine hdrop ((runs_expr_marked hext addr).bind fun a => runs_llvmTy_bind fun t _ => ?_)
          exact (runs_load_marked hext a t).bind fun v => runs_setRegValue_marked result v
      | some data =>
          refine Runs.bind (runs_ifThen_marked hopens ((runs_pure getLinked).pre fun _ _ h => h)
            (fun _ _ h => h.2) (runs_storeAt hext hw data)) fun _ => ?_
          exact runs_setRegValue_marked result getLinked
  | cas oldHi oldLo addr expectedHi expected new newHi =>
      exact runs_emitCAS_marked hext oldHi oldLo hw expectedHi expected new
  | dirty f sig guard tmp args =>
      have hcall := @runs_emitDirtyCall_marked ext R gen types b hext f sig tmp args
      refine hdrop ((runs_expr_marked hext guard).bind fun c => ?_)
      split
      · exact hcall
      · exact runs_ifThen_marked (opens_marked gen b) (runs_pure (Q := fun _ => Marked gen b) c)
          (fun _ _ h => h) hcall
  | mbe => exact hdrop ((runs_quiet hext _).bind fun _ => runs_done)
  | exit guard jk exitType dst => exact absurd rfl (hs guard jk exitType dst)
  | storeG addr data guard =>
      refine (Runs.tabled (@VexExpr.emission_expr _ _ false guard)
        (runs_expr_marked hext guard)).bind
        fun g => runs_of_and fun _ => ?_
      exact runs_ifThen_marked hopens ((runs_pure g).pre fun _ _ h => h) (fun _ _ h => h.2)
        (runs_storeAt hext hw data)
  | loadG cvt dst addr alt guard =>
      refine hdrop ?_
      change Runs false ext (Marked gen b) (emitLoadG gen cvt dst addr alt guard) _ R
      unfold emitLoadG
      split
      · exact runs_loadG_of hext dst addr alt guard fun _ => runs_throw _
      · exact runs_loadG_of hext dst addr alt guard fun a => runs_load_marked hext a _
      · exact runs_loadG_of hext dst addr alt guard fun a =>
          (runs_load_marked hext a _).bind fun v => runs_quiet hext _

end Statements

/-! ## The exits -/

/-- An exit: the block of the function it returns from, its jump kind, and where a side
exit goes. -/
structure SBExit where
  blk : ℕ
  kind : IRJumpKind
  dst : Option (BitVec 64)

def SBExit.type (x : SBExit) : Option GuestExitType :=
  if x.dst.isSome then exitTypeOf x.kind else (VexSB.jumpExit x.kind).map fun t => t.getD .IGNORE

def VexStmt.exits (σ : GenState) : VexStmt → List SBExit
  | exit _ jk _ dst => [⟨σ.func.nblocks, jk, some dst⟩]
  | _ => []

def VexSB.sideExits (gen : GenLLVM) (types : List IRType) : List VexStmt → GenState → List SBExit
  | [], _ => []
  | s :: ss, σ => s.exits σ ++
      match s.emit gen types σ with
      | .ok (_, σ') => sideExits gen types ss σ'
      | .error _ => []

def VexSB.exits (gen : GenLLVM) (sb : VexSB) : List SBExit :=
  match sb.emitM gen GenLLVM.beginBB with
  | .ok (_, σ) =>
      sideExits gen sb.types sb.stmts GenLLVM.beginBB ++ [⟨σ.insertBlock, sb.jumpKind, none⟩]
  | .error _ => []

def VexSB.exitAt (gen : GenLLVM) (sb : VexSB) (k : ℕ) : Option SBExit :=
  (sb.exits gen).find? fun x => x.blk == k

def Took (gen : GenLLVM) (xs : List SBExit) (fr : Frame) (v : RVal) : Prop :=
  ∃ x ∈ xs, x.blk = fr.blk ∧ (∃ t, x.type = some t ∧ gen.exitByte fr.m = BitVec.ofNat 8 t.code) ∧
    ∀ d ∈ x.dst, v = .bits d.toNat

def VexStmt.ExitKnown : VexStmt → Prop
  | exit _ jk t _ => exitTypeOf jk = some t
  | _ => True

theorem VexStmt.exitKnown_create (gen : GenLLVM) (s : IRStmt) :
    (VexStmt.create gen s).ExitKnown := by
  cases s with
  | Exit guard dst jk =>
      rw [create]
      split
      · trivial
      · next t ht => exact ht
  | Put offset data =>
      rw [create]
      split <;> trivial
  | PutI descr ix bias data =>
      rw [create]
      split <;> trivial
  | Dirty cee guard tmp args =>
      rw [create]
      split <;> trivial
  | StoreG e addr data guard => cases e <;> trivial
  | LoadG e cvt dst addr alt guard => cases e <;> trivial
  | CAS oldHi oldLo addr expdHi expdLo dataHi dataLo => cases expdHi <;> cases dataHi <;> trivial
  | _ => trivial

/-! ## Code in one block -/

class Straight {α : Type} (m : EmitM α) : Prop where
  insertBlock : ∀ {σ σ' : GenState} {a : α}, m σ = .ok (a, σ') → σ'.insertBlock = σ.insertBlock

section Straight

variable {α β : Type} {m m' : EmitM α} {f : α → EmitM β}

instance straight_pure (a : α) : Straight (pure a) := ⟨fun h => by cases h; rfl⟩

instance straight_throw (e : EmitError) : Straight (throw e : EmitM α) := ⟨fun h => by cases h⟩

instance straight_bind [Straight m] [∀ a, Straight (f a)] : Straight (m >>= f) where
  insertBlock h := by
    obtain ⟨a, σ₁, h₁, h₂⟩ := bind_eq_ok h
    exact (Straight.insertBlock h₂).trans (Straight.insertBlock h₁)

instance straight_ite {c : Prop} [Decidable c] [Straight m] [Straight m'] :
    Straight (if c then m else m') := by
  split <;> infer_instance

instance straight_get : Straight (get : EmitM GenState) := ⟨fun h => by cases h; rfl⟩

theorem straight_modify {g : GenState → GenState} (hg : ∀ σ, (g σ).insertBlock = σ.insertBlock) :
    Straight (modify g : EmitM PUnit) :=
  ⟨fun {σ _ _} h => by cases h; exact hg σ⟩

instance straight_code (c : Code EmitError α) : Straight (code c) where
  insertBlock {σ σ' a} h := by
    obtain ⟨b, hrun, rfl⟩ := code_eq_ok h
    exact run_insertBlock hrun

instance straight_getCtxPtr (gen : GenLLVM) (t : Ty) : Straight (gen.getCtxPtr t) := by
  unfold GenLLVM.getCtxPtr
  refine @straight_bind _ _ _ _ straight_get fun σ => @straight_ite _ _ _ _ _ (straight_code _) ?_
  split
  · exact straight_pure _
  · have := fun p => straight_modify (g := fun σ : GenState =>
      { σ with ctxcastMap := Function.update σ.ctxcastMap t (some p) }) fun _ => rfl
    infer_instance

instance straight_getCtxByteGEP (gen : GenLLVM) (off : ℕ) (t : Ty) :
    Straight (gen.getCtxByteGEP off t) := by
  have hgep : ∀ v : Value, Straight (gen.getCtxTyGEP v t) := fun v => by
    unfold GenLLVM.getCtxTyGEP
    infer_instance
  unfold GenLLVM.getCtxByteGEP
  refine @straight_ite _ _ _ _ _ (straight_throw _) (@straight_bind _ _ _ _ straight_get fun σ => ?_)
  split
  · infer_instance
  · have := fun p => straight_modify (g := fun σ : GenState =>
      { σ with gepbyteMap := Function.update σ.gepbyteMap (off, t.bytes) (some p) }) fun _ => rfl
    infer_instance

instance straight_setExitType (gen : GenLLVM) (c : ℕ) : Straight (gen.setExitType c) := by
  unfold GenLLVM.setExitType GenLLVM.writeCtx
  infer_instance

end Straight

section Exits

variable {ext : Extern} {total : Bool} {R : Frame → RVal → Prop} {ρ : IRTemp → Option Value}
  {gen : GenLLVM} {types : List IRType} {P : Assertion} {α : Type} {xs ys : List SBExit} {fr : Frame}
  {v : RVal}

theorem Took.mono (h : Took gen xs fr v) (hs : xs ⊆ ys) : Took gen ys fr v :=
  let ⟨x, hx, h⟩ := h
  ⟨x, hs hx, h⟩

/-- A side exit: the code goes on where the guard is zero, and else returns from the
block it has made for that. -/
theorem runs_emitExit {P₁ Q₀ Q₁ : Assertion} {Qc : Value → Assertion} {guard : VexExpr}
    {jk : IRJumpKind} {t : GuestExitType} {dst : BitVec 64} {s : GenState} (hP : Opens P)
    (hP₁ : Opens P₁) (hQ : Lasting Q₀) (hc : Runs total ext P (guard.emit gen) Qc R)
    (hg : total = true → ∀ c σ fr, Qc c σ fr → ∃ n, fr.eval c = some (.bits n))
    (ht : ∀ c σ fr n, Qc c σ fr → fr.eval c = some (.bits n) → n ≠ 0 → P₁ σ fr)
    (hf : ∀ c σ fr, Qc c σ fr → fr.eval c = some (.bits 0) → Q₀ σ fr)
    (hb : Runs total ext P₁ (if jk ≠ .Boring then gen.setExitType t.code else pure ())
    (fun _ => Q₁) R) (hR : ∀ σ fr, Q₁ σ fr → fr.blk = s.func.nblocks → R fr (.bits dst.toNat)) :
    Runs total ext (fun σ fr => σ = s ∧ P σ fr) (emitExit gen guard jk t dst) (fun _ => Q₀) R := by
  rintro σ ⟨⟩ σ' G fr hm hok hG hl hat ⟨rfl, hp⟩
  obtain ⟨c, σ₁, σ₂, hcm, hbm, rfl⟩ := emitExit_eq_ok hm
  have hi : IfThen σ σ₁ σ₂ _ (.ret (constInt 64 dst.toNat)) := IfThen.of_exit hok hcm hbm
  have hG₂ : Builder.Extends σ₂.func G :=
    (Builder.Extends.terminate hi.then_.all.emits.ok _).trans hG
  have hG₁' := hi.then_.body.emits.ext.trans hG₂
  have hG₁ : Builder.Extends σ₁.func G := (Builder.Extends.terminate hi.cond.emits.ok _).trans hG₁'
  have hok₁ := (onward_newBlock hok).emits.ok
  rcases hc _ c σ₁ G fr hcm hi.init.emits.ok hG₁ hl (At.newBlock hok₁ (At.newBlock hok hat))
      (hP.newBlock _ fr hi.init.emits.ok (hP.newBlock σ fr hok₁ hp)) with
    ⟨fr₁, hr₁, hat₁, hk₁, hq₁⟩ | hleave
  swap
  · exact .inr hleave
  obtain ⟨n, hn, hstep⟩ := exists_step_condBr hat₁ hG₁' (hl.reach hr₁) fun h => hg h c σ₁ fr₁ hq₁
  have hr₁' := hr₁.tail hstep
  by_cases h0 : n = 0
  · subst h0
    rw [if_pos rfl] at hr₁'
    refine .inl ⟨_, hr₁', At.enter hi.leave fr₁, hk₁, ?_⟩
    exact hQ σ₁ _ fr₁ _ (.of_ne (fun t v hv => hi.then_.body.values t v hv)
      hi.then_.body.emits.grows.nextId (Nat.succ_ne_zero _)) (keeps_goto _ _ _) rfl
        (hf c σ₁ fr₁ hq₁ hn)
  · rw [if_neg h0] at hr₁'
    have hne : σ.func.nblocks ≠ entryBB := Nat.ne_of_gt (Nat.lt_of_le_of_lt (Nat.zero_le _) hok.lt)
    rcases hb _ () σ₂ G _ hbm hi.then_.enter.emits.ok hG₂ (hl.reach hr₁')
      (At.enter hi.then_.waiting fr₁)
        (hP₁.enter σ₁ fr₁ _ _ hne hi.then_.enter.emits.ok (ht c σ₁ fr₁ n hq₁ hn h0)) with
      ⟨fr₂, hr₂, hat₂, -, hq₂⟩ | hleave
    · obtain ⟨hget, hterm⟩ := endBlock_step hat₂ hG
      have hblk : σ₂.insertBlock = σ.func.nblocks := Straight.insertBlock hbm
      refine .inr ⟨fr₂, .bits dst.toNat, hr₁'.trans hr₂, ?_, hR σ₂ fr₂ hq₂ (hat₂.blk.trans hblk)⟩
      simp [Func.step, hget, hterm, Nat.mod_eq_of_lt dst.isLt]
    · exact .inr (hleave.of_reach hr₁')

/-- The code goes on where the guard is false, and leaves with the exit type where it is
true. -/
theorem runs_exit (hext : gen.Spares ext) (hoff : gen.exitTypeOffset < 2 ^ 31) {jk : IRJumpKind}
    {t : GuestExitType} (ht : exitTypeOf jk = some t) (guard : VexExpr) (dst : BitVec 64)
    (s : GenState) :
    Runs false ext (fun σ fr => σ = s ∧ Marked gen 0 σ fr) (emitExit gen guard jk t dst)
      (fun _ => Marked gen 0) (Took gen [⟨s.func.nblocks, jk, some dst⟩]) := by
  have hopens := opens_marked gen 0
  have hset : Runs false ext (Marked gen 0)
    (if jk ≠ .Boring then gen.setExitType t.code else pure ())
      (fun _ => Marked gen (BitVec.ofNat 8 t.code))
        (Took gen [⟨s.func.nblocks, jk, some dst⟩]) := by
    split
    · exact runs_setExitType_marked hoff t.code
    · next hjk =>
        rw [not_not.1 hjk] at ht
        cases ht
        exact runs_done
  refine runs_emitExit hopens hopens (lasting_marked gen 0) (runs_expr_marked hext guard)
    (fun h => by cases h) (fun _ _ _ _ h _ _ => h) (fun _ _ _ h _ => h) hset fun σ fr hq hblk => ?_
  refine ⟨_, List.mem_singleton_self _, hblk.symm, ⟨t, ht, hq.1⟩, ?_⟩
  rintro d ⟨⟩
  rfl

/-- What the state is afterwards is known from what it was. -/
theorem Runs.from {s : GenState} {m : EmitM α} {Q : α → Assertion}
    (h : Runs total ext (fun σ fr => σ = s ∧ P σ fr) m Q R) :
    Runs total ext (fun σ fr => σ = s ∧ P σ fr) m (fun a σ fr => m s = .ok (a, σ) ∧
      Q a σ fr) R := by
  rintro σ a σ' G fr hm hok hG hl hat hp
  refine (h σ a σ' G fr hm hok hG hl hat hp).imp_left ?_
  rintro ⟨fr', hr, hat', hk, hq⟩
  obtain ⟨rfl, -⟩ := hp
  exact ⟨fr', hr, hat', hk, hm, hq⟩

theorem runs_at_state {m : EmitM α} {Q : α → Assertion}
    (h : ∀ s, Runs total ext (fun σ fr => σ = s ∧ P σ fr) m Q R) : Runs total ext P m Q R :=
  fun σ a σ' G fr hm hok hG hl hat hp => h σ σ a σ' G fr hm hok hG hl hat ⟨rfl, hp⟩

theorem runs_of_state {φ : GenState → Prop} {m : EmitM α} {Q : α → Assertion}
    (h : ∀ s, φ s → Runs total ext (fun σ fr => σ = s ∧ P σ fr) m Q R) :
    Runs total ext (fun σ fr => φ σ ∧ P σ fr) m Q R :=
  runs_at_state fun s σ a σ' G fr hm hok hG hl hat hp =>
    h s (hp.1 ▸ hp.2.1) σ a σ' G fr hm hok hG hl hat ⟨hp.1, hp.2.2⟩

/-- One statement: it leaves through its exit, if it leaves. -/
theorem runs_stmt_exits (hext : gen.Spares ext) (hoff : gen.exitTypeOffset < 2 ^ 31)
    {stmt : VexStmt} (hw : stmt.within gen ρ = true) (hk : stmt.ExitKnown) (s : GenState) :
    Runs false ext (fun σ fr => σ = s ∧ Tabled ρ σ ∧ Marked gen 0 σ fr) (stmt.emit gen types)
      (fun _ σ fr => Tabled (stmt.after gen types ρ) σ ∧ Marked gen 0 σ fr)
        (Took gen (stmt.exits s)) := by
  have htabled : ∀ {P : Assertion}, Runs false ext P (stmt.emit gen types) (fun _ => Marked gen 0)
      (Took gen (stmt.exits s)) → Runs false ext (fun σ fr => Tabled ρ σ ∧ P σ fr)
        (stmt.emit gen types)
        (fun _ σ fr => Tabled (stmt.after gen types ρ) σ ∧ Marked gen 0 σ fr)
          (Took gen (stmt.exits s)) :=
    fun h => (Runs.tabled (VexStmt.emission_stmt stmt) h).post fun _ _ _ h => h.2
  by_cases hs : ∃ guard jk t dst, stmt = .exit guard jk t dst
  · obtain ⟨guard, jk, t, dst, rfl⟩ := hs
    exact (htabled (runs_exit hext hoff hk guard dst s)).pre fun σ fr h => ⟨h.2.1, h.1, h.2.2⟩
  · have hne : ∀ guard jk t dst, stmt ≠ .exit guard jk t dst := fun guard jk t dst he =>
      hs ⟨guard, jk, t, dst, he⟩
    exact (htabled (runs_stmt_marked hext hoff hw hne)).pre fun σ fr h => ⟨h.2.1, h.2⟩

theorem runs_emitStmts_exits (hext : gen.Spares ext) (hoff : gen.exitTypeOffset < 2 ^ 31)
    {ss : List VexStmt} (hw : VexSB.stmtsWithin gen types ρ ss = true)
    (hk : ∀ stmt ∈ ss, stmt.ExitKnown) (s : GenState) :
    Runs false ext (fun σ fr => σ = s ∧ Tabled ρ σ ∧ Marked gen 0 σ fr)
      (VexSB.emitStmts gen types ss)
      (fun _ => Marked gen 0) (Took gen (VexSB.sideExits gen types ss s)) := by
  induction ss generalizing ρ s with
  | nil => exact runs_done.conseq (fun _ _ h => h.2.2) (fun _ _ _ => id) fun _ _ => id
  | cons stmt ss ih =>
      rw [VexSB.stmtsWithin, Bool.and_eq_true] at hw
      have hfirst := Runs.from (@runs_stmt_exits ext ρ gen types hext hoff _ hw.1
        (hk stmt List.mem_cons_self) s)
      refine (hfirst.conseq (fun _ _ => id) (fun _ _ _ => id) fun fr v h =>
        h.mono (List.subset_append_left _ _)).bind fun _ => ?_
      refine runs_of_state fun s₁ h₁ => ?_
      refine (ih hw.2 (fun stmt' h => hk stmt' (List.mem_cons_of_mem _ h)) s₁).conseq
        (fun _ _ => id) (fun _ _ _ => id) fun fr v h => h.mono ?_
      rw [h₁]
      exact List.subset_append_right _ _

/-- The block of an exit is done with: it is not gone on in. -/
def Done (σ : GenState) (k : ℕ) : Prop := k < σ.func.nblocks ∧ k ≠ σ.insertBlock

theorem Done.onward {σ σ' : GenState} {k : ℕ} (h : Done σ k) (ho : σ.Onward σ') : Done σ' k := by
  have hg := ho.emits.grows
  refine ⟨h.1.trans_le hg.nblocks, fun he => ?_⟩
  rcases hg.stay with hs | hs
  · exact h.2 (he.trans hs)
  · exact absurd h.1 (Nat.not_lt.2 (he ▸ hs))

theorem exits_done {stmt : VexStmt} {σ σ' : GenState} (hok : σ.toBuilder.OK)
    (h : stmt.emit gen types σ = .ok ((), σ')) {x : SBExit} (hx : x ∈ stmt.exits σ) :
    σ.func.nblocks ≤ x.blk ∧ Done σ' x.blk := by
  cases stmt with
  | exit guard jk t dst =>
      cases List.mem_singleton.1 hx
      obtain ⟨c, σ₁, σ₂, hcm, hbm, rfl⟩ := emitExit_eq_ok h
      have hi : IfThen σ σ₁ σ₂ _ (.ret (constInt 64 dst.toNat)) := IfThen.of_exit hok hcm hbm
      have hlt := hi.all.emits.ok.lt
      have hd : Done (σ₂.endBlock (.ret (constInt 64 dst.toNat)) (σ.func.nblocks + 1))
        σ.func.nblocks :=
        ⟨Nat.lt_of_succ_lt hlt, (Nat.succ_ne_self _).symm⟩
      exact ⟨Nat.le_refl _, hd⟩
  | _ => exact absurd hx List.not_mem_nil

/-- No two exits return from the same block. -/
theorem sideExits_nodup {ss : List VexStmt} {σ σ' : GenState} (hok : σ.toBuilder.OK)
    (h : VexSB.emitStmts gen types ss σ = .ok ((), σ')) :
    (∀ x ∈ VexSB.sideExits gen types ss σ, σ.func.nblocks ≤ x.blk ∧ Done σ' x.blk) ∧
      ((VexSB.sideExits gen types ss σ).map SBExit.blk).Nodup := by
  induction ss generalizing σ with
  | nil => exact ⟨fun x hx => absurd hx List.not_mem_nil, List.nodup_nil⟩
  | cons stmt ss ih =>
      obtain ⟨_, σ₁, h₁, h₂⟩ := bind_eq_ok h
      have ho := Builds.onward h₁ hok
      have ho₂ := Builds.onward h₂ ho.emits.ok
      obtain ⟨hall, hnodup⟩ := ih ho.emits.ok h₂
      have heq : VexSB.sideExits gen types (stmt :: ss) σ =
          stmt.exits σ ++ VexSB.sideExits gen types ss σ₁ := by
        rw [VexSB.sideExits, h₁]
      rw [heq]
      refine ⟨fun x hx => ?_, ?_⟩
      · rcases List.mem_append.1 hx with hx | hx
        · obtain ⟨hle, hd⟩ := exits_done hok h₁ hx
          exact ⟨hle, hd.onward ho₂⟩
        · exact ⟨ho.emits.grows.nblocks.trans (hall x hx).1, (hall x hx).2⟩
      · rw [List.map_append, List.nodup_append']
        refine ⟨?_, hnodup, fun k hk hk' => ?_⟩
        · cases stmt with
          | exit guard jk t dst => exact List.nodup_singleton _
          | _ => exact List.nodup_nil
        · obtain ⟨x, hx, rfl⟩ := List.mem_map.1 hk
          obtain ⟨y, hy, he⟩ := List.mem_map.1 hk'
          have hlt := (exits_done hok h₁ hx).2.1
          rw [← he] at hlt
          exact absurd (hall y hy).1 (Nat.not_le.2 hlt)

theorem find?_of_nodup {α : Type} {f : α → ℕ} {l : List α} (h : (l.map f).Nodup) {x : α}
    (hx : x ∈ l) :
    l.find? (fun y => f y == f x) = some x := by
  induction l with
  | nil => cases hx
  | cons y l ih =>
      rw [List.map_cons, List.nodup_cons] at h
      rcases List.mem_cons.1 hx with rfl | hx
      · rw [List.find?_cons_of_pos (by simp)]
      · have hne : f y ≠ f x := fun he => h.1 (he ▸ List.mem_map_of_mem hx)
        rw [List.find?_cons_of_neg (by simpa using hne), ih h.2 hx]

/-- What a run of the function of a superblock ends with: it returns at one of the
exits, and the exit type is the one that belongs to it. -/
structure Leaving (gen : GenLLVM) (sb : VexSB) (k : ℕ) (v : RVal) (m : Machine) (x : SBExit)
    (t : GuestExitType) : Prop where
  exit : sb.exitAt gen k = some x
  type : x.type = some t
  byte : gen.exitByte m = BitVec.ofNat 8 t.code
  dst : ∀ d ∈ x.dst, v = .bits d.toNat

def VexSB.markJump (gen : GenLLVM) : Option GuestExitType → EmitM Unit
  | none => pure ()
  | some t => gen.setExitType t.code

theorem VexSB.emitM_eq_ok {sb : VexSB} {G : Func} {σ σ' : GenState}
    (h : sb.emitM gen σ = .ok (G, σ')) :
    ∃ σ₁ ret σ₂ t, VexSB.emitStmts gen sb.types sb.stmts σ = .ok ((), σ₁) ∧
      sb.jumpExpr.emit gen σ₁ = .ok (ret, σ₂) ∧ VexSB.jumpExit sb.jumpKind = some t ∧
      VexSB.markJump gen t σ₂ = .ok ((), σ') ∧ G = (σ'.toBuilder.terminate (.ret ret)).func := by
  obtain ⟨_, σ₁, h₁, h⟩ := bind_eq_ok h
  obtain ⟨ret, σ₂, h₂, h⟩ := bind_eq_ok h
  cases ht : VexSB.jumpExit sb.jumpKind with
  | none =>
      rw [ht] at h
      cases h
  | some t =>
      rw [ht] at h
      cases t with
      | none =>
          cases h
          exact ⟨σ₁, ret, _, none, h₁, h₂, rfl, rfl, rfl⟩
      | some t =>
          obtain ⟨_, σ₃, h₃, h⟩ := bind_eq_ok h
          cases h
          exact ⟨σ₁, ret, σ₂, some t, h₁, h₂, rfl, h₃, rfl⟩

instance builds_markJump (gen : GenLLVM) (t : Option GuestExitType) : Builds (VexSB.markJump gen t) := by
  cases t <;> rw [VexSB.markJump] <;> infer_instance

theorem runs_markJump (hoff : gen.exitTypeOffset < 2 ^ 31) (t : Option GuestExitType) :
    Runs false ext (Marked gen 0) (VexSB.markJump gen t)
      (fun _ => Marked gen (BitVec.ofNat 8 (t.getD .IGNORE).code)) R := by
  cases t with
  | none => exact runs_done
  | some t => exact runs_setExitType_marked hoff t.code

/-- All exits of a superblock return from different blocks. -/
theorem exits_nodup {sb : VexSB} {G : Func} {σ : GenState}
    (h : sb.emitM gen GenLLVM.beginBB = .ok (G, σ)) : ((sb.exits gen).map SBExit.blk).Nodup := by
  obtain ⟨σ₁, ret, σ₂, t, h₁, h₂, -, h₃, -⟩ := VexSB.emitM_eq_ok h
  have ho₁ := Builds.onward h₁ VexSB.beginBB_OK.builder
  have ho₂ := Builds.onward h₂ ho₁.emits.ok
  obtain ⟨hall, hnodup⟩ := sideExits_nodup VexSB.beginBB_OK.builder h₁
  rw [VexSB.exits, h, List.map_append, List.nodup_append']
  refine ⟨hnodup, List.nodup_singleton _, fun k hk hk' => ?_⟩
  obtain ⟨x, hx, rfl⟩ := List.mem_map.1 hk
  exact (((hall x hx).2.onward ho₂).onward (Builds.onward h₃ ho₂.emits.ok)).2
    (List.mem_singleton.1 hk')

/-- A function that returns does so at one of the exits, with the exit type of it. -/
theorem runs_exits (hext : gen.Spares ext) (hoff : gen.exitTypeOffset < 2 ^ 31) {sb : VexSB}
    (hw : sb.within gen = true) (hk : ∀ stmt ∈ sb.stmts, stmt.ExitKnown) {G : Func} {σ : GenState}
    (he : sb.emitM gen GenLLVM.beginBB = .ok (G, σ)) {M : Machine} (h0 : gen.exitByte M = 0)
    (hl : G.Alive false ext (Func.start M)) :
    G.Leaves ext (Func.start M) (Took gen (sb.exits gen)) := by
  obtain ⟨σ₁, ret, σ₂, t, h₁, h₂, ht, h₃, rfl⟩ := VexSB.emitM_eq_ok he
  have ho₁ := Builds.onward h₁ VexSB.beginBB_OK.builder
  have ho₂ := Builds.onward h₂ ho₁.emits.ok
  have ho₃ := Builds.onward h₃ ho₂.emits.ok
  have hG₃ := Builder.Extends.terminate ho₃.emits.ok (.ret ret)
  have hG₂ := ho₃.emits.ext.trans hG₃
  have hexits : sb.exits gen = VexSB.sideExits gen sb.types sb.stmts GenLLVM.beginBB ++
      [⟨σ.insertBlock, sb.jumpKind, none⟩] := by
    rw [VexSB.exits, he]
  have hstart : Marked gen 0 GenLLVM.beginBB (Func.start M) := (stands_beginBB M).marked h0
  rcases runs_emitStmts_exits hext hoff hw hk GenLLVM.beginBB _ () σ₁ _ (Func.start M) h₁
      VexSB.beginBB_OK.builder (ho₂.emits.ext.trans hG₂) hl (at_beginBB M)
      ⟨rfl, ⟨VexSB.beginBB_OK, rfl⟩, hstart⟩ with ⟨fr₁, hr₁, hat₁, -, hq₁⟩ | hleave
  swap
  · exact hleave.mono fun fr v h => h.mono (hexits ▸ List.subset_append_left _ _)
  have hjump := (runs_expr_marked (R := fun _ _ => False) hext sb.jumpExpr).bind fun _ =>
    runs_markJump (R := fun _ _ => False) hoff t
  have hm : (do
      let _ ← sb.jumpExpr.emit gen
      VexSB.markJump gen t) σ₁ = .ok ((), σ) := by
    rw [bind_ok h₂, h₃]
  rcases hjump σ₁ () σ _ fr₁ hm ho₁.emits.ok hG₃ (hl.reach hr₁) hat₁ hq₁ with
    ⟨fr₂, hr₂, hat₂, -, hq₂⟩ | ⟨_, _, _, _, hno⟩
  swap
  · exact hno.elim
  obtain ⟨hget, hterm⟩ := Builder.terminate_getElem? (t := .ret ret) (Builder.Extends.refl _) hat₂
  have hr := hr₁.trans hr₂
  have hns := (hl.reach hr).not_stuck rfl
  simp only [Func.step, hget, hterm] at hns
  cases hv : fr₂.eval ret with
  | none =>
      rw [hv] at hns
      exact absurd rfl hns
  | some v =>
      refine ⟨fr₂, v, hr, by simp [Func.step, hget, hterm, hv], ?_⟩
      refine ⟨⟨σ.insertBlock, sb.jumpKind, none⟩, ?_, hat₂.blk.symm,
        ⟨t.getD .IGNORE, ?_, hq₂.1⟩, ?_⟩
      · rw [hexits]
        exact List.mem_append_right _ (List.mem_singleton_self _)
      · simp [SBExit.type, ht]
      · rintro d ⟨⟩

theorem exists_leaving (hext : gen.Spares ext) (hoff : gen.exitTypeOffset < 2 ^ 31) {sb : VexSB}
    (hw : sb.within gen = true) (hk : ∀ stmt ∈ sb.stmts, stmt.ExitKnown) {G : Func}
    (he : sb.emit gen = .ok G) {M M' : Machine} (h0 : gen.exitByte M = 0) {n : ℕ}
    (hrun : G.run ext n (Func.start M) = some (v, M')) :
    ∃ fr x t, G.Reach ext (Func.start M) fr ∧ G.step ext fr = .done v M' ∧
      Leaving gen sb fr.blk v M' x t := by
  unfold VexSB.emit at he
  cases hm : sb.emitM gen GenLLVM.beginBB with
  | error e =>
      rw [hm] at he
      cases he
  | ok r =>
      rw [hm] at he
      cases he
      obtain ⟨fr, v', hr, hs, x, hx, hblk, ⟨t, ht, hb⟩, hd⟩ :=
        runs_exits hext hoff hw hk hm h0 (.inr ⟨n, _, hrun⟩)
      obtain ⟨k, hk⟩ := hr.run_eq hs
      have hsame := (Func.run_mono hk (Nat.le_max_left k n)).symm.trans
        (Func.run_mono hrun (Nat.le_max_right k n))
      cases hsame
      refine ⟨fr, x, t, hr, hs, ?_, ht, hb, hd⟩
      rw [VexSB.exitAt, ← hblk]
      exact find?_of_nodup (exits_nodup hm) hx

end Exits

end VexLLVM
