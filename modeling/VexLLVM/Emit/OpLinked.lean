import VexLLVM.LLVM.Linked
import VexLLVM.Emit.OpSpec

/-!
# The emitters on related operands

Every emitter makes the same decisions on operands that are the same constants, or
have the same types. So it goes through any congruence.
-/

namespace VexLLVM

open LLVM LLVM.Code

variable (L : Congruence EmitError) {a a' b b' c c' v v' : Value}

theorem create2_rel (z : Create2) (ha : L.val a a') (hb : L.val b b') :
    L.Rel (create2 z a b) (create2 z a' b') := by
  cases z with
  | bin o => exact L.bin o ha hb
  | icmp p => exact L.icmp p ha hb
  | fcmp p => exact L.fcmp p ha hb

theorem callHelper_rel (helpers : Helpers) (f : String) {vs vs' : List Value}
    (h : List.Forall₂ L.val vs vs') :
    L.Rel (callHelper helpers f vs) (callHelper helpers f vs') := by
  unfold callHelper
  cases helpers f with
  | none => exact L.fail _
  | some sig => exact L.call f sig h

theorem zeroVec_rel (n : ℕ) (s : Scalar) : L.Rel (zeroVec n s) (zeroVec n s) :=
  L.bitCast _ (L.const rfl)

theorem insertLanes_rel (n : ℕ) (s : Scalar) {elem elem' : ℕ → OpCode}
    (h : ∀ i, L.Rel (elem i) (elem' i)) :
    L.Rel (insertLanes n s elem) (insertLanes n s elem') :=
  (zeroVec_rel L n s).bind fun _ _ hr => L.foldlM _ hr fun i _ _ hr =>
    (h i).bind fun _ _ he => L.insert hr he (L.const rfl)

/-- Two operands cast to one type each, and then alike codes on them. -/
theorem bitCast₂_rel (y : Ty) {op op' : Value → Value → OpCode} (ha : L.val a a')
    (hb : L.val b b')
    (hop : ∀ a a' b b' : Value, L.val a a' → L.val b b' →
      L.Rel (op a b) (op' a' b')) :
    L.Rel (do let a ← createBitCast a y; let b ← createBitCast b y; op a b)
      (do let a ← createBitCast a' y; let b ← createBitCast b' y; op' a b) :=
  (L.bitCast y ha).bind fun _ _ ha => (L.bitCast y hb).bind fun _ _ hb =>
    hop _ _ _ _ ha hb

namespace OpEmit

theorem emitXToY_rel (y : CastOp) (w z : Scalar) (hv : L.val v v') :
    L.Rel (emitXToY y w z v) (emitXToY y w z v') := by
  have hty := L.ty hv
  unfold emitXToY
  rw [hty]
  dsimp only
  have hend : ∀ u u' : Value, L.val u u' → L.Rel
      (do let u ← createBitCast u (.scalar w); createCast y u (.scalar z) : OpCode)
      (do let u ← createBitCast u' (.scalar w); createCast y u (.scalar z)) := fun _ _ hu =>
    (L.bitCast _ hu).bind fun _ _ hu => L.cast y _ hu
  split
  · exact ((L.bitCast _ hv).bind fun _ _ hv => L.zext _ hv).bind hend
  · split
    · exact ((L.bitCast _ hv).bind fun _ _ hv => L.trunc _ hv).bind hend
    · exact hend _ _ hv

theorem emitXhiToY_rel (y : ℕ) (hv : L.val v v') :
    L.Rel (emitXhiToY y v) (emitXhiToY y v') :=
  (L.bitCast _ hv).bind fun _ _ hv => (L.bin .lshr hv (L.const rfl)).bind fun _ _ hv =>
    L.trunc _ hv

theorem emitUnopvNot_rel (y : Ty) (hv : L.val v v') :
    L.Rel (emitUnopvNot y v) (emitUnopvNot y v') :=
  (L.bitCast y hv).bind fun _ _ hv => L.not hv

theorem emitDup8x16_rel (hv : L.val v v') :
    L.Rel (emitDup8x16 v) (emitDup8x16 v') :=
  (L.zext _ hv).bind fun _ _ hv => L.foldlM _ hv fun _ _ _ hr =>
    (L.bin .shl hr (L.const rfl)).bind fun _ _ hs => L.bin .or hr hs

theorem emitGetElem_rel (e w : ℕ) (ha : L.val a a') (hb : L.val b b') :
    L.Rel (emitGetElem e w a b) (emitGetElem e w a' b') :=
  (L.bitCast _ ha).bind fun _ _ ha => L.extract ha hb

theorem emitSetElem_rel (e w : ℕ) (ha : L.val a a') (hb : L.val b b')
    (hc : L.val c c') :
    L.Rel (emitSetElem e w a b c) (emitSetElem e w a' b' c') :=
  (L.bitCast _ ha).bind fun _ _ ha => L.insert ha hc hb

theorem emitV128to64_rel (i : ℕ) (hv : L.val v v') :
    L.Rel (emitV128to64 i v) (emitV128to64 i v') :=
  (L.bitCast _ hv).bind fun _ _ hv => L.extract hv (L.const rfl)

theorem emitHi128to64_rel (hv : L.val v v') :
    L.Rel (emitHi128to64 v) (emitHi128to64 v') := by
  unfold emitHi128to64
  rw [L.ty hv]
  split
  · exact emitV128to64_rel L 1 hv
  · exact L.fail _

theorem emitHLto_rel (x y : ℕ) (ha : L.val a a') (hb : L.val b b') :
    L.Rel (emitHLto x y a b) (emitHLto x y a' b') :=
  (L.zext _ ha).bind fun _ _ ha => (L.zext _ hb).bind fun _ _ hb =>
    (L.bin .shl ha (L.const rfl)).bind fun _ _ hs => L.bin .or hb hs

theorem emitUtoV128_rel (hv : L.val v v') :
    L.Rel (emitUtoV128 v) (emitUtoV128 v') :=
  (L.zext _ hv).bind fun _ _ hv => L.bitCast _ hv

theorem emitHL64toV128_rel (ha : L.val a a') (hb : L.val b b') :
    L.Rel (emitHL64toV128 a b) (emitHL64toV128 a' b') :=
  bitCast₂_rel L _ ha hb fun _ _ _ _ ha hb =>
    (emitHLto_rel L 64 128 ha hb).bind fun _ _ hv => L.bitCast _ hv

theorem emitGetMSBs8x_rel (x : ℕ) (hv : L.val v v') :
    L.Rel (emitGetMSBs8x x v) (emitGetMSBs8x x v') :=
  (L.bitCast _ hv).bind fun _ _ hv => L.foldlM _ (L.const rfl) fun _ _ _ hr =>
    (L.extract hv (L.const rfl)).bind fun _ _ hc => (L.bin .lshr hc (L.const rfl)).bind
      fun _ _ hc =>
      (L.zext _ hc).bind fun _ _ hc => (L.bin .shl hc (L.const rfl)).bind fun _ _ hc =>
        L.bin .or hr hc

theorem emitBinop_rel (y : Create2) (ha : L.val a a') (hb : L.val b b') :
    L.Rel (emitBinop y a b) (emitBinop y a' b') := by
  unfold emitBinop
  rw [L.ty ha]
  exact (L.zext _ hb).bind fun _ _ hb => create2_rel L y ha hb

theorem emitBinopExpand_rel (y : CastOp) (z : Scalar) (w : BinOp) (ha : L.val a a')
    (hb : L.val b b') :
    L.Rel (emitBinopExpand y z w a b) (emitBinopExpand y z w a' b') :=
  (L.cast y _ ha).bind fun _ _ ha => (L.cast y _ hb).bind fun _ _ hb =>
    L.bin w ha hb

theorem emitBincmp_rel (n : ℕ) (s : Scalar) (z : Create2) (ha : L.val a a')
    (hb : L.val b b') :
    L.Rel (emitBincmp n s z a b) (emitBincmp n s z a' b') :=
  bitCast₂_rel L _ ha hb fun _ _ _ _ ha hb => insertLanes_rel L n s fun _ =>
    (L.extract ha (L.const rfl)).bind fun _ _ ha => (L.extract hb (L.const rfl)).bind fun _ _ hb =>
      (create2_rel L z ha hb).bind fun _ _ hc => L.select hc ha hb

theorem emitShift_rel (y : BinOp) (n : ℕ) (ha : L.val a a') (hb : L.val b b') :
    L.Rel (emitShift y n a b) (emitShift y n a' b') := by
  unfold emitShift
  rw [L.ty ha]
  exact (L.trunc _ hb).bind fun _ _ ht => (L.zext _ ht).bind fun _ _ ht =>
    L.bin y ha ht

theorem emitDivmod_rel (signed : Bool) (w : ℕ) (ha : L.val a a')
    (hb : L.val b b') :
    L.Rel (emitDivmod signed w a b) (emitDivmod signed w a' b') :=
  (L.bitCast _ ha).bind fun _ _ ha => (L.cast _ _ hb).bind fun _ _ hb =>
    (L.bin _ ha hb).bind fun _ _ hd => (L.bin _ ha hb).bind fun _ _ hr =>
      (L.bin .shl hr (L.const rfl)).bind fun _ _ hr => (L.trunc _ hd).bind fun _ _ hd =>
        (L.zext _ hd).bind fun _ _ hd => L.bin .or hd hr

theorem emitSetV128lo_rel (n w : ℕ) (ha : L.val a a') (hb : L.val b b') :
    L.Rel (emitSetV128lo n w a b) (emitSetV128lo n w a' b') :=
  (L.bitCast _ ha).bind fun _ _ ha => L.insert ha hb (L.const rfl)

theorem emitHelperUnopVec_rel (helpers : Helpers) (n w : ℕ) (f : String)
    (hv : L.val v v') :
    L.Rel (emitHelperUnopVec helpers n w f v) (emitHelperUnopVec helpers n w f v') := by
  refine (L.bitCast _ hv).bind fun x x' hx => ?_
  cases helpers f with
  | none => exact L.fail _
  | some sig =>
      exact insertLanes_rel L n _ fun _ => (L.extract hx (L.const rfl)).bind fun _ _ he =>
        L.call f sig (.cons he .nil)

theorem emitHelperBinop_rel (helpers : Helpers) (f : String) (z : Scalar)
    (ha : L.val a a') (hb : L.val b b') :
    L.Rel (emitHelperBinop helpers f z a b) (emitHelperBinop helpers f z a' b') :=
  bitCast₂_rel L _ ha hb fun _ _ _ _ ha hb => callHelper_rel L helpers f (.cons ha (.cons hb .nil))

theorem emitIleave_rel (mask : List ℕ) (n w : ℕ) (ha : L.val a a')
    (hb : L.val b b') :
    L.Rel (emitIleave mask n w a b) (emitIleave mask n w a' b') :=
  bitCast₂_rel L _ ha hb fun _ _ _ _ ha hb => L.shuffle mask ha hb

theorem emitOpv_rel (y : Ty) (z : Create2) (ha : L.val a a') (hb : L.val b b') :
    L.Rel (emitOpv y z a b) (emitOpv y z a' b') :=
  bitCast₂_rel L _ ha hb fun _ _ _ _ ha hb => create2_rel L z ha hb

theorem emitOpvExt_rel (n w : ℕ) (z : CastOp) (o : BinOp) (ha : L.val a a')
    (hb : L.val b b') :
    L.Rel (emitOpvExt n w z o a b) (emitOpvExt n w z o a' b') :=
  (L.bitCast _ ha).bind fun _ _ ha => (L.cast z _ ha).bind fun _ _ ha =>
    (L.bitCast _ hb).bind fun _ _ hb => (L.cast z _ hb).bind fun _ _ hb =>
      (L.bin o ha hb).bind fun _ _ hf => (L.zext _ (L.const rfl)).bind fun _ _ hs =>
        (L.bitCast _ hs).bind fun _ _ hs => (L.shuffle _ hs hs).bind fun _ _ hs =>
          (L.bin .lshr hf hs).bind fun _ _ hv => L.trunc _ hv

theorem emitOpnrw_rel (n w : ℕ) (ha : L.val a a') (hb : L.val b b') :
    L.Rel (emitOpnrw n w a b) (emitOpnrw n w a' b') :=
  bitCast₂_rel L _ ha hb fun _ _ _ _ _ _ => L.fail _

theorem emitNrwssLane_rel (w k negK i : ℕ) (hv : L.val v v') :
    L.Rel (emitNrwssLane w k negK v i) (emitNrwssLane w k negK v' i) :=
  (L.extract hv (L.const rfl)).bind fun _ _ he => (L.icmp .sgt he (L.const rfl)).bind fun _ _ hg =>
    (L.select hg (L.const rfl) he).bind fun _ _ he => (L.icmp .slt he (L.const rfl)).bind
      fun _ _ hl =>
      (L.select hl (L.const rfl) he).bind fun _ _ he => L.trunc _ he

theorem emitOpnrwss_rel (n w k negK : ℕ) (ha : L.val a a') (hb : L.val b b') :
    L.Rel (emitOpnrwss n w k negK a b) (emitOpnrwss n w k negK a' b') :=
  bitCast₂_rel L _ ha hb fun _ _ _ _ ha hb => (zeroVec_rel L _ _).bind fun _ _ hr =>
    L.bind (L.foldlM _ hr fun i _ _ hr => (emitNrwssLane_rel L w k negK i hb).bind fun _ _ he =>
      L.insert hr he (L.const rfl)) fun _ _ hr =>
        L.foldlM _ hr fun i _ _ hr => (emitNrwssLane_rel L w k negK i ha).bind fun _ _ he =>
          L.insert hr he (L.const rfl)

theorem emitClamp_rel (w d : ℕ) (k : Clamp) (hv : L.val v v') :
    L.Rel (emitClamp w d v k) (emitClamp w d v' k) := by
  cases k with
  | high k ext p =>
      exact (L.cast ext _ (L.const rfl)).bind fun _ _ hh => (L.icmp p hv hh).bind fun _ _ hg =>
        L.select hg hh hv
  | low k ext p =>
      exact (L.cast ext _ (L.const rfl)).bind fun _ _ hl => (L.icmp p hv hl).bind fun _ _ hg =>
        L.select hg hl hv

theorem emitOpsat_rel (n w : ℕ) (ext : CastOp) (op : BinOp) (clamps : List Clamp)
    (ha : L.val a a') (hb : L.val b b') :
    L.Rel (emitOpsat n w ext op clamps a b) (emitOpsat n w ext op clamps a' b') :=
  bitCast₂_rel L _ ha hb fun _ _ _ _ ha hb => (L.cast ext _ ha).bind fun _ _ ha =>
    (L.cast ext _ hb).bind fun _ _ hb => (L.bin op ha hb).bind fun _ _ hp =>
      insertLanes_rel L n _ fun _ => (L.extract hp (L.const rfl)).bind fun _ _ he =>
        (L.foldlM clamps he fun k _ _ he => emitClamp_rel L w (w + 1) k he).bind
          fun _ _ he => L.trunc _ he

theorem emitOpavg_rel (n w : ℕ) (ext : CastOp) (ha : L.val a a')
    (hb : L.val b b') :
    L.Rel (emitOpavg n w ext a b) (emitOpavg n w ext a' b') :=
  bitCast₂_rel L _ ha hb fun _ _ _ _ ha hb => (L.cast ext _ ha).bind fun _ _ ha =>
    (L.cast ext _ hb).bind fun _ _ hb => (L.bin .add ha hb).bind fun _ _ hp =>
      insertLanes_rel L n _ fun _ => (L.extract hp (L.const rfl)).bind fun _ _ he =>
        (L.bin .add he (L.constInt_ty 1 he)).bind fun _ _ he =>
          (L.bin .lshr he (L.constInt_ty 1 he)).bind fun _ _ he => L.trunc _ he

theorem emitOphop_rel (n w : ℕ) (aop : BinOp) (ext : CastOp) (ha : L.val a a')
    (hb : L.val b b') :
    L.Rel (emitOphop n w aop ext a b) (emitOphop n w aop ext a' b') :=
  bitCast₂_rel L _ ha hb fun _ _ _ _ ha hb => L.bind (insertLanes_rel L n _ fun _ =>
    (L.extract ha (L.const rfl)).bind fun _ _ hl => (L.extract hb (L.const rfl)).bind fun _ _ hr =>
      (L.cast ext _ hl).bind fun _ _ hl => (L.cast ext _ hr).bind fun _ _ hr =>
        (L.bin aop hl hr).bind fun _ _ he => (L.bin .lshr he (L.const rfl)).bind fun _ _ he =>
          L.trunc _ he) fun _ _ hr => L.bitCast _ hr

theorem emitOpvCmp_rel (y : Ty) (z : Create2) (w : Ty) (ha : L.val a a')
    (hb : L.val b b') :
    L.Rel (emitOpvCmp y z w a b) (emitOpvCmp y z w a' b') :=
  bitCast₂_rel L _ ha hb fun _ _ _ _ ha hb => (create2_rel L z ha hb).bind fun _ _ hc =>
    L.cast .sext _ hc

/-- A constant amount is the same one on both sides. -/
theorem emitOpvs_rel (n w : ℕ) (z : BinOp) (ha : L.val a a') (hb : L.val b b') :
    L.Rel (emitOpvs n w z a b) (emitOpvs n w z a' b') := by
  refine (L.bitCast _ ha).bind fun x x' hx => (L.zext _ hb).bind fun u u' hu => ?_
  have hdyn : ∀ u u' : Value, L.val u u' → L.Rel
      (do
        let u ← createBitCast u (.vec n (.int w))
        let u ← createShuffleVector u u (List.replicate n 0)
        createBin z x u : OpCode)
      (do
        let u ← createBitCast u' (.vec n (.int w))
        let u ← createShuffleVector u u (List.replicate n 0)
        createBin z x' u) := fun _ _ hu =>
    (L.bitCast _ hu).bind fun _ _ hu => (L.shuffle _ hu hu).bind fun _ _ hu =>
      L.bin z hx hu
  cases u with
  | const t k =>
      obtain rfl : _ = u' := L.eq_const hu rfl
      exact L.bin z hx (L.const rfl)
  | undef t =>
      obtain rfl : _ = u' := L.eq_const hu rfl
      exact hdyn _ _ (L.const rfl)
  | arg i t =>
      cases u' with
      | const t' k => cases L.isConst hu
      | _ => exact hdyn _ _ hu
  | inst i t =>
      cases u' with
      | const t' k => cases L.isConst hu
      | _ => exact hdyn _ _ hu

theorem emitXToYRound_rel (y : CastOp) (w z : Scalar) (hv : L.val v v') :
    L.Rel (emitXToYRound y w z v) (emitXToYRound y w z v') :=
  (L.bitCast _ hv).bind fun _ _ hv => L.cast y _ hv

theorem emitF0x_rel (n : ℕ) (s : Scalar) {op op' : Value → Value → OpCode}
    (hop : ∀ a a' b b' : Value, L.val a a' → L.val b b' →
      L.Rel (op a b) (op' a' b'))
    (ha : L.val a a') (hb : L.val b b') :
    L.Rel (emitF0x n s op a b) (emitF0x n s op' a' b') :=
  bitCast₂_rel L _ ha hb fun _ _ _ _ ha hb => (L.extract ha (L.const rfl)).bind fun _ _ hl =>
    (L.extract hb (L.const rfl)).bind fun _ _ hr => (hop _ _ _ _ hl hr).bind fun _ _ hr =>
      L.insert ha hr (L.const rfl)

theorem emitMask_rel (s : Scalar) (hc : L.val c c') :
    L.Rel (emitMask s c) (emitMask s c') :=
  (L.cast .sext _ hc).bind fun _ _ hr => L.bitCast _ hr

theorem emitRsqSteps_rel (t : Ty) (steps : List RsqStep) (hv : L.val v v') :
    L.Rel (steps.foldlM (emitRsqStep t) v) (steps.foldlM (emitRsqStep t) v') := by
  refine L.foldlM steps hv fun step u u' hu => ?_
  cases step with
  | sqrt => exact L.call _ _ (.cons hu .nil)
  | rcp => exact L.bin .fdiv (L.const (isConst_onesFP t)) hu

theorem emitOpf0xRsq_rel (n : ℕ) (s : Scalar) (steps : List RsqStep)
    (hv : L.val v v') :
    L.Rel (emitOpf0xRsq n s steps v) (emitOpf0xRsq n s steps v') :=
  (L.bitCast _ hv).bind fun _ _ hv => (L.extract hv (L.const rfl)).bind fun _ _ ha =>
    (emitRsqSteps_rel L _ steps ha).bind fun _ _ ha => L.insert hv ha (L.const rfl)

theorem emitOpvRsq_rel (n : ℕ) (s : Scalar) (steps : List RsqStep) (hv : L.val v v') :
    L.Rel (emitOpvRsq n s steps v) (emitOpvRsq n s steps v') :=
  (L.bitCast _ hv).bind fun _ _ hv => emitRsqSteps_rel L _ steps hv

theorem emitUnopNeg_rel (y : Ty) (hv : L.val v v') :
    L.Rel (emitUnopNeg y v) (emitUnopNeg y v') :=
  (L.bitCast y hv).bind fun _ _ hv => L.bin .fsub (L.const rfl) hv

theorem emitRoundToInt_rel (s : Scalar) (hv : L.val v v') :
    L.Rel (emitRoundToInt s v) (emitRoundToInt s v') :=
  (L.bitCast _ hv).bind fun _ _ hv => (L.bin .frem hv (L.const (isConst_onesFP _))).bind
    fun _ _ hr =>
    L.bin .fsub hv hr

theorem emitPRemF64_rel (ha : L.val a a') (hb : L.val b b') :
    L.Rel (emitPRemF64 a b) (emitPRemF64 a' b') :=
  bitCast₂_rel L _ ha hb fun _ _ _ _ ha hb => L.bin .frem ha hb

theorem emitPRemFlag_rel (i k : ℕ) (ha : L.val a a') (hb : L.val b b') :
    L.Rel (emitPRemFlag a b i k) (emitPRemFlag a' b' i k) := by
  have hrest : ∀ u u' : Value, L.val u u' → L.Rel
      (do
        let t ← createTrunc u (.int 1)
        let f ← createSelect t (get32i k) (get32i 0)
        createBin .or b f : OpCode)
      (do
        let t ← createTrunc u' (.int 1)
        let f ← createSelect t (get32i k) (get32i 0)
        createBin .or b' f) := fun _ _ hu =>
    (L.trunc _ hu).bind fun _ _ ht => (L.select ht (L.const rfl) (L.const rfl)).bind fun _ _ hf =>
      L.bin .or hb hf
  unfold emitPRemFlag
  split
  · exact hrest _ _ ha
  · exact (L.bin .lshr ha (L.const rfl)).bind hrest

theorem emitPRemC3210F64_rel (ha : L.val a a') (hb : L.val b b') :
    L.Rel (emitPRemC3210F64 a b) (emitPRemC3210F64 a' b') :=
  bitCast₂_rel L _ ha hb fun _ _ _ _ ha hb => (L.bin .fdiv ha hb).bind fun _ _ hq =>
    (L.cast .fptosi _ hq).bind fun _ _ hq =>
      (emitPRemFlag_rel L 0 0x200 hq (L.const rfl)).bind fun _ _ hr =>
        (emitPRemFlag_rel L 1 0x4000 hq hr).bind fun _ _ hr => emitPRemFlag_rel L 2 0x100 hq hr

theorem emitMAddF64_rel (ha : L.val a a') (hb : L.val b b')
    (hc : L.val c c') :
    L.Rel (emitMAddF64 a b c) (emitMAddF64 a' b' c') :=
  (L.bin .fmul ha hb).bind fun _ _ hm => L.bin .fadd hm hc

theorem emitToInt_rel (hv : L.val v v') :
    L.Rel (emitToInt v) (emitToInt v') := by
  unfold emitToInt
  rw [L.ty hv]
  split
  · exact L.ret hv
  · exact L.bitCast _ hv

theorem emitSoftfloatOp_rel (helpers : Helpers) (f : String) (ha : L.val a a')
    (hb : L.val b b') :
    L.Rel (emitSoftfloatOp helpers f a b) (emitSoftfloatOp helpers f a' b') := by
  unfold emitSoftfloatOp
  cases helpers f with
  | none => exact L.fail _
  | some sig =>
      exact (emitToInt_rel L ha).bind fun _ _ ha => (emitToInt_rel L hb).bind fun _ _ hb =>
        L.call f sig (.cons ha (.cons hb .nil))

theorem emitHelperCast_rel (helpers : Helpers) (f : String) (z : Scalar)
    (hv : L.val v v') :
    L.Rel (emitHelperCast helpers f z v) (emitHelperCast helpers f z v') := by
  unfold emitHelperCast
  cases helpers f with
  | none => exact L.fail _
  | some sig => exact (L.bitCast _ hv).bind fun _ _ hv => L.call f sig (.cons hv .nil)

theorem emitOpf0xCmpSoftfloat_rel (helpers : Helpers) (n : ℕ) (s : Scalar) (f : String)
    (ha : L.val a a') (hb : L.val b b') :
    L.Rel (emitOpf0xCmpSoftfloat helpers n s f a b)
      (emitOpf0xCmpSoftfloat helpers n s f a' b') :=
  emitF0x_rel L n s (fun _ _ _ _ ha hb => (emitSoftfloatOp_rel L helpers f ha hb).bind
    fun _ _ hr => (L.icmp .ne hr (L.constInt_ty 0 hr)).bind fun _ _ hc =>
      emitMask_rel L s hc) ha hb

/-- An emitter on related operands, as many as it reads. The shuffle compares its
indices with each other, so it is gone through for each congruence. -/
theorem build_rel (hshuf : ∀ (n w : ℕ) {a a' b b' : Value}, L.val a a' → L.val b b' →
      L.Rel (emitOpshuf n w a b) (emitOpshuf n w a' b')) (helpers : Helpers) (e : OpEmit)
    {vs vs' : List Value} (hlen : vs.length = e.arity) (h : List.Forall₂ L.val vs vs') :
    L.Rel (e.build helpers vs) (e.build helpers vs') := by
  have one : vs.length = 1 → ∃ a a', vs = [a] ∧ vs' = [a'] ∧ L.val a a' := fun hl => by
    obtain ⟨a, rfl⟩ := List.length_eq_one_iff.1 hl
    obtain _ | ⟨ha, _ | _⟩ := h
    exact ⟨_, _, rfl, rfl, ha⟩
  have two : vs.length = 2 → ∃ a a' b b', vs = [a, b] ∧ vs' = [a', b'] ∧ L.val a a' ∧
      L.val b b' := fun hl => by
    obtain ⟨a, b, rfl⟩ := List.length_eq_two.1 hl
    obtain _ | ⟨ha, _ | ⟨hb, _ | _⟩⟩ := h
    exact ⟨_, _, _, _, rfl, rfl, ha, hb⟩
  have three : vs.length = 3 → ∃ a a' b b' c c', vs = [a, b, c] ∧ vs' = [a', b', c'] ∧
      L.val a a' ∧ L.val b b' ∧ L.val c c' := fun hl => by
    obtain ⟨a, b, c, rfl⟩ := List.length_eq_three.1 hl
    obtain _ | ⟨ha, _ | ⟨hb, _ | ⟨hc, _ | _⟩⟩⟩ := h
    exact ⟨_, _, _, _, _, _, rfl, rfl, ha, hb, hc⟩
  cases e with
  | xToY y w z =>
      obtain ⟨a, a', rfl, rfl, h₁⟩ := one hlen
      exact emitXToY_rel L y w z h₁
  | xhiToY y =>
      obtain ⟨a, a', rfl, rfl, h₁⟩ := one hlen
      exact emitXhiToY_rel L y h₁
  | unopNot =>
      obtain ⟨a, a', rfl, rfl, h₁⟩ := one hlen
      exact L.not h₁
  | unopvNot y =>
      obtain ⟨a, a', rfl, rfl, h₁⟩ := one hlen
      exact emitUnopvNot_rel L y h₁
  | dup8x16 =>
      obtain ⟨a, a', rfl, rfl, h₁⟩ := one hlen
      exact emitDup8x16_rel L h₁
  | v128to64 i =>
      obtain ⟨a, a', rfl, rfl, h₁⟩ := one hlen
      exact emitV128to64_rel L i h₁
  | hi128to64 =>
      obtain ⟨a, a', rfl, rfl, h₁⟩ := one hlen
      exact emitHi128to64_rel L h₁
  | utoV128 =>
      obtain ⟨a, a', rfl, rfl, h₁⟩ := one hlen
      exact emitUtoV128_rel L h₁
  | getMSBs8x x =>
      obtain ⟨a, a', rfl, rfl, h₁⟩ := one hlen
      exact emitGetMSBs8x_rel L x h₁
  | helperUnop f =>
      obtain ⟨a, a', rfl, rfl, h₁⟩ := one hlen
      exact callHelper_rel L helpers f (.cons h₁ .nil)
  | helperUnopVec n w f =>
      obtain ⟨a, a', rfl, rfl, h₁⟩ := one hlen
      exact emitHelperUnopVec_rel L helpers n w f h₁
  | opf0xRsq n s steps =>
      obtain ⟨a, a', rfl, rfl, h₁⟩ := one hlen
      exact emitOpf0xRsq_rel L n s steps h₁
  | opvRsq n s steps =>
      obtain ⟨a, a', rfl, rfl, h₁⟩ := one hlen
      exact emitOpvRsq_rel L n s steps h₁
  | unopNeg y =>
      obtain ⟨a, a', rfl, rfl, h₁⟩ := one hlen
      exact emitUnopNeg_rel L y h₁
  | helperSoftfpUnop f z =>
      obtain ⟨a, a', rfl, rfl, h₁⟩ := one hlen
      exact emitHelperCast_rel L helpers f z h₁
  | getElem e w =>
      obtain ⟨a, a', b, b', rfl, rfl, h₁, h₂⟩ := two hlen
      exact emitGetElem_rel L e w h₁ h₂
  | hlTo x y =>
      obtain ⟨a, a', b, b', rfl, rfl, h₁, h₂⟩ := two hlen
      exact emitHLto_rel L x y h₁ h₂
  | hl64toV128 =>
      obtain ⟨a, a', b, b', rfl, rfl, h₁, h₂⟩ := two hlen
      exact emitHL64toV128_rel L h₁ h₂
  | binop y =>
      obtain ⟨a, a', b, b', rfl, rfl, h₁, h₂⟩ := two hlen
      exact emitBinop_rel L y h₁ h₂
  | binopExpand y z w =>
      obtain ⟨a, a', b, b', rfl, rfl, h₁, h₂⟩ := two hlen
      exact emitBinopExpand_rel L y z w h₁ h₂
  | bincmp n s z =>
      obtain ⟨a, a', b, b', rfl, rfl, h₁, h₂⟩ := two hlen
      exact emitBincmp_rel L n s z h₁ h₂
  | shift y k =>
      obtain ⟨a, a', b, b', rfl, rfl, h₁, h₂⟩ := two hlen
      exact emitShift_rel L y k h₁ h₂
  | divmod signed w =>
      obtain ⟨a, a', b, b', rfl, rfl, h₁, h₂⟩ := two hlen
      exact emitDivmod_rel L signed w h₁ h₂
  | setV128lo n w =>
      obtain ⟨a, a', b, b', rfl, rfl, h₁, h₂⟩ := two hlen
      exact emitSetV128lo_rel L n w h₁ h₂
  | helperBinop f z =>
      obtain ⟨a, a', b, b', rfl, rfl, h₁, h₂⟩ := two hlen
      exact emitHelperBinop_rel L helpers f z h₁ h₂
  | ileave mask n w =>
      obtain ⟨a, a', b, b', rfl, rfl, h₁, h₂⟩ := two hlen
      exact emitIleave_rel L mask n w h₁ h₂
  | opv y z =>
      obtain ⟨a, a', b, b', rfl, rfl, h₁, h₂⟩ := two hlen
      exact emitOpv_rel L y z h₁ h₂
  | opvExt n w z o =>
      obtain ⟨a, a', b, b', rfl, rfl, h₁, h₂⟩ := two hlen
      exact emitOpvExt_rel L n w z o h₁ h₂
  | opnrw n w =>
      obtain ⟨a, a', b, b', rfl, rfl, h₁, h₂⟩ := two hlen
      exact emitOpnrw_rel L n w h₁ h₂
  | opnrwss n w k negK =>
      obtain ⟨a, a', b, b', rfl, rfl, h₁, h₂⟩ := two hlen
      exact emitOpnrwss_rel L n w k negK h₁ h₂
  | opsat n w ext op clamps =>
      obtain ⟨a, a', b, b', rfl, rfl, h₁, h₂⟩ := two hlen
      exact emitOpsat_rel L n w ext op clamps h₁ h₂
  | opavg n w ext =>
      obtain ⟨a, a', b, b', rfl, rfl, h₁, h₂⟩ := two hlen
      exact emitOpavg_rel L n w ext h₁ h₂
  | ophop n w aop ext =>
      obtain ⟨a, a', b, b', rfl, rfl, h₁, h₂⟩ := two hlen
      exact emitOphop_rel L n w aop ext h₁ h₂
  | opvCmp y z w =>
      obtain ⟨a, a', b, b', rfl, rfl, h₁, h₂⟩ := two hlen
      exact emitOpvCmp_rel L y z w h₁ h₂
  | opvs n w z =>
      obtain ⟨a, a', b, b', rfl, rfl, h₁, h₂⟩ := two hlen
      exact emitOpvs_rel L n w z h₁ h₂
  | opshuf n w =>
      obtain ⟨a, a', b, b', rfl, rfl, h₁, h₂⟩ := two hlen
      exact hshuf n w h₁ h₂
  | xToYRound y w z =>
      obtain ⟨a, a', b, b', rfl, rfl, h₁, h₂⟩ := two hlen
      exact emitXToYRound_rel L y w z h₂
  | opf0x n s z =>
      obtain ⟨a, a', b, b', rfl, rfl, h₁, h₂⟩ := two hlen
      exact emitF0x_rel L n s (fun _ _ _ _ => L.bin z) h₁ h₂
  | opf0xCmp n s z =>
      obtain ⟨a, a', b, b', rfl, rfl, h₁, h₂⟩ := two hlen
      exact emitF0x_rel L n s (fun _ _ _ _ ha hb =>
        (L.fcmp z ha hb).bind fun _ _ hc => emitMask_rel L s hc) h₁ h₂
  | opf0xSel n s z =>
      obtain ⟨a, a', b, b', rfl, rfl, h₁, h₂⟩ := two hlen
      exact emitF0x_rel L n s (fun _ _ _ _ ha hb =>
        (L.fcmp z ha hb).bind fun _ _ hc => L.select hc ha hb) h₁ h₂
  | roundToInt s =>
      obtain ⟨a, a', b, b', rfl, rfl, h₁, h₂⟩ := two hlen
      exact emitRoundToInt_rel L s h₂
  | opf0xSoftfloat n s f =>
      obtain ⟨a, a', b, b', rfl, rfl, h₁, h₂⟩ := two hlen
      exact emitF0x_rel L n s (fun _ _ _ _ => emitSoftfloatOp_rel L helpers f) h₁ h₂
  | opf0xCmpSoftfloat n s f =>
      obtain ⟨a, a', b, b', rfl, rfl, h₁, h₂⟩ := two hlen
      exact emitOpf0xCmpSoftfloat_rel L helpers n s f h₁ h₂
  | convertIgnoreRounding f z =>
      obtain ⟨a, a', b, b', rfl, rfl, h₁, h₂⟩ := two hlen
      exact emitHelperCast_rel L helpers f z h₂
  | setElem e w =>
      obtain ⟨a, a', b, b', c, c', rfl, rfl, h₁, h₂, h₃⟩ := three hlen
      exact emitSetElem_rel L e w h₁ h₂ h₃
  | triopExpand y z w =>
      obtain ⟨a, a', b, b', c, c', rfl, rfl, h₁, h₂, h₃⟩ := three hlen
      exact emitBinopExpand_rel L y z w h₂ h₃
  | pRemF64 =>
      obtain ⟨a, a', b, b', c, c', rfl, rfl, h₁, h₂, h₃⟩ := three hlen
      exact emitPRemF64_rel L h₂ h₃
  | pRemC3210F64 =>
      obtain ⟨a, a', b, b', c, c', rfl, rfl, h₁, h₂, h₃⟩ := three hlen
      exact emitPRemC3210F64_rel L h₂ h₃
  | helperIgnoreRounding f z =>
      obtain ⟨a, a', b, b', c, c', rfl, rfl, h₁, h₂, h₃⟩ := three hlen
      exact emitHelperBinop_rel L helpers f z h₂ h₃
  | mAddF64 =>
      obtain ⟨a, b, c, d, rfl⟩ := exists_four hlen
      obtain _ | ⟨-, _ | ⟨hb, _ | ⟨hc, _ | ⟨hd, _ | _⟩⟩⟩⟩ := h
      exact emitMAddF64_rel L hb hc hd
  | unimpl => exact L.fail _

end OpEmit

end VexLLVM
