import VexLLVM.Emit.OpTable

/-!
# Operations store nothing

Emitter by emitter: none of the instructions of an operation is a store.
-/

namespace VexLLVM

open LLVM LLVM.Code

instance quiet_create2 (z : Create2) (a b : Value) : Quiet (create2 z a b) :=
  quiet_create (by cases z <;> rfl)

instance quiet_callHelper (helpers : Helpers) (f : String) (args : List Value) :
    Quiet (callHelper helpers f args) := by
  unfold callHelper
  split <;> infer_instance

instance quiet_zeroVec (n : ℕ) (s : Scalar) : Quiet (zeroVec n s) := by
  unfold zeroVec
  infer_instance

instance quiet_insertLanes (n : ℕ) (s : Scalar) (elem : ℕ → OpCode) [∀ i, Quiet (elem i)] :
    Quiet (insertLanes n s elem) := by
  unfold insertLanes
  exact @quiet_bind _ _ _ _ _ _ fun v => quiet_foldlM _ v fun _ _ => inferInstance

namespace OpEmit

variable (helpers : Helpers) (n w : ℕ) (s : Scalar) (t : Ty) (f : String) (v v1 v2 v3 : Value)

instance quiet_emitXToY (y : CastOp) (w z : Scalar) : Quiet (emitXToY y w z v1) := by
  unfold emitXToY
  infer_instance

instance quiet_emitXhiToY : Quiet (emitXhiToY n v1) := by
  unfold emitXhiToY
  infer_instance

instance quiet_emitUnopvNot : Quiet (emitUnopvNot t v1) := by
  unfold emitUnopvNot
  infer_instance

instance quiet_emitDup8x16 : Quiet (emitDup8x16 v1) := by
  unfold emitDup8x16
  exact @quiet_bind _ _ _ _ _ _ fun v => quiet_foldlM _ v fun _ _ => inferInstance

instance quiet_emitGetElem : Quiet (emitGetElem n w v1 v2) := by
  unfold emitGetElem
  infer_instance

instance quiet_emitSetElem : Quiet (emitSetElem n w v1 v2 v3) := by
  unfold emitSetElem
  infer_instance

instance quiet_emitV128to64 : Quiet (emitV128to64 n v1) := by
  unfold emitV128to64
  infer_instance

instance quiet_emitHi128to64 : Quiet (emitHi128to64 v1) := by
  unfold emitHi128to64
  infer_instance

instance quiet_emitHLto : Quiet (emitHLto n w v1 v2) := by
  unfold emitHLto
  infer_instance

instance quiet_emitUtoV128 : Quiet (emitUtoV128 v1) := by
  unfold emitUtoV128
  infer_instance

instance quiet_emitHL64toV128 : Quiet (emitHL64toV128 v1 v2) := by
  unfold emitHL64toV128
  infer_instance

instance quiet_emitGetMSBs8x : Quiet (emitGetMSBs8x n v1) := by
  unfold emitGetMSBs8x
  exact @quiet_bind _ _ _ _ _ _ fun _ => quiet_foldlM _ _ fun _ _ => inferInstance

instance quiet_emitBinop (y : Create2) : Quiet (emitBinop y v1 v2) := by
  unfold emitBinop
  infer_instance

instance quiet_emitBinopExpand (y : CastOp) (o : BinOp) : Quiet (emitBinopExpand y s o v1 v2) := by
  unfold emitBinopExpand
  infer_instance

instance quiet_emitBincmp (z : Create2) : Quiet (emitBincmp n s z v1 v2) := by
  unfold emitBincmp
  infer_instance

instance quiet_emitShift (y : BinOp) : Quiet (emitShift y n v1 v2) := by
  unfold emitShift
  infer_instance

instance quiet_emitDivmod (signed : Bool) : Quiet (emitDivmod signed w v1 v2) := by
  unfold emitDivmod
  infer_instance

instance quiet_emitSetV128lo : Quiet (emitSetV128lo n w v1 v2) := by
  unfold emitSetV128lo
  infer_instance

instance quiet_emitHelperUnopVec : Quiet (emitHelperUnopVec helpers n w f v1) := by
  unfold emitHelperUnopVec
  refine @quiet_bind _ _ _ _ _ _ fun v => ?_
  split <;> infer_instance

instance quiet_emitHelperBinop : Quiet (emitHelperBinop helpers f s v1 v2) := by
  unfold emitHelperBinop
  infer_instance

instance quiet_emitIleave (mask : List ℕ) : Quiet (emitIleave mask n w v1 v2) := by
  unfold emitIleave
  infer_instance

instance quiet_emitOpv (z : Create2) : Quiet (emitOpv t z v1 v2) := by
  unfold emitOpv
  infer_instance

set_option synthInstance.maxSize 400 in
instance quiet_emitOpvExt (z : CastOp) (o : BinOp) : Quiet (emitOpvExt n w z o v1 v2) := by
  unfold emitOpvExt
  dsimp only
  infer_instance

instance quiet_emitOpnrw : Quiet (emitOpnrw n w v1 v2) := by
  unfold emitOpnrw
  infer_instance

instance quiet_emitNrwssLane (c negC i : ℕ) : Quiet (emitNrwssLane w c negC v i) := by
  unfold emitNrwssLane
  infer_instance

instance quiet_emitOpnrwss (c negC : ℕ) : Quiet (emitOpnrwss n w c negC v1 v2) := by
  have hlanes : ∀ (a v : Value) (k : ℕ), Quiet ((List.range n).foldlM (fun result i => do
      let elem ← emitNrwssLane w c negC a i
      createInsertElement result elem (get32i (i + k))) v) := fun a v k =>
    quiet_foldlM _ v fun _ _ => inferInstance
  have hlow : ∀ a v : Value, Quiet ((List.range n).foldlM (fun result i => do
      let elem ← emitNrwssLane w c negC a i
      createInsertElement result elem (get32i i)) v) := fun a v => hlanes a v 0
  unfold emitOpnrwss
  infer_instance

instance quiet_emitClamp (d : ℕ) (k : Clamp) : Quiet (emitClamp w d v k) := by
  cases k <;> unfold emitClamp <;> infer_instance

instance quiet_emitOpsat (ext : CastOp) (op : BinOp) (clamps : List Clamp) :
    Quiet (emitOpsat n w ext op clamps v1 v2) := by
  have hclamps : ∀ v : Value, Quiet (clamps.foldlM (emitClamp w (w + 1)) v) := fun v =>
    quiet_foldlM _ v fun _ _ => inferInstance
  unfold emitOpsat
  infer_instance

set_option synthInstance.maxSize 400 in
instance quiet_emitOpavg (ext : CastOp) : Quiet (emitOpavg n w ext v1 v2) := by
  unfold emitOpavg
  infer_instance

set_option synthInstance.maxSize 400 in
instance quiet_emitOphop (aop : BinOp) (ext : CastOp) : Quiet (emitOphop n w aop ext v1 v2) := by
  unfold emitOphop
  infer_instance

instance quiet_emitOpvCmp (z : Create2) (t' : Ty) : Quiet (emitOpvCmp t z t' v1 v2) := by
  unfold emitOpvCmp
  infer_instance

instance quiet_emitOpvs (z : BinOp) : Quiet (emitOpvs n w z v1 v2) := by
  unfold emitOpvs
  refine @quiet_bind _ _ _ _ _ _ fun _ => @quiet_bind _ _ _ _ _ _ fun v => ?_
  split <;> infer_instance

instance quiet_emitOpshuf : Quiet (emitOpshuf n w v1 v2) := by
  unfold emitOpshuf
  refine @quiet_bind _ _ _ _ _ _ fun _ => @quiet_bind _ _ _ _ _ _ fun _ =>
    @quiet_bind _ _ _ _ _ _ fun _ => @quiet_bind _ _ _ _ _ (quiet_foldlM _ _ fun st i => ?_) fun _ =>
      quiet_pure _
  refine @quiet_bind _ _ _ _ _ _ fun _ => @quiet_bind _ _ _ _ _ _ fun _ => ?_
  dsimp only
  split <;> infer_instance

instance quiet_emitXToYRound (y : CastOp) (w z : Scalar) : Quiet (emitXToYRound y w z v2) := by
  unfold emitXToYRound
  infer_instance

instance quiet_emitF0x (op : Value → Value → OpCode) [∀ a b, Quiet (op a b)] :
    Quiet (emitF0x n s op v1 v2) := by
  unfold emitF0x
  infer_instance

instance quiet_emitMask : Quiet (emitMask s v) := by
  unfold emitMask
  infer_instance

instance quiet_emitOpf0x (z : BinOp) : Quiet (emitOpf0x n s z v1 v2) := by
  unfold emitOpf0x
  infer_instance

instance quiet_emitOpf0xCmp (z : FPred) : Quiet (emitOpf0xCmp n s z v1 v2) := by
  unfold emitOpf0xCmp
  infer_instance

instance quiet_emitOpf0xSel (z : FPred) : Quiet (emitOpf0xSel n s z v1 v2) := by
  unfold emitOpf0xSel
  infer_instance

instance quiet_emitRsqStep (step : RsqStep) : Quiet (emitRsqStep t v step) := by
  cases step <;> unfold emitRsqStep <;> infer_instance

theorem quiet_emitRsqSteps (steps : List RsqStep) : Quiet (steps.foldlM (emitRsqStep t) v) :=
  quiet_foldlM _ v fun _ _ => inferInstance

instance quiet_emitOpf0xRsq (steps : List RsqStep) : Quiet (emitOpf0xRsq n s steps v1) := by
  have := fun v => quiet_emitRsqSteps (.scalar s) v steps
  unfold emitOpf0xRsq
  infer_instance

instance quiet_emitOpvRsq (steps : List RsqStep) : Quiet (emitOpvRsq n s steps v1) := by
  have := fun v => quiet_emitRsqSteps (.vec n s) v steps
  unfold emitOpvRsq
  infer_instance

instance quiet_emitUnopNeg : Quiet (emitUnopNeg t v1) := by
  unfold emitUnopNeg
  infer_instance

instance quiet_emitRoundToInt : Quiet (emitRoundToInt s v2) := by
  unfold emitRoundToInt
  infer_instance

instance quiet_emitPRemF64 : Quiet (emitPRemF64 v2 v3) := by
  unfold emitPRemF64
  infer_instance

instance quiet_emitPRemFlag (i c : ℕ) : Quiet (emitPRemFlag v1 v2 i c) := by
  unfold emitPRemFlag
  infer_instance

instance quiet_emitPRemC3210F64 : Quiet (emitPRemC3210F64 v2 v3) := by
  unfold emitPRemC3210F64
  infer_instance

instance quiet_emitMAddF64 : Quiet (emitMAddF64 v1 v2 v3) := by
  unfold emitMAddF64
  infer_instance

instance quiet_emitToInt : Quiet (emitToInt v) := by
  unfold emitToInt
  split <;> infer_instance

instance quiet_emitSoftfloatOp : Quiet (emitSoftfloatOp helpers f v1 v2) := by
  unfold emitSoftfloatOp
  split <;> infer_instance

instance quiet_emitOpf0xCmpSoftfloat : Quiet (emitOpf0xCmpSoftfloat helpers n s f v1 v2) := by
  unfold emitOpf0xCmpSoftfloat
  infer_instance

instance quiet_emitHelperCast : Quiet (emitHelperCast helpers f s v) := by
  unfold emitHelperCast
  split <;> infer_instance

instance quiet_build (e : OpEmit) (vs : List Value) : Quiet (e.build helpers vs) := by
  unfold build
  split <;> infer_instance

end OpEmit

end VexLLVM
