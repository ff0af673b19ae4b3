import VexLLVM.Emit.OpTable

/-!
# The typing of the emitters

For every emitter the LLVM type of its result, when it ends the process, and
exactly for which operand types all instructions it creates are well formed.
`OpEmit.Good` collects what the instances of the macros have in common: the
fixed part of each emitter is well formed by itself.
-/

namespace VexLLVM

open LLVM LLVM.Code

def Create2.resTy : Create2 → Ty → Ty
  | .bin _, t => t
  | .icmp _, t => t.cmpResult
  | .fcmp _, t => t.cmpResult

def Create2.okAt : Create2 → Ty → Bool
  | .bin o, t => o.okAt t
  | .icmp _, t => t.isIntOrIntVector
  | .fcmp _, t => t.isFPOrFPVector

def Clamp.good (w : ℕ) : Clamp → Bool
  | .high _ ext _ => castOk ext (.int w) (.int (w + 1))
  | .low _ ext _ => castOk ext (.int w) (.int (w + 1))

namespace OpEmit

def arity : OpEmit → ℕ
  | xToY _ _ _ | xhiToY _ | unopNot | unopvNot _ | dup8x16 | v128to64 _ | hi128to64
  | utoV128 | getMSBs8x _ | helperUnop _ | helperUnopVec _ _ _ | opf0xRsq _ _ _
  | opvRsq _ _ _ | unopNeg _ | helperSoftfpUnop _ _ => 1
  | setElem _ _ | triopExpand _ _ _ | pRemF64 | pRemC3210F64 | helperIgnoreRounding _ _ => 3
  | mAddF64 => 4
  | _ => 2

/-- The emitter ends the process: it is not implemented, its helper is missing,
or an assertion on the operand's width fails. -/
def fails (helpers : Helpers) : OpEmit → List Ty → Bool
  | unimpl, _ => true
  | opnrw _ _, _ => true
  | hi128to64, [t] => t.bits != 128
  | helperUnop f, _ | helperUnopVec _ _ f, _ | helperBinop f _, _ | opf0xSoftfloat _ _ f, _
  | opf0xCmpSoftfloat _ _ f, _ | convertIgnoreRounding f _, _ | helperIgnoreRounding f _, _
  | helperSoftfpUnop f _, _ => (helpers f).isNone
  | _, _ => false

def helperTy (helpers : Helpers) (f : String) : Ty := ((helpers f).map FnTy.ret).getD .void

def resTy (helpers : Helpers) : OpEmit → List Ty → Ty
  | xToY _ _ z, _ => .scalar z
  | xhiToY y, _ => .int y
  | unopNot, [t] => t
  | unopvNot y, _ => y
  | dup8x16, _ => .int 128
  | setElem e w, _ => .vec e (.int w)
  | getElem _ w, _ => .int w
  | v128to64 _, _ => .int 64
  | hi128to64, _ => .int 64
  | hlTo _ y, _ => .int y
  | utoV128, _ => .vec 16 (.int 8)
  | hl64toV128, _ => .vec 16 (.int 8)
  | getMSBs8x x, _ => .int x
  | binop y, t :: _ => y.resTy t
  | binopExpand _ z _, _ => .scalar z
  | bincmp n s _, _ => .vec n s
  | shift _ _, t :: _ => t
  | divmod _ w, _ => .int w
  | setV128lo n w, _ => .vec n (.int w)
  | helperUnop f, _ => helperTy helpers f
  | helperUnopVec n w _, _ => .vec n (.int w)
  | helperBinop f _, _ => helperTy helpers f
  | ileave mask _ w, _ => .vec mask.length (.int w)
  | opv y z, _ => z.resTy y
  | opvExt n w _ _, _ => .vec n (.int w)
  | opnrwss n w _ _, _ => .vec (2 * n) (.int (w / 2))
  | opsat n w _ _ _, _ => .vec n (.int w)
  | opavg n w _, _ => .vec n (.int w)
  | ophop n w _ _, _ => .int (n * w)
  | opvCmp _ _ w, _ => w
  | opvs n w _, _ => .vec n (.int w)
  | opshuf n w, _ => .vec n (.int w)
  | xToYRound _ _ z, _ => .scalar z
  | opf0x n s _, _ => .vec n s
  | opf0xCmp n s _, _ => .vec n s
  | opf0xSel n s _, _ => .vec n s
  | opf0xRsq n s _, _ => .vec n s
  | opvRsq n s _, _ => .vec n s
  | unopNeg y, _ => y
  | triopExpand _ z _, _ => .scalar z
  | roundToInt s, _ => .scalar s
  | pRemF64, _ => .double
  | pRemC3210F64, _ => .int 32
  | mAddF64, [_, t, _, _] => t
  | opf0xSoftfloat n s _, _ => .vec n s
  | opf0xCmpSoftfloat n s _, _ => .vec n s
  | convertIgnoreRounding f _, _ => helperTy helpers f
  | helperIgnoreRounding f _, _ => helperTy helpers f
  | helperSoftfpUnop f _, _ => helperTy helpers f
  | _, _ => .void

def takes (helpers : Helpers) (f : String) (ts : List Ty) : Bool :=
  (helpers f).any fun sig => sig.params == ts

/-- All instructions the emitter creates on operands of these types are well
formed. -/
def accepts (helpers : Helpers) : OpEmit → List Ty → Bool
  | xToY _ w _, [t] =>
      if t.bits < w.bits then
        castOk .bitcast t (.int t.bits) && castOk .zext (.int t.bits) (.scalar w)
      else if w.bits < t.bits then
        castOk .bitcast t (.int t.bits) && castOk .trunc (.int t.bits) (.scalar w)
      else castOk .bitcast t (.scalar w)
  | xhiToY y, [t] => castOk .bitcast t (.int (2 * y))
  | unopNot, [t] => t.isIntOrIntVector
  | unopvNot y, [t] => castOk .bitcast t y
  | dup8x16, [t] => castOk .zext t (.int 128)
  | setElem e w, [t₁, t₂, t₃] =>
      castOk .bitcast t₁ (.vec e (.int w)) && t₃ == .int w && t₂.isIntOrIntVector
  | getElem e w, [t₁, t₂] => castOk .bitcast t₁ (.vec e (.int w)) && t₂.isIntOrIntVector
  | v128to64 _, [t] => castOk .bitcast t (.vec 2 (.int 64))
  | hi128to64, [t] => castOk .bitcast t (.vec 2 (.int 64))
  | hlTo _ y, [t₁, t₂] => castOk .zext t₁ (.int y) && castOk .zext t₂ (.int y)
  | utoV128, [t] => castOk .zext t (.int 128)
  | hl64toV128, [t₁, t₂] => castOk .bitcast t₁ (.int 64) && castOk .bitcast t₂ (.int 64)
  | getMSBs8x x, [t] => castOk .bitcast t (.vec x (.int 8))
  | binop y, [t₁, t₂] => castOk .zext t₂ t₁ && y.okAt t₁
  | binopExpand y z _, [t₁, t₂] => castOk y t₁ (.scalar z) && castOk y t₂ (.scalar z)
  | bincmp n s _, [t₁, t₂] => castOk .bitcast t₁ (.vec n s) && castOk .bitcast t₂ (.vec n s)
  | shift y b, [t₁, t₂] =>
      castOk .trunc t₂ (.int b) && castOk .zext (.int b) t₁ && y.okAt t₁
  | divmod signed w, [t₁, t₂] =>
      castOk .bitcast t₁ (.int w) && castOk (if signed then .sext else .zext) t₂ (.int w)
  | setV128lo n w, [t₁, t₂] => castOk .bitcast t₁ (.vec n (.int w)) && t₂ == .int w
  | helperUnop f, [t] => takes helpers f [t]
  | helperUnopVec n w f, [t] =>
      castOk .bitcast t (.vec n (.int w)) && takes helpers f [.int w] &&
        helperTy helpers f == .int w
  | helperBinop f z, [t₁, t₂] =>
      castOk .bitcast t₁ (.scalar z) && castOk .bitcast t₂ (.scalar z) &&
        takes helpers f [.scalar z, .scalar z]
  | ileave _ n w, [t₁, t₂] =>
      castOk .bitcast t₁ (.vec n (.int w)) && castOk .bitcast t₂ (.vec n (.int w))
  | opv y _, [t₁, t₂] => castOk .bitcast t₁ y && castOk .bitcast t₂ y
  | opvExt n w _ _, [t₁, t₂] =>
      castOk .bitcast t₁ (.vec n (.int w)) && castOk .bitcast t₂ (.vec n (.int w))
  | opnrwss n w _ _, [t₁, t₂] =>
      castOk .bitcast t₁ (.vec n (.int w)) && castOk .bitcast t₂ (.vec n (.int w))
  | opsat n w _ _ _, [t₁, t₂] =>
      castOk .bitcast t₁ (.vec n (.int w)) && castOk .bitcast t₂ (.vec n (.int w))
  | opavg n w _, [t₁, t₂] =>
      castOk .bitcast t₁ (.vec n (.int w)) && castOk .bitcast t₂ (.vec n (.int w))
  | ophop n w _ _, [t₁, t₂] =>
      castOk .bitcast t₁ (.vec n (.int w)) && castOk .bitcast t₂ (.vec n (.int w))
  | opvCmp y _ _, [t₁, t₂] => castOk .bitcast t₁ y && castOk .bitcast t₂ y
  | opvs n w _, [t₁, t₂] =>
      castOk .bitcast t₁ (.vec n (.int w)) && castOk .zext t₂ (.int (n * w))
  | opshuf n w, [t₁, t₂] =>
      castOk .bitcast t₁ (.vec n (.int w)) && castOk .bitcast t₂ (.vec n (.int w))
  | xToYRound _ w _, [_, t] => castOk .bitcast t (.scalar w)
  | opf0x n s _, [t₁, t₂] => castOk .bitcast t₁ (.vec n s) && castOk .bitcast t₂ (.vec n s)
  | opf0xCmp n s _, [t₁, t₂] => castOk .bitcast t₁ (.vec n s) && castOk .bitcast t₂ (.vec n s)
  | opf0xSel n s _, [t₁, t₂] => castOk .bitcast t₁ (.vec n s) && castOk .bitcast t₂ (.vec n s)
  | opf0xRsq n s _, [t] => castOk .bitcast t (.vec n s)
  | opvRsq n s _, [t] => castOk .bitcast t (.vec n s)
  | unopNeg y, [t] => castOk .bitcast t y
  | triopExpand y z _, [_, t₂, t₃] => castOk y t₂ (.scalar z) && castOk y t₃ (.scalar z)
  | roundToInt s, [_, t] => castOk .bitcast t (.scalar s)
  | pRemF64, [_, t₂, t₃] => castOk .bitcast t₂ .double && castOk .bitcast t₃ .double
  | pRemC3210F64, [_, t₂, t₃] => castOk .bitcast t₂ .double && castOk .bitcast t₃ .double
  | mAddF64, [_, t₂, t₃, t₄] => t₂ == t₃ && t₂ == t₄ && t₂.isFPOrFPVector
  | opf0xSoftfloat n s f, [t₁, t₂] =>
      castOk .bitcast t₁ (.vec n s) && castOk .bitcast t₂ (.vec n s) &&
        takes helpers f [.int s.bits, .int s.bits] && helperTy helpers f == .scalar s
  | opf0xCmpSoftfloat n s f, [t₁, t₂] =>
      castOk .bitcast t₁ (.vec n s) && castOk .bitcast t₂ (.vec n s) &&
        takes helpers f [.int s.bits, .int s.bits] &&
        helperTy helpers f == .int (helperTy helpers f).bits
  | convertIgnoreRounding f z, [_, t] =>
      castOk .bitcast t (.scalar z) && takes helpers f [.scalar z]
  | helperIgnoreRounding f z, [_, t₂, t₃] =>
      castOk .bitcast t₂ (.scalar z) && castOk .bitcast t₃ (.scalar z) &&
        takes helpers f [.scalar z, .scalar z]
  | helperSoftfpUnop f z, [t] => castOk .bitcast t (.scalar z) && takes helpers f [.scalar z]
  | _, _ => false

/-- The part of an emitter that does not depend on its operands is well formed. -/
def good : OpEmit → Bool
  | xToY y w z => castOk y (.scalar w) (.scalar z)
  | xhiToY y => castOk .trunc (.int (2 * y)) (.int y)
  | unopvNot y => y.isIntOrIntVector
  | getMSBs8x x => decide (0 < x) && castOk .zext (.int 8) (.int x)
  | binopExpand _ z w => w.okAt (.scalar z)
  | bincmp n s z => decide (0 < n) && z.okAt (.scalar s) && z.resTy (.scalar s) == .int 1
  | divmod _ w => castOk .trunc (.int w) (.int (w / 2)) && castOk .zext (.int (w / 2)) (.int w)
  | helperUnopVec n _ _ => decide (0 < n)
  | ileave mask n _ => mask.all fun i => decide (i < 2 * n)
  | opv y z => z.okAt y
  | opvExt n w z o =>
      decide (0 < n) && castOk z (.vec n (.int w)) (.vec n (.int (2 * w))) && !o.isFP &&
        castOk .trunc (.vec n (.int (2 * w))) (.vec n (.int w)) &&
        castOk .zext (.int (w * 2)) (.int (n * (2 * w)))
  | opnrwss n w _ _ => decide (0 < n) && castOk .trunc (.int w) (.int (w / 2))
  | opsat n w ext op clamps =>
      decide (0 < n) && castOk ext (.vec n (.int w)) (.vec n (.int (w + 1))) && !op.isFP &&
        clamps.all (Clamp.good w)
  | opavg n w ext => decide (0 < n ∧ 0 < w) && castOk ext (.vec n (.int w)) (.vec n (.int (2 * w)))
  | ophop n w aop ext =>
      decide (0 < n ∧ 0 < w) && castOk ext (.int w) (.int (2 * w)) && !aop.isFP
  | opvCmp y z w => z.okAt y && castOk .sext (z.resTy y) w
  | opvs n _ z => decide (0 < n) && !z.isFP
  | opshuf n w => decide (0 < n) && castOk .zext (.int w) (.int 32)
  | xToYRound y w z => castOk y (.scalar w) (.scalar z)
  | opf0x _ s z => z.okAt (.scalar s)
  | opf0xCmp _ s _ => !s.isInt
  | opf0xSel _ s _ => !s.isInt
  | opf0xRsq _ s _ => !s.isInt
  | opvRsq _ s _ => !s.isInt
  | unopNeg y => y.isFPOrFPVector
  | triopExpand _ z w => w.okAt (.scalar z)
  | roundToInt s => !s.isInt
  | opf0xCmpSoftfloat _ s _ => castOk .sext (.int 1) (.int s.bits)
  | _ => true

/-! ## The emitters -/

section Gives

variable {S : Value → Prop} {E : Prop} {t₁ t₂ t₃ t₄ : Ty} {v₁ v₂ v₃ v₄ : Value}
  {helpers : Helpers}

theorem create2_gives (z : Create2) (h₁ : S v₁) (h₂ : S v₂) (e₁ : v₁.ty = t₁)
    (e₂ : v₂.ty = t₂) :
    Gives S E (z.resTy t₁) (t₁ = t₂ ∧ z.okAt t₁ = true) (create2 z v₁ v₂) := by
  cases z with
  | bin o => exact gives_bin o h₁ h₂ e₁ e₂
  | icmp p => exact gives_icmp p h₁ h₂ e₁ e₂
  | fcmp p => exact gives_fcmp p h₁ h₂ e₁ e₂

/-- Two operands cast to one type, and then `op` on them. -/
theorem bitCast₂_gives {y t : Ty} {p : Prop} {op : Value → Value → OpCode} (h₁ : S v₁)
    (h₂ : S v₂) (e₁ : v₁.ty = t₁) (e₂ : v₂.ty = t₂)
    (hop : ∀ a b, S a → S b → a.ty = y → b.ty = y → Gives S E t p (op a b)) :
    Gives S E t ((castOk .bitcast t₁ y = true ∧ castOk .bitcast t₂ y = true) ∧ p)
      (do let a ← createBitCast v₁ y; let b ← createBitCast v₂ y; op a b) := by
  refine ((gives_bitCast y h₁ e₁).bind fun a ha ta =>
    (gives_bitCast y h₂ e₂).bind fun b hb tb => hop a b ha hb ta tb).congr ?_
  exact and_assoc.symm

theorem createNot_gives (hc : ∀ v, v.isConst = true → S v) (h₁ : S v₁) (e₁ : v₁.ty = t₁) :
    Gives S E t₁ (t₁.isIntOrIntVector = true) (createNot v₁ : OpCode) := by
  subst e₁
  exact (gives_bin .xor h₁ (hc _ rfl) rfl rfl).congr (by simp [allOnes, BinOp.okAt, BinOp.isFP])

/-- The end of `X_TO_Y_EMIT`. -/
theorem castThen_gives {y : CastOp} {w z : Scalar}
    (hg : castOk y (.scalar w) (.scalar z) = true) (h₁ : S v₁) (e₁ : v₁.ty = t₁) :
    Gives S E (.scalar z) (castOk .bitcast t₁ (.scalar w) = true)
      (do let a ← createBitCast v₁ (.scalar w); createCast y a (.scalar z) : OpCode) :=
  ((gives_bitCast (.scalar w) h₁ e₁).bind fun _ ha ta =>
    gives_cast y (.scalar z) ha ta).congr (and_iff_left hg)

theorem emitXToY_gives {y : CastOp} {w z : Scalar} (hg : (xToY y w z).good = true) (h₁ : S v₁)
    (e₁ : v₁.ty = t₁) :
    Gives S E (.scalar z) ((xToY y w z).accepts helpers [t₁] = true) (emitXToY y w z v₁) := by
  subst e₁
  have hext : ∀ k : CastOp, Gives S E (.scalar z)
      (castOk .bitcast v₁.ty (.int v₁.ty.bits) = true ∧
        castOk k (.int v₁.ty.bits) (.scalar w) = true)
      (do
        let v ← createBitCast v₁ (.int v₁.ty.bits)
        let v ← createCast k v (.scalar w)
        let v ← createBitCast v (.scalar w)
        createCast y v (.scalar z) : OpCode) := by
    intro k
    refine ((gives_bitCast _ h₁ rfl).bind fun a ha ta => (gives_cast k (.scalar w) ha ta).bind
      fun b hb tb => castThen_gives hg hb tb).congr ?_
    simp
  unfold emitXToY
  change Gives S E _ ((if _ then _ else if _ then _ else _) = true) _
  dsimp only
  by_cases hlt : v₁.ty.bits < w.bits
  · rw [if_pos hlt, if_pos hlt, Bool.and_eq_true]
    exact hext .zext
  · rw [if_neg hlt, if_neg hlt]
    by_cases hgt : w.bits < v₁.ty.bits
    · rw [if_pos hgt, if_pos hgt, Bool.and_eq_true]
      exact hext .trunc
    · rw [if_neg hgt, if_neg hgt]
      exact castThen_gives hg h₁ rfl

theorem emitXhiToY_gives (hc : ∀ v, v.isConst = true → S v) {y : ℕ}
    (hg : (xhiToY y).good = true) (h₁ : S v₁) (e₁ : v₁.ty = t₁) :
    Gives S E (.int y) ((xhiToY y).accepts helpers [t₁] = true) (emitXhiToY y v₁) := by
  refine ((gives_bitCast (.int (2 * y)) h₁ e₁).bind fun a ha ta =>
    (gives_bin .lshr ha (hc _ rfl) ta (ty_constInt _ _)).bind fun b hb tb =>
      gives_trunc (.int y) hb tb).congr ?_
  have hg' : castOk .trunc (.int (2 * y)) (.int y) = true := hg
  change _ ↔ castOk _ _ _ = true
  simp [hg', Nat.mul_comm y 2, BinOp.okAt, BinOp.isFP, Ty.isIntOrIntVector, Ty.elem?,
    Scalar.isInt]

@[simp] theorem ty_get32i (i : ℕ) : (get32i i).ty = .int 32 := rfl

theorem emitUnopvNot_gives (hc : ∀ v, v.isConst = true → S v) {y : Ty}
    (hg : (unopvNot y).good = true) (h₁ : S v₁) (e₁ : v₁.ty = t₁) :
    Gives S E y ((unopvNot y).accepts helpers [t₁] = true) (emitUnopvNot y v₁) :=
  ((gives_bitCast y h₁ e₁).bind fun _ ha ta => createNot_gives hc ha ta).congr (and_iff_left hg)

theorem emitDup8x16_gives (hc : ∀ v, v.isConst = true → S v) (h₁ : S v₁) (e₁ : v₁.ty = t₁) :
    Gives S E (.int 128) (dup8x16.accepts helpers [t₁] = true) (emitDup8x16 v₁) := by
  refine ((gives_zext (.int 128) h₁ e₁).bind fun a ha ta =>
    gives_foldlM [1, 2, 3, 4] ha ta fun i _ v hv tv =>
      ((gives_bin .shl hv (hc _ rfl) tv (ty_constInt _ _)).bind fun b hb tb =>
        gives_bin .or hv hb tv tb).congr (show _ ↔ True from ?_)).congr ?_
  · simp [BinOp.okAt, BinOp.isFP]
  · change _ ↔ castOk _ _ _ = true
    simp

theorem emitGetElem_gives {e w : ℕ} (h₁ : S v₁) (h₂ : S v₂) (e₁ : v₁.ty = t₁)
    (e₂ : v₂.ty = t₂) :
    Gives S E (.int w) ((getElem e w).accepts helpers [t₁, t₂] = true)
      (emitGetElem e w v₁ v₂) :=
  ((gives_bitCast (.vec e (.int w)) h₁ e₁).bind fun _ ha ta =>
    gives_extract ha h₂ ta e₂).congr Bool.and_eq_true_iff.symm

theorem emitSetElem_gives {e w : ℕ} (h₁ : S v₁) (h₂ : S v₂) (h₃ : S v₃) (e₁ : v₁.ty = t₁)
    (e₂ : v₂.ty = t₂) (e₃ : v₃.ty = t₃) :
    Gives S E (.vec e (.int w)) ((setElem e w).accepts helpers [t₁, t₂, t₃] = true)
      (emitSetElem e w v₁ v₂ v₃) :=
  ((gives_bitCast (.vec e (.int w)) h₁ e₁).bind fun _ ha ta =>
    gives_insert ha h₃ h₂ ta e₃ e₂).congr (by
      change _ ↔ (_ && _ && _) = true
      simp [and_assoc])

theorem emitV128to64_gives (hc : ∀ v, v.isConst = true → S v) {i : ℕ} (h₁ : S v₁)
    (e₁ : v₁.ty = t₁) :
    Gives S E (.int 64) ((v128to64 i).accepts helpers [t₁] = true) (emitV128to64 i v₁) :=
  ((gives_bitCast (.vec 2 (.int 64)) h₁ e₁).bind fun _ ha ta =>
    gives_extract ha (hc (get32i i) rfl) ta rfl).congr (and_iff_left rfl)

theorem emitHLto_gives (hc : ∀ v, v.isConst = true → S v) {x y : ℕ} (h₁ : S v₁) (h₂ : S v₂)
    (e₁ : v₁.ty = t₁) (e₂ : v₂.ty = t₂) :
    Gives S E (.int y) ((hlTo x y).accepts helpers [t₁, t₂] = true) (emitHLto x y v₁ v₂) := by
  refine ((gives_zext (.int y) h₁ e₁).bind fun a ha ta =>
    (gives_zext (.int y) h₂ e₂).bind fun b hb tb =>
      (gives_bin .shl ha (hc _ rfl) ta (ty_constInt _ _)).bind fun c hc' tc =>
        gives_bin .or hb hc' tb tc).congr ?_
  change _ ↔ (_ && _) = true
  simp [BinOp.okAt, BinOp.isFP]

theorem emitUtoV128_gives (h₁ : S v₁) (e₁ : v₁.ty = t₁) :
    Gives S E (.vec 16 (.int 8)) (utoV128.accepts helpers [t₁] = true) (emitUtoV128 v₁) := by
  refine ((gives_zext (.int 128) h₁ e₁).bind fun a ha ta => gives_bitCast _ ha ta).congr ?_
  exact and_iff_left (castOk_bitcast_vec 16 128 (.int 8) rfl)

theorem emitHL64toV128_gives (hc : ∀ v, v.isConst = true → S v) (h₁ : S v₁) (h₂ : S v₂)
    (e₁ : v₁.ty = t₁) (e₂ : v₂.ty = t₂) :
    Gives S E (.vec 16 (.int 8)) (hl64toV128.accepts helpers [t₁, t₂] = true)
      (emitHL64toV128 v₁ v₂) := by
  refine (bitCast₂_gives h₁ h₂ e₁ e₂ fun a b ha hb ta tb =>
    (show Gives S E (.int 128) ((hlTo 64 128).accepts helpers [.int 64, .int 64] = true) _ from
      emitHLto_gives hc ha hb ta tb).bind fun c hc' tc =>
      gives_bitCast _ hc' tc).congr ?_
  change _ ↔ (_ && _) = true
  rw [Bool.and_eq_true]
  exact and_iff_left ⟨rfl, castOk_bitcast_vec 16 128 (.int 8) rfl⟩

theorem emitGetMSBs8x_gives (hc : ∀ v, v.isConst = true → S v) {x : ℕ}
    (hg : (getMSBs8x x).good = true) (h₁ : S v₁) (e₁ : v₁.ty = t₁) :
    Gives S E (.int x) ((getMSBs8x x).accepts helpers [t₁] = true) (emitGetMSBs8x x v₁) := by
  change (decide _ && _) = true at hg
  simp only [Bool.and_eq_true, decide_eq_true_eq] at hg
  refine ((gives_bitCast (.vec x (.int 8)) h₁ e₁).bind fun a ha ta =>
    gives_foldlM (List.range x) (hc _ rfl) (ty_constInt _ _) fun i _ v hv tv =>
      ((gives_extract ha (hc (get32i i) rfl) ta rfl).bind fun b hb tb =>
        (gives_bin .lshr hb (hc _ rfl) tb (ty_constInt _ _)).bind fun c hc' tc =>
          (gives_zext (.int x) hc' tc).bind fun d hd td =>
            (gives_bin .shl hd (hc _ rfl) td (ty_constInt _ _)).bind fun e he te =>
              gives_bin .or hv he tv te).congr (show _ ↔ True from ?_)).congr ?_
  · simp [hg.2, BinOp.okAt, BinOp.isFP]
  · change _ ↔ castOk _ _ _ = true
    simp

theorem emitBinop_gives {y : Create2} (h₁ : S v₁) (h₂ : S v₂) (e₁ : v₁.ty = t₁)
    (e₂ : v₂.ty = t₂) :
    Gives S E (y.resTy t₁) ((binop y).accepts helpers [t₁, t₂] = true) (emitBinop y v₁ v₂) := by
  subst e₁
  exact ((gives_zext v₁.ty h₂ e₂).bind fun a ha ta =>
    create2_gives y h₁ ha rfl ta).congr (by
      change _ ↔ (_ && _) = true
      simp)

theorem emitBinopExpand_gives {y : CastOp} {z : Scalar} {w : BinOp}
    (hg : w.okAt (.scalar z) = true) (h₁ : S v₁) (h₂ : S v₂) (e₁ : v₁.ty = t₁)
    (e₂ : v₂.ty = t₂) :
    Gives S E (.scalar z) (castOk y t₁ (.scalar z) = true ∧ castOk y t₂ (.scalar z) = true)
      (emitBinopExpand y z w v₁ v₂) :=
  ((gives_cast y (.scalar z) h₁ e₁).bind fun _ ha ta =>
    (gives_cast y (.scalar z) h₂ e₂).bind fun _ hb tb =>
      gives_bin w ha hb ta tb).congr (by simp [hg])

/-- The lane loops: lanes of type `t`, each legal exactly when `p` holds. -/
theorem insertLanes_gives (hc : ∀ v, v.isConst = true → S v) {n : ℕ} {s : Scalar} {t : Ty}
    {p : Prop} {elem : ℕ → OpCode} (helem : ∀ i, Gives S E t p (elem i)) :
    Gives S E (.vec n s) (0 < n → p ∧ t = .scalar s) (insertLanes n s elem) := by
  refine ((gives_bitCast (.vec n s) (hc _ rfl) (ty_constInt _ _)).bind fun r hr tr =>
    gives_foldlM (List.range n) hr tr fun i _ v hv tv =>
      (helem i).bind fun e he te =>
        gives_insert hv he (hc (get32i i) rfl) tv te rfl).congr ?_
  simp [castOk_bitcast_vec n (n * s.bits) s rfl, Nat.pos_iff_ne_zero]

theorem emitBincmp_gives (hc : ∀ v, v.isConst = true → S v) {n : ℕ} {s : Scalar} {z : Create2}
    (hg : (bincmp n s z).good = true) (h₁ : S v₁) (h₂ : S v₂) (e₁ : v₁.ty = t₁)
    (e₂ : v₂.ty = t₂) :
    Gives S E (.vec n s) ((bincmp n s z).accepts helpers [t₁, t₂] = true)
      (emitBincmp n s z v₁ v₂) := by
  change (_ && _ && _ == _) = true at hg
  simp only [Bool.and_eq_true, beq_iff_eq] at hg
  refine (bitCast₂_gives h₁ h₂ e₁ e₂ fun a b ha hb ta tb =>
    insertLanes_gives hc fun i =>
      (gives_extract ha (hc (get32i i) rfl) ta (ty_get32i i)).bind fun c hc' tc =>
        (gives_extract hb (hc (get32i i) rfl) tb (ty_get32i i)).bind fun d hd td =>
          (create2_gives z hc' hd tc td).bind fun e he te =>
            gives_select he hc' hd te tc td).congr ?_
  change _ ↔ (_ && _) = true
  simp [hg.1.2, hg.2]

theorem emitShift_gives {y : BinOp} {b : ℕ} (h₁ : S v₁) (h₂ : S v₂) (e₁ : v₁.ty = t₁)
    (e₂ : v₂.ty = t₂) :
    Gives S E t₁ ((shift y b).accepts helpers [t₁, t₂] = true) (emitShift y b v₁ v₂) := by
  subst e₁
  exact ((gives_trunc (.int b) h₂ e₂).bind fun a ha ta =>
    (gives_zext v₁.ty ha ta).bind fun c hc' tc =>
      gives_bin y h₁ hc' rfl tc).congr (by
        change _ ↔ (_ && _ && _) = true
        simp [and_assoc])

theorem emitDivmod_gives (hc : ∀ v, v.isConst = true → S v) {signed : Bool} {w : ℕ}
    (hg : (divmod signed w).good = true) (h₁ : S v₁) (h₂ : S v₂) (e₁ : v₁.ty = t₁)
    (e₂ : v₂.ty = t₂) :
    Gives S E (.int w) ((divmod signed w).accepts helpers [t₁, t₂] = true)
      (emitDivmod signed w v₁ v₂) := by
  change (_ && _) = true at hg
  rw [Bool.and_eq_true] at hg
  refine ((gives_bitCast (.int w) h₁ e₁).bind fun a ha ta =>
    (gives_cast _ (.int w) h₂ e₂).bind fun b hb tb =>
      (gives_bin _ ha hb ta tb).bind fun d hd td =>
        (gives_bin _ ha hb ta tb).bind fun r hr tr =>
          (gives_bin .shl hr (hc _ rfl) tr (ty_constInt _ _)).bind fun r' hr' tr' =>
            (gives_trunc (.int (w / 2)) hd td).bind fun d₁ hd₁ td₁ =>
              (gives_zext (.int w) hd₁ td₁).bind fun d₂ hd₂ td₂ =>
                gives_bin .or hd₂ hr' td₂ tr').congr ?_
  change _ ↔ (_ && _) = true
  cases signed <;> simp [hg.1, hg.2, BinOp.okAt, BinOp.isFP]

theorem emitSetV128lo_gives (hc : ∀ v, v.isConst = true → S v) {n w : ℕ} (h₁ : S v₁)
    (h₂ : S v₂) (e₁ : v₁.ty = t₁) (e₂ : v₂.ty = t₂) :
    Gives S E (.vec n (.int w)) ((setV128lo n w).accepts helpers [t₁, t₂] = true)
      (emitSetV128lo n w v₁ v₂) :=
  ((gives_bitCast (.vec n (.int w)) h₁ e₁).bind fun _ ha ta =>
    gives_insert ha h₂ (hc (get32i 0) rfl) ta e₂ rfl).congr (by
      change _ ↔ (_ && _ == _) = true
      simp)

theorem callHelper_gives {f : String} {args : List Value} (ts : List Ty)
    (hE : (helpers f).isNone = true → E) (ha : ∀ a ∈ args, S a) (hs : args.map Value.ty = ts) :
    Gives S E (helperTy helpers f) (takes helpers f ts = true) (callHelper helpers f args) := by
  unfold callHelper helperTy takes
  cases hf : helpers f with
  | none => exact gives_fail _ (hE (by rw [hf]; rfl))
  | some sig => exact (gives_call ha hs).congr (by simp)

theorem emitHelperUnopVec_gives (hc : ∀ v, v.isConst = true → S v) {n w : ℕ} {f : String}
    (hE : (helpers f).isNone = true → E) (hg : (helperUnopVec n w f).good = true) (h₁ : S v₁)
    (e₁ : v₁.ty = t₁) :
    Gives S E (.vec n (.int w)) ((helperUnopVec n w f).accepts helpers [t₁] = true)
      (emitHelperUnopVec helpers n w f v₁) := by
  have hn : 0 < n := of_decide_eq_true hg
  refine ((gives_bitCast (.vec n (.int w)) h₁ e₁).bind fun a ha ta => ?_).congr (p :=
    castOk .bitcast t₁ (.vec n (.int w)) = true ∧
      (takes helpers f [.int w] = true ∧ helperTy helpers f = .int w)) (by
        change _ ↔ (_ && _ && _ == _) = true
        simp [and_assoc])
  cases hf : helpers f with
  | none => exact gives_fail _ (hE (by rw [hf]; rfl))
  | some sig =>
      refine (insertLanes_gives hc fun i =>
        (gives_extract ha (hc (get32i i) rfl) ta (ty_get32i i)).bind fun b hb tb =>
          gives_call (by simpa using hb) (show [b].map Value.ty = [.int w] by simp [tb])).congr ?_
      simp [hn, takes, helperTy, hf]

theorem emitHelperBinop_gives {f : String} {z : Scalar} (hE : (helpers f).isNone = true → E)
    (h₁ : S v₁) (h₂ : S v₂) (e₁ : v₁.ty = t₁) (e₂ : v₂.ty = t₂) :
    Gives S E (helperTy helpers f) ((helperBinop f z).accepts helpers [t₁, t₂] = true)
      (emitHelperBinop helpers f z v₁ v₂) := by
  refine (bitCast₂_gives h₁ h₂ e₁ e₂ fun a b ha hb ta tb =>
    callHelper_gives [.scalar z, .scalar z] hE (by simp [ha, hb]) (by simp [ta, tb])).congr ?_
  change _ ↔ (_ && _ && _) = true
  simp

theorem emitHelperCast_gives {f : String} {z : Scalar} (hE : (helpers f).isNone = true → E)
    (h₁ : S v₁) (e₁ : v₁.ty = t₁) :
    Gives S E (helperTy helpers f) (castOk .bitcast t₁ (.scalar z) = true ∧ takes helpers f
      [.scalar z] = true)
      (emitHelperCast helpers f z v₁) := by
  unfold emitHelperCast helperTy takes
  cases hf : helpers f with
  | none => exact gives_fail _ (hE (by rw [hf]; rfl))
  | some sig =>
      exact ((gives_bitCast (.scalar z) h₁ e₁).bind fun a ha ta =>
        gives_call (by simpa using ha) (show [a].map Value.ty = [.scalar z] by simp [ta])).congr
          (by simp)

theorem emitIleave_gives {mask : List ℕ} {n w : ℕ} (hg : (ileave mask n w).good = true) (h₁ : S v₁)
    (h₂ : S v₂) (e₁ : v₁.ty = t₁) (e₂ : v₂.ty = t₂) :
    Gives S E (.vec mask.length (.int w)) ((ileave mask n w).accepts helpers [t₁, t₂] = true)
      (emitIleave mask n w v₁ v₂) := by
  refine (bitCast₂_gives h₁ h₂ e₁ e₂ fun a b ha hb ta tb => gives_shuffle ha hb ta tb ?_).congr ?_
  · change (mask.all fun _ => _) = true at hg
    simpa using hg
  · change _ ↔ (_ && _) = true
    simp

theorem emitOpv_gives {y : Ty} {z : Create2} (hg : (opv y z).good = true) (h₁ : S v₁) (h₂ : S v₂)
    (e₁ : v₁.ty = t₁) (e₂ : v₂.ty = t₂) :
    Gives S E (z.resTy y) ((opv y z).accepts helpers [t₁, t₂] = true) (emitOpv y z v₁ v₂) := by
  have hg : z.okAt y = true := hg
  refine (bitCast₂_gives h₁ h₂ e₁ e₂ fun a b ha hb ta tb => create2_gives z ha hb ta tb).congr ?_
  change _ ↔ (_ && _) = true
  simp [hg]

theorem okAt_vec_int {n w : ℕ} (o : BinOp) (ho : o.isFP = false) :
    o.okAt (.vec n (.int w)) = true :=
  BinOp.okAt_of_isFP ho rfl

theorem okAt_int {w : ℕ} (o : BinOp) (ho : o.isFP = false) : o.okAt (.int w) = true :=
  BinOp.okAt_of_isFP ho rfl

theorem emitOpvExt_gives (hc : ∀ v, v.isConst = true → S v) {n w : ℕ} {z : CastOp} {o : BinOp}
    (hg : (opvExt n w z o).good = true) (h₁ : S v₁) (h₂ : S v₂) (e₁ : v₁.ty = t₁)
    (e₂ : v₂.ty = t₂) :
    Gives S E (.vec n (.int w)) ((opvExt n w z o).accepts helpers [t₁, t₂] = true)
      (emitOpvExt n w z o v₁ v₂) := by
  change (decide _ && _ && !_ && _ && _) = true at hg
  simp only [Bool.and_eq_true, decide_eq_true_eq, Bool.not_eq_true'] at hg
  obtain ⟨⟨⟨⟨hn, hext⟩, ho⟩, htr⟩, hz⟩ := hg
  have hshuf : ∀ i ∈ List.replicate n 0, i < 2 * n := fun i hi => by
    rw [List.eq_of_mem_replicate hi]
    omega
  refine ((gives_bitCast (.vec n (.int w)) h₁ e₁).bind fun a ha ta =>
    (gives_cast z (.vec n (.int (2 * w))) ha ta).bind fun a' ha' ta' =>
      (gives_bitCast (.vec n (.int w)) h₂ e₂).bind fun b hb tb =>
        (gives_cast z (.vec n (.int (2 * w))) hb tb).bind fun b' hb' tb' =>
          (gives_bin o ha' hb' ta' tb').bind fun full hf tf =>
            (gives_zext (.int (Ty.vec n (.int (2 * w))).bits) (hc (constInt (w * 2) w) rfl)
              (ty_constInt _ _)).bind fun s hs ts =>
              (gives_bitCast (.vec n (.int (2 * w))) hs ts).bind fun s₁ hs₁ ts₁ =>
                (gives_shuffle hs₁ hs₁ ts₁ ts₁ hshuf).bind fun s₂ hs₂ ts₂ =>
                  (gives_bin .lshr hf hs₂ tf ts₂).bind fun v hv tv =>
                    gives_trunc (.vec n (.int w)) hv tv).congr ?_
  have hb : castOk .bitcast (.int (n * (2 * w))) (.vec n (.int (2 * w))) = true :=
    castOk_bitcast_vec n _ (.int (2 * w)) rfl
  change _ ↔ (_ && _) = true
  simp [hext, htr, hz, hb, okAt_vec_int o ho, okAt_vec_int .lshr rfl]

theorem emitNrwssLane_gives (hc : ∀ v, v.isConst = true → S v) {n w c negC : ℕ}
    (hg : castOk .trunc (.int w) (.int (w / 2)) = true) (h₁ : S v₁) (e₁ : v₁.ty = .vec n (.int w))
    (i : ℕ) : Gives S E (.int (w / 2)) True (emitNrwssLane w c negC v₁ i) := by
  refine ((gives_extract h₁ (hc (get32i i) rfl) e₁ (ty_get32i i)).bind fun a ha ta =>
    (gives_icmp .sgt ha (hc (constInt w c) rfl) ta (ty_constInt _ _)).bind fun gt hgt tgt =>
      (gives_select hgt (hc (constInt w c) rfl) ha tgt (ty_constInt _ _) ta).bind fun b hb tb =>
        (gives_icmp .slt hb (hc (constInt w negC) rfl) tb (ty_constInt _ _)).bind fun lt hlt tlt =>
          (gives_select hlt (hc (constInt w negC) rfl) hb tlt (ty_constInt _ _) tb).bind
            fun d hd td => gives_trunc (.int (w / 2)) hd td).congr ?_
  simp [hg, Ty.cmpResult, Ty.withElem]

theorem emitOpnrwss_gives (hc : ∀ v, v.isConst = true → S v) {n w c negC : ℕ}
    (hg : (opnrwss n w c negC).good = true) (h₁ : S v₁) (h₂ : S v₂) (e₁ : v₁.ty = t₁)
    (e₂ : v₂.ty = t₂) :
    Gives S E (.vec (2 * n) (.int (w / 2))) ((opnrwss n w c negC).accepts helpers [t₁, t₂] = true)
      (emitOpnrwss n w c negC v₁ v₂) := by
  change (decide _ && _) = true at hg
  simp only [Bool.and_eq_true, decide_eq_true_eq] at hg
  have hloop : ∀ {v r : Value} (k : ℕ), S v → v.ty = .vec n (.int w) → S r →
      r.ty = .vec (2 * n) (.int (w / 2)) →
      Gives S E (.vec (2 * n) (.int (w / 2))) True ((List.range n).foldlM (fun result i => do
        let elem ← emitNrwssLane w c negC v i
        createInsertElement result elem (get32i (i + k))) r : OpCode) := by
    intro v r k hv tv hr tr
    refine (gives_foldlM (p := True) (List.range n) hr tr fun i _ u hu tu =>
      ((emitNrwssLane_gives hc hg.2 hv tv i).bind fun e he te =>
        gives_insert hu he (hc (get32i (i + k)) rfl) tu te rfl).congr ?_).congr (by simp)
    simp
  refine (bitCast₂_gives h₁ h₂ e₁ e₂ fun a b ha hb ta tb =>
    (gives_bitCast (.vec (2 * n) (.int (w / 2))) (hc _ rfl) (ty_constInt _ _)).bind fun r hr tr =>
      (hloop 0 hb tb hr tr).bind fun r' hr' tr' => hloop n ha ta hr' tr').congr ?_
  change _ ↔ (_ && _) = true
  simp [castOk_bitcast_vec (2 * n) (2 * n * (w / 2)) (.int (w / 2)) rfl, Scalar.bits]

theorem emitClamp_gives (hc : ∀ v, v.isConst = true → S v) {w : ℕ} {c : Clamp}
    (hg : c.good w = true) (h₁ : S v₁) (e₁ : v₁.ty = .int (w + 1)) :
    Gives S E (.int (w + 1)) True (emitClamp w (w + 1) v₁ c) := by
  have hstep : ∀ (ext : CastOp) (k : ℕ) (p : IPred), castOk ext (.int w) (.int (w + 1)) = true →
      Gives S E (.int (w + 1)) True (do
        let b ← createCast ext (constInt w k) (.int (w + 1))
        let cmp ← createICmp p v₁ b
        createSelect cmp b v₁ : OpCode) := by
    intro ext k p hext
    refine ((gives_cast ext (.int (w + 1)) (hc (constInt w k) rfl) (ty_constInt _ _)).bind
      fun b hb tb => (gives_icmp p h₁ hb e₁ tb).bind fun cmp hcmp tcmp =>
        gives_select hcmp hb h₁ tcmp tb e₁).congr ?_
    simp [hext, Ty.cmpResult, Ty.withElem]
  cases c with
  | high k ext p => exact hstep ext k p hg
  | low k ext p => exact hstep ext k p hg

theorem castOk_trunc_succ (w : ℕ) : castOk .trunc (.int (w + 1)) (.int w) = true := by
  simp [castOk, CastOp.ok, Ty.sameShape, Ty.elem?, CastOp.elemOk]

theorem emitOpsat_gives (hc : ∀ v, v.isConst = true → S v) {n w : ℕ} {ext : CastOp} {op : BinOp}
    {clamps : List Clamp} (hg : (opsat n w ext op clamps).good = true) (h₁ : S v₁) (h₂ : S v₂)
    (e₁ : v₁.ty = t₁) (e₂ : v₂.ty = t₂) :
    Gives S E (.vec n (.int w)) ((opsat n w ext op clamps).accepts helpers [t₁, t₂] = true)
      (emitOpsat n w ext op clamps v₁ v₂) := by
  change (decide _ && _ && !_ && clamps.all _) = true at hg
  simp only [Bool.and_eq_true, decide_eq_true_eq, Bool.not_eq_true', List.all_eq_true] at hg
  obtain ⟨⟨⟨hn, hext⟩, ho⟩, hcl⟩ := hg
  refine (bitCast₂_gives h₁ h₂ e₁ e₂ fun a b ha hb ta tb =>
    (gives_cast ext (.vec n (.int (w + 1))) ha ta).bind fun a' ha' ta' =>
      (gives_cast ext (.vec n (.int (w + 1))) hb tb).bind fun b' hb' tb' =>
        (gives_bin op ha' hb' ta' tb').bind fun part hp tp =>
          insertLanes_gives hc fun i =>
            (gives_extract hp (hc (get32i i) rfl) tp (ty_get32i i)).bind fun e he te =>
              (gives_foldlM (p := True) clamps he te fun c hcm v hv tv =>
                emitClamp_gives hc (hcl c hcm) hv tv).bind fun d hd td =>
                gives_trunc (.int w) hd td).congr ?_
  change _ ↔ (_ && _) = true
  simp [hext, okAt_vec_int op ho, castOk_trunc_succ]

theorem castOk_trunc_double {w : ℕ} (hw : 0 < w) :
    castOk .trunc (.int (2 * w)) (.int w) = true := by
  have : w < 2 * w := by omega
  simp [castOk, CastOp.ok, Ty.sameShape, Ty.elem?, CastOp.elemOk, this]

theorem emitOpavg_gives (hc : ∀ v, v.isConst = true → S v) {n w : ℕ} {ext : CastOp}
    (hg : (opavg n w ext).good = true) (h₁ : S v₁) (h₂ : S v₂) (e₁ : v₁.ty = t₁)
    (e₂ : v₂.ty = t₂) :
    Gives S E (.vec n (.int w)) ((opavg n w ext).accepts helpers [t₁, t₂] = true)
      (emitOpavg n w ext v₁ v₂) := by
  change (decide _ && _) = true at hg
  simp only [Bool.and_eq_true, decide_eq_true_eq] at hg
  obtain ⟨⟨hn, hw⟩, hext⟩ := hg
  have hone : ∀ (o : BinOp) {e : Value}, o.isFP = false → S e → e.ty = .int (2 * w) →
      Gives S E (.int (2 * w)) True (createBin o e (constInt e.ty.bits 1) : OpCode) := by
    intro o e ho he te
    refine (gives_bin o he (hc (constInt e.ty.bits 1) rfl) te (ty_constInt _ _)).congr ?_
    simp [te, okAt_int o ho]
  refine (bitCast₂_gives h₁ h₂ e₁ e₂ fun a b ha hb ta tb =>
    (gives_cast ext (.vec n (.int (2 * w))) ha ta).bind fun a' ha' ta' =>
      (gives_cast ext (.vec n (.int (2 * w))) hb tb).bind fun b' hb' tb' =>
        (gives_bin .add ha' hb' ta' tb').bind fun part hp tp =>
          insertLanes_gives hc fun i =>
            (gives_extract hp (hc (get32i i) rfl) tp (ty_get32i i)).bind fun e he te =>
              (hone .add rfl he te).bind fun d hd td =>
                (hone .lshr rfl hd td).bind fun c hc' tc =>
                  gives_trunc (.int w) hc' tc).congr ?_
  change _ ↔ (_ && _) = true
  simp [hext, okAt_vec_int .add rfl, castOk_trunc_double hw]

theorem emitOphop_gives (hc : ∀ v, v.isConst = true → S v) {n w : ℕ} {aop : BinOp} {ext : CastOp}
    (hg : (ophop n w aop ext).good = true) (h₁ : S v₁) (h₂ : S v₂) (e₁ : v₁.ty = t₁)
    (e₂ : v₂.ty = t₂) :
    Gives S E (.int (n * w)) ((ophop n w aop ext).accepts helpers [t₁, t₂] = true)
      (emitOphop n w aop ext v₁ v₂) := by
  change (decide _ && _ && !_) = true at hg
  simp only [Bool.and_eq_true, decide_eq_true_eq, Bool.not_eq_true'] at hg
  obtain ⟨⟨⟨hn, hw⟩, hext⟩, ho⟩ := hg
  refine (bitCast₂_gives h₁ h₂ e₁ e₂ fun a b ha hb ta tb =>
    (insertLanes_gives hc fun i =>
      (gives_extract ha (hc (get32i i) rfl) ta (ty_get32i i)).bind fun l hl tl =>
        (gives_extract hb (hc (get32i i) rfl) tb (ty_get32i i)).bind fun r hr tr =>
          (gives_cast ext (.int (2 * w)) hl tl).bind fun l' hl' tl' =>
            (gives_cast ext (.int (2 * w)) hr tr).bind fun r' hr' tr' =>
              (gives_bin aop hl' hr' tl' tr').bind fun e he te =>
                (gives_bin .lshr he (hc (constInt (w * 2) 1) rfl) te (ty_constInt _ _)).bind
                  fun d hd td => gives_trunc (.int w) hd td).bind fun v hv tv =>
      gives_bitCast (.int (n * w)) hv tv).congr ?_
  change _ ↔ (_ && _) = true
  simp [hext, hn, okAt_int aop ho, okAt_int .lshr rfl,
    castOk_trunc_double hw, castOk_bitcast_int n (n * w) (.int w) rfl, Nat.mul_comm w 2]

theorem emitOpvCmp_gives {y w : Ty} {z : Create2} (hg : (opvCmp y z w).good = true) (h₁ : S v₁)
    (h₂ : S v₂) (e₁ : v₁.ty = t₁) (e₂ : v₂.ty = t₂) :
    Gives S E w ((opvCmp y z w).accepts helpers [t₁, t₂] = true) (emitOpvCmp y z w v₁ v₂) := by
  change (_ && _) = true at hg
  rw [Bool.and_eq_true] at hg
  refine (bitCast₂_gives h₁ h₂ e₁ e₂ fun a b ha hb ta tb =>
    (create2_gives z ha hb ta tb).bind fun c hc' tc => gives_cast .sext w hc' tc).congr ?_
  change _ ↔ (_ && _) = true
  simp [hg.1, hg.2]

theorem emitOpvs_gives (hc : ∀ v, v.isConst = true → S v) {n w : ℕ} {z : BinOp}
    (hg : (opvs n w z).good = true) (h₁ : S v₁) (h₂ : S v₂) (e₁ : v₁.ty = t₁) (e₂ : v₂.ty = t₂) :
    Gives S E (.vec n (.int w)) ((opvs n w z).accepts helpers [t₁, t₂] = true)
      (emitOpvs n w z v₁ v₂) := by
  change (decide _ && !_) = true at hg
  simp only [Bool.and_eq_true, decide_eq_true_eq, Bool.not_eq_true'] at hg
  have hshuf : ∀ i ∈ List.replicate n 0, i < 2 * n := fun i hi => by
    rw [List.eq_of_mem_replicate hi]
    omega
  refine ((gives_bitCast (.vec n (.int w)) h₁ e₁).bind fun a ha ta =>
    (gives_zext (.int (n * w)) h₂ e₂).bind fun b hb tb =>
      (?_ : Gives S E (.vec n (.int w)) True _)).congr (by
        change _ ↔ (_ && _) = true
        simp)
  have hvar : Gives S E (.vec n (.int w)) True (do
      let v2 ← createBitCast b (.vec n (.int w))
      let v2 ← createShuffleVector v2 v2 (List.replicate n 0)
      createBin z a v2 : OpCode) := by
    refine ((gives_bitCast (.vec n (.int w)) hb tb).bind fun c hc' tc =>
      (gives_shuffle hc' hc' tc tc hshuf).bind fun d hd td => gives_bin z ha hd ta td).congr ?_
    simp [okAt_vec_int z hg.2, castOk_bitcast_vec n (n * w) (.int w) rfl]
  cases b with
  | const t x => exact (gives_bin z ha (hc _ rfl) ta rfl).congr (by simp [okAt_vec_int z hg.2])
  | undef t => exact hvar
  | arg i t => exact hvar
  | inst id t => exact hvar

theorem emitOpshuf_gives (hc : ∀ v, v.isConst = true → S v) {n w : ℕ}
    (hg : (opshuf n w).good = true) (h₁ : S v₁) (h₂ : S v₂) (e₁ : v₁.ty = t₁) (e₂ : v₂.ty = t₂) :
    Gives S E (.vec n (.int w)) ((opshuf n w).accepts helpers [t₁, t₂] = true)
      (emitOpshuf n w v₁ v₂) := by
  change (decide _ && _) = true at hg
  simp only [Bool.and_eq_true, decide_eq_true_eq] at hg
  have hz : castOk .bitcast (.int (n * Scalar.bits (.int w))) (.vec n (.int w)) = true :=
    castOk_bitcast_vec n _ (.int w) rfl
  refine (bitCast₂_gives h₁ h₂ e₁ e₂ fun a b ha hb ta tb =>
    (gives_bitCast (.vec n (.int w)) (hc _ rfl) (ty_constInt _ _)).bind fun r hr tr =>
      (?_ : Gives S E (.vec n (.int w)) True _)).congr (by
        change _ ↔ (_ && _) = true
        simp [hz])
  -- The loop carries the last index with the element that was extracted for it.
  intro ok
  have hext : ∀ {i : Value}, S i → i.ty = .int 32 →
      Gives S E (.int w) True (createExtractElement a i : OpCode) := fun hi ti =>
    (gives_extract ha hi ta ti).congr (by simp)
  refine Ensures.bind ((Ensures.foldlM (I := fun _ st ok' => S st.1 ∧ st.1.ty = .vec n (.int w) ∧
    (∀ q ∈ st.2, S q.2 ∧ q.2.ty = .int w) ∧ (ok' ↔ ok)) ?_ (List.range n)
    ⟨hr, tr, by simp, Iff.rfl⟩).mono fun st ok' ⟨hst, tst, _, hok⟩ => ⟨hst, tst, by rw [hok]; simp⟩)
  rintro i l ⟨r, last⟩ ok' ⟨hr, tr, hlast, hok⟩
  refine Ensures.bind ((gives_extract hb (hc (get32i i) rfl) tb (ty_get32i i) ok').mono
    fun x ok₁ ⟨hx, tx, hok₁⟩ => Ensures.bind ((gives_zext (.int 32) hx tx ok₁).mono
      fun y ok₂ ⟨hy, ty, hok₂⟩ => ?_))
  have hok₂' : ok₂ ↔ ok := by
    rw [hok₂, hok₁, hok]
    simp [hg.2]
  have hput : ∀ {z : Value} {ok₃ : Prop}, S z → z.ty = .int w → (ok₃ ↔ ok) →
      Ensures S E (fun st ok' => S st.1 ∧ st.1.ty = .vec n (.int w) ∧
        (∀ q ∈ st.2, S q.2 ∧ q.2.ty = .int w) ∧ (ok' ↔ ok))
        (do let r' ← createInsertElement r z (get32i i); pure (r', some (y, z)) :
          Code EmitError (Value × Option (Value × Value))) ok₃ := by
    intro z ok₃ hz tz hok₃
    refine Ensures.bind ((gives_insert hr hz (hc (get32i i) rfl) tr tz (ty_get32i i) ok₃).mono
      fun r' ok₄ ⟨hr', tr', hok₄⟩ => ⟨hr', tr', ?_, ?_⟩)
    · rintro q ⟨⟩
      exact ⟨hz, tz⟩
    · rw [hok₄, hok₃]
      simp
  have hnew : Ensures S E (fun z ok₃ => S z ∧ z.ty = .int w ∧ (ok₃ ↔ ok))
      (createExtractElement a y : OpCode) ok₂ :=
    (hext hy ty ok₂).mono fun z ok₃ ⟨hz, tz, hok₃⟩ => ⟨hz, tz, by rw [hok₃, hok₂']; simp⟩
  cases last with
  | none => exact Ensures.bind (hnew.mono fun z ok₃ ⟨hz, tz, hok₃⟩ => hput hz tz hok₃)
  | some q =>
      dsimp only
      split
      · exact hput (hlast q rfl).1 (hlast q rfl).2 hok₂'
      · exact Ensures.bind (hnew.mono fun z ok₃ ⟨hz, tz, hok₃⟩ => hput hz tz hok₃)

theorem emitXToYRound_gives {y : CastOp} {w z : Scalar} (hg : (xToYRound y w z).good = true)
    (h₁ : S v₁) (e₁ : v₁.ty = t₁) :
    Gives S E (.scalar z) (castOk .bitcast t₁ (.scalar w) = true) (emitXToYRound y w z v₁) :=
  castThen_gives hg h₁ e₁

/-- The operation on the low lanes is legal exactly when `p` holds. -/
theorem emitF0x_gives (hc : ∀ v, v.isConst = true → S v) {n : ℕ} {s : Scalar} {p : Prop}
    {op : Value → Value → OpCode} {t : Ty}
    (hop : ∀ a b, S a → S b → a.ty = .scalar s → b.ty = .scalar s → Gives S E t p (op a b))
    (h₁ : S v₁) (h₂ : S v₂) (e₁ : v₁.ty = t₁) (e₂ : v₂.ty = t₂) :
    Gives S E (.vec n s) ((castOk .bitcast t₁ (.vec n s) = true ∧
      castOk .bitcast t₂ (.vec n s) = true) ∧ p ∧ t = .scalar s) (emitF0x n s op v₁ v₂) := by
  refine (bitCast₂_gives h₁ h₂ e₁ e₂ fun a b ha hb ta tb =>
    (gives_extract ha (hc (get32i 0) rfl) ta (ty_get32i 0)).bind fun c hc' tc =>
      (gives_extract hb (hc (get32i 0) rfl) tb (ty_get32i 0)).bind fun d hd td =>
        (hop c d hc' hd tc td).bind fun e he te =>
          gives_insert ha he (hc (get32i 0) rfl) ta te (ty_get32i 0)).congr ?_
  simp

theorem emitMask_gives {s : Scalar} (h₁ : S v₁) (e₁ : v₁.ty = t₁) :
    Gives S E (.scalar s) (castOk .sext t₁ (.int s.bits) = true) (emitMask s v₁) :=
  ((gives_cast .sext (.int s.bits) h₁ e₁).bind fun _ ha ta =>
    gives_bitCast (.scalar s) ha ta).congr (and_iff_left (castOk_bitcast_scalar s.bits s rfl))

theorem isFPOrFPVector_scalar {s : Scalar} (h : s.isInt = false) :
    (Ty.scalar s).isFPOrFPVector = true := by
  simp [Ty.isFPOrFPVector, Ty.elem?, h]

theorem castOk_sext_fp {s : Scalar} (h : s.isInt = false) :
    castOk .sext (.int 1) (.int s.bits) = true := by
  cases s with
  | int w => cases h
  | float => rfl
  | double => rfl

theorem emitOpf0x_gives (hc : ∀ v, v.isConst = true → S v) {n : ℕ} {s : Scalar} {z : BinOp}
    (hg : (opf0x n s z).good = true) (h₁ : S v₁) (h₂ : S v₂) (e₁ : v₁.ty = t₁) (e₂ : v₂.ty = t₂) :
    Gives S E (.vec n s) ((opf0x n s z).accepts helpers [t₁, t₂] = true)
      (emitOpf0x n s z v₁ v₂) := by
  have hg : z.okAt (.scalar s) = true := hg
  refine (emitF0x_gives hc (fun a b ha hb ta tb => gives_bin z ha hb ta tb) h₁ h₂ e₁ e₂).congr ?_
  change _ ↔ (_ && _) = true
  simp [hg]

theorem emitOpf0xCmp_gives (hc : ∀ v, v.isConst = true → S v) {n : ℕ} {s : Scalar} {z : FPred}
    (hg : (opf0xCmp n s z).good = true) (h₁ : S v₁) (h₂ : S v₂) (e₁ : v₁.ty = t₁)
    (e₂ : v₂.ty = t₂) :
    Gives S E (.vec n s) ((opf0xCmp n s z).accepts helpers [t₁, t₂] = true)
      (emitOpf0xCmp n s z v₁ v₂) := by
  have hs : s.isInt = false := by simpa using (show (!s.isInt) = true from hg)
  refine (emitF0x_gives hc (fun a b ha hb ta tb =>
    (gives_fcmp z ha hb ta tb).bind fun c hc' tc =>
      emitMask_gives hc' tc) h₁ h₂ e₁ e₂).congr ?_
  change _ ↔ (_ && _) = true
  simp [isFPOrFPVector_scalar hs, Ty.cmpResult, Ty.withElem, castOk_sext_fp hs]

theorem emitOpf0xSel_gives (hc : ∀ v, v.isConst = true → S v) {n : ℕ} {s : Scalar} {z : FPred}
    (hg : (opf0xSel n s z).good = true) (h₁ : S v₁) (h₂ : S v₂) (e₁ : v₁.ty = t₁)
    (e₂ : v₂.ty = t₂) :
    Gives S E (.vec n s) ((opf0xSel n s z).accepts helpers [t₁, t₂] = true)
      (emitOpf0xSel n s z v₁ v₂) := by
  have hs : s.isInt = false := by simpa using (show (!s.isInt) = true from hg)
  refine (emitF0x_gives hc (fun a b ha hb ta tb =>
    (gives_fcmp z ha hb ta tb).bind fun c hc' tc =>
      gives_select hc' ha hb tc ta tb) h₁ h₂ e₁ e₂).congr ?_
  change _ ↔ (_ && _) = true
  simp [isFPOrFPVector_scalar hs, Ty.cmpResult, Ty.withElem]

theorem ty_onesFP (t : Ty) : (onesFP t).ty = t := by
  unfold onesFP
  split <;> rfl

theorem isConst_onesFP (t : Ty) : (onesFP t).isConst = true := by
  unfold onesFP
  split <;> rfl

theorem okAt_fp {t : Ty} (o : BinOp) (ho : o.isFP = true) (ht : t.isFPOrFPVector = true) :
    o.okAt t = true := by
  simp [BinOp.okAt, ho, ht]

theorem emitRsqSteps_gives (hc : ∀ v, v.isConst = true → S v) {t : Ty}
    (ht : t.isFPOrFPVector = true) (steps : List RsqStep) (h₁ : S v₁) (e₁ : v₁.ty = t) :
    Gives S E t True (steps.foldlM (emitRsqStep t) v₁) := by
  refine (gives_foldlM (p := True) steps h₁ e₁ fun st _ v hv tv => ?_).congr (by simp)
  cases st with
  | sqrt =>
      exact (gives_call (by simpa using hv) (show [v].map Value.ty = [t] by simp [tv])).congr
        (iff_true_intro rfl)
  | rcp =>
      refine (gives_bin .fdiv (hc _ (isConst_onesFP t)) hv (ty_onesFP t) tv).congr ?_
      simp [okAt_fp .fdiv rfl ht]

theorem emitOpf0xRsq_gives (hc : ∀ v, v.isConst = true → S v) {n : ℕ} {s : Scalar}
    {steps : List RsqStep} (hg : (opf0xRsq n s steps).good = true) (h₁ : S v₁) (e₁ : v₁.ty = t₁) :
    Gives S E (.vec n s) (castOk .bitcast t₁ (.vec n s) = true) (emitOpf0xRsq n s steps v₁) := by
  have hs : s.isInt = false := by simpa using (show (!s.isInt) = true from hg)
  refine ((gives_bitCast (.vec n s) h₁ e₁).bind fun a ha ta =>
    (gives_extract ha (hc (get32i 0) rfl) ta (ty_get32i 0)).bind fun b hb tb =>
      (emitRsqSteps_gives hc (isFPOrFPVector_scalar hs) steps hb tb).bind fun c hc' tc =>
        gives_insert ha hc' (hc (get32i 0) rfl) ta tc (ty_get32i 0)).congr ?_
  simp

theorem emitOpvRsq_gives (hc : ∀ v, v.isConst = true → S v) {n : ℕ} {s : Scalar}
    {steps : List RsqStep} (hg : (opvRsq n s steps).good = true) (h₁ : S v₁) (e₁ : v₁.ty = t₁) :
    Gives S E (.vec n s) (castOk .bitcast t₁ (.vec n s) = true) (emitOpvRsq n s steps v₁) :=
  ((gives_bitCast (.vec n s) h₁ e₁).bind fun _ ha ta =>
    emitRsqSteps_gives hc (show (Ty.vec n s).isFPOrFPVector = true from hg) steps ha ta).congr
      (and_iff_left trivial)

theorem emitUnopNeg_gives (hc : ∀ v, v.isConst = true → S v) {y : Ty}
    (hg : (unopNeg y).good = true) (h₁ : S v₁) (e₁ : v₁.ty = t₁) :
    Gives S E y (castOk .bitcast t₁ y = true) (emitUnopNeg y v₁) :=
  ((gives_bitCast y h₁ e₁).bind fun _ ha ta =>
    gives_bin .fsub (hc (.const y 0) rfl) ha rfl ta).congr
      (and_iff_left ⟨rfl, okAt_fp .fsub rfl hg⟩)

theorem emitRoundToInt_gives (hc : ∀ v, v.isConst = true → S v) {s : Scalar}
    (hg : (roundToInt s).good = true) (h₁ : S v₁) (e₁ : v₁.ty = t₁) :
    Gives S E (.scalar s) (castOk .bitcast t₁ (.scalar s) = true) (emitRoundToInt s v₁) := by
  have hs : s.isInt = false := by simpa using (show (!s.isInt) = true from hg)
  have hfp := isFPOrFPVector_scalar hs
  refine ((gives_bitCast (.scalar s) h₁ e₁).bind fun a ha ta =>
    (gives_bin .frem ha (hc _ (isConst_onesFP _)) ta (ty_onesFP _)).bind fun b hb tb =>
      gives_bin .fsub ha hb ta tb).congr ?_
  simp [okAt_fp .frem rfl hfp, okAt_fp .fsub rfl hfp]

theorem emitPRemF64_gives (h₁ : S v₁) (h₂ : S v₂) (e₁ : v₁.ty = t₁) (e₂ : v₂.ty = t₂) :
    Gives S E .double (castOk .bitcast t₁ .double = true ∧ castOk .bitcast t₂ .double = true)
      (emitPRemF64 v₁ v₂) :=
  (bitCast₂_gives h₁ h₂ e₁ e₂ fun _ _ ha hb ta tb => gives_bin .frem ha hb ta tb).congr
    (and_iff_left ⟨rfl, rfl⟩)

theorem emitPRemFlag_gives (hc : ∀ v, v.isConst = true → S v) {q r : Value} (hq : S q) (hr : S r)
    (tq : q.ty = .int 32) (tr : r.ty = .int 32) (i c : ℕ) :
    Gives S E (.int 32) True (emitPRemFlag q r i c) := by
  have hrest : ∀ {q : Value}, S q → q.ty = .int 32 → Gives S E (.int 32) True (do
      let b ← createTrunc q (.int 1)
      let f ← createSelect b (get32i c) (get32i 0)
      createBin .or r f : OpCode) := fun hq tq =>
    ((gives_trunc (.int 1) hq tq).bind fun b hb tb =>
      (gives_select hb (hc (get32i c) rfl) (hc (get32i 0) rfl) tb (ty_get32i c) (ty_get32i 0)).bind
        fun f hf tf => gives_bin .or hr hf tr tf).congr (by
          simp [castOk, CastOp.ok, Ty.sameShape, Ty.elem?, CastOp.elemOk, okAt_int .or rfl])
  unfold emitPRemFlag
  split
  · exact hrest hq tq
  · exact ((gives_bin .lshr hq (hc (get32i i) rfl) tq (ty_get32i i)).bind fun a ha ta =>
      hrest ha ta).congr (by simp [okAt_int .lshr rfl])

theorem emitPRemC3210F64_gives (hc : ∀ v, v.isConst = true → S v) (h₁ : S v₁) (h₂ : S v₂)
    (e₁ : v₁.ty = t₁) (e₂ : v₂.ty = t₂) :
    Gives S E (.int 32) (castOk .bitcast t₁ .double = true ∧ castOk .bitcast t₂ .double = true)
      (emitPRemC3210F64 v₁ v₂) := by
  refine (bitCast₂_gives h₁ h₂ e₁ e₂ fun a b ha hb ta tb =>
    (gives_bin .fdiv ha hb ta tb).bind fun q hq tq =>
      (gives_cast .fptosi (.int 32) hq tq).bind fun k hk tk =>
        (emitPRemFlag_gives hc hk (hc (get32i 0) rfl) tk (ty_get32i 0) 0 0x200).bind fun r hr tr =>
          (emitPRemFlag_gives hc hk hr tk tr 1 0x4000).bind fun r' hr' tr' =>
            emitPRemFlag_gives hc hk hr' tk tr' 2 0x100).congr ?_
  exact and_iff_left ⟨⟨rfl, rfl⟩, rfl, trivial, trivial, trivial⟩

theorem emitMAddF64_gives (h₁ : S v₁) (h₂ : S v₂) (h₃ : S v₃) (e₁ : v₁.ty = t₁) (e₂ : v₂.ty = t₂)
    (e₃ : v₃.ty = t₃) :
    Gives S E t₁ ((t₁ = t₂ ∧ t₁ = t₃) ∧ t₁.isFPOrFPVector = true) (emitMAddF64 v₁ v₂ v₃) := by
  refine ((gives_bin .fmul h₁ h₂ e₁ e₂).bind fun m hm tm =>
    gives_bin .fadd hm h₃ tm e₃).congr ?_
  simp only [BinOp.okAt, BinOp.isFP, if_true]
  tauto

theorem emitToInt_gives {s : Scalar} (h₁ : S v₁) (e₁ : v₁.ty = .scalar s) :
    Gives S E (.int s.bits) True (emitToInt v₁) := by
  unfold emitToInt
  rw [e₁]
  cases s with
  | int w => exact gives_ret h₁ e₁
  | float => exact (gives_bitCast (.int 32) h₁ e₁).congr (iff_true_intro rfl)
  | double => exact (gives_bitCast (.int 64) h₁ e₁).congr (iff_true_intro rfl)

theorem emitSoftfloatOp_gives {f : String} {s : Scalar} (hE : (helpers f).isNone = true → E)
    (h₁ : S v₁) (h₂ : S v₂) (e₁ : v₁.ty = .scalar s) (e₂ : v₂.ty = .scalar s) :
    Gives S E (helperTy helpers f) (takes helpers f [.int s.bits, .int s.bits] = true)
      (emitSoftfloatOp helpers f v₁ v₂) := by
  unfold emitSoftfloatOp helperTy takes
  cases hf : helpers f with
  | none => exact gives_fail _ (hE (by rw [hf]; rfl))
  | some sig =>
      exact ((emitToInt_gives h₁ e₁).bind fun a ha ta => (emitToInt_gives h₂ e₂).bind
        fun b hb tb => gives_call (by simp [ha, hb])
          (show [a, b].map Value.ty = [.int s.bits, .int s.bits] by simp [ta, tb])).congr (by simp)

theorem emitOpf0xCmpSoftfloat_gives (hc : ∀ v, v.isConst = true → S v) {n : ℕ} {s : Scalar}
    {f : String} (hE : (helpers f).isNone = true → E) (hg : (opf0xCmpSoftfloat n s f).good = true)
    (h₁ : S v₁) (h₂ : S v₂) (e₁ : v₁.ty = t₁) (e₂ : v₂.ty = t₂) :
    Gives S E (.vec n s) ((opf0xCmpSoftfloat n s f).accepts helpers [t₁, t₂] = true)
      (emitOpf0xCmpSoftfloat helpers n s f v₁ v₂) := by
  have hg : castOk .sext (.int 1) (.int s.bits) = true := hg
  have hcmp : ∀ r : Ty, ((r = .int r.bits ∧ r.isIntOrIntVector = true) ∧
      castOk .sext r.cmpResult (.int s.bits) = true) ↔ r = .int r.bits := fun r =>
    ⟨fun h => h.1.1, fun h => by
      rw [h]
      exact ⟨⟨rfl, rfl⟩, hg⟩⟩
  refine (emitF0x_gives hc (fun a b ha hb ta tb =>
    (emitSoftfloatOp_gives hE ha hb ta tb).bind fun r hr tr => by
      rw [tr]
      exact ((gives_icmp .ne hr (hc (constInt _ 0) rfl) tr (ty_constInt _ _)).bind fun c hc' tc =>
        emitMask_gives hc' tc).congr (hcmp _)) h₁ h₂ e₁ e₂).congr ?_
  change _ ↔ (_ && _ && _ && _ == _) = true
  simp [and_assoc]

theorem emitOpf0xSoftfloat_gives (hc : ∀ v, v.isConst = true → S v) {n : ℕ} {s : Scalar}
    {f : String} (hE : (helpers f).isNone = true → E) (h₁ : S v₁) (h₂ : S v₂) (e₁ : v₁.ty = t₁)
    (e₂ : v₂.ty = t₂) :
    Gives S E (.vec n s) ((opf0xSoftfloat n s f).accepts helpers [t₁, t₂] = true)
      (emitF0x n s (emitSoftfloatOp helpers f) v₁ v₂) := by
  refine (emitF0x_gives hc (fun a b ha hb ta tb => emitSoftfloatOp_gives hE ha hb ta tb) h₁ h₂ e₁
    e₂).congr ?_
  change _ ↔ (_ && _ && _ && _ == _) = true
  simp [and_assoc]

theorem exists_four {α : Type} {l : List α} (h : l.length = 4) :
    ∃ a b c d, l = [a, b, c, d] := by
  obtain ⟨a, l, rfl⟩ := List.exists_cons_of_length_eq_add_one h
  obtain ⟨b, c, d, rfl⟩ := List.length_eq_three.1 (Nat.succ.inj h)
  exact ⟨a, b, c, d, rfl⟩

/-- An emitter on as many operands as it reads: what it hands back, and when all its
instructions are well formed. -/
theorem build_gives (hc : ∀ v, v.isConst = true → S v) (e : OpEmit) (hg : e.good = true)
    {vs : List Value} (hlen : vs.length = e.arity) (hS : ∀ v ∈ vs, S v)
    (hE : e.fails helpers (vs.map Value.ty) = true → E) :
    Gives S E (e.resTy helpers (vs.map Value.ty)) (e.accepts helpers (vs.map Value.ty) = true)
      (e.build helpers vs) := by
  have one : vs.length = 1 → ∃ a, vs = [a] ∧ S a := fun h => by
    obtain ⟨a, rfl⟩ := List.length_eq_one_iff.1 h
    exact ⟨a, rfl, hS a (by simp)⟩
  have two : vs.length = 2 → ∃ a b, vs = [a, b] ∧ S a ∧ S b := fun h => by
    obtain ⟨a, b, rfl⟩ := List.length_eq_two.1 h
    exact ⟨a, b, rfl, hS a (by simp), hS b (by simp)⟩
  have three : vs.length = 3 → ∃ a b c, vs = [a, b, c] ∧ S a ∧ S b ∧ S c := fun h => by
    obtain ⟨a, b, c, rfl⟩ := List.length_eq_three.1 h
    exact ⟨a, b, c, rfl, hS a (by simp), hS b (by simp), hS c (by simp)⟩
  cases e with
  | xToY y w z =>
      obtain ⟨v, rfl, h⟩ := one hlen
      exact emitXToY_gives hg h rfl
  | xhiToY y =>
      obtain ⟨v, rfl, h⟩ := one hlen
      exact emitXhiToY_gives hc hg h rfl
  | unopNot =>
      obtain ⟨v, rfl, h⟩ := one hlen
      exact createNot_gives hc h rfl
  | unopvNot y =>
      obtain ⟨v, rfl, h⟩ := one hlen
      exact emitUnopvNot_gives hc hg h rfl
  | dup8x16 =>
      obtain ⟨v, rfl, h⟩ := one hlen
      exact emitDup8x16_gives hc h rfl
  | v128to64 i =>
      obtain ⟨v, rfl, h⟩ := one hlen
      exact emitV128to64_gives hc h rfl
  | utoV128 =>
      obtain ⟨v, rfl, h⟩ := one hlen
      exact emitUtoV128_gives h rfl
  | getMSBs8x x =>
      obtain ⟨v, rfl, h⟩ := one hlen
      exact emitGetMSBs8x_gives hc hg h rfl
  | helperUnop f =>
      obtain ⟨v, rfl, h⟩ := one hlen
      exact callHelper_gives _ hE (by simpa using h) rfl
  | helperUnopVec n w f =>
      obtain ⟨v, rfl, h⟩ := one hlen
      exact emitHelperUnopVec_gives hc hE hg h rfl
  | opf0xRsq n s steps =>
      obtain ⟨v, rfl, h⟩ := one hlen
      exact emitOpf0xRsq_gives hc hg h rfl
  | opvRsq n s steps =>
      obtain ⟨v, rfl, h⟩ := one hlen
      exact emitOpvRsq_gives hc hg h rfl
  | unopNeg y =>
      obtain ⟨v, rfl, h⟩ := one hlen
      exact emitUnopNeg_gives hc hg h rfl
  | helperSoftfpUnop f z =>
      obtain ⟨v, rfl, h⟩ := one hlen
      exact (emitHelperCast_gives hE h rfl).congr Bool.and_eq_true_iff.symm
  | hi128to64 =>
      obtain ⟨v, rfl, h⟩ := one hlen
      change Gives S E _ ((v128to64 1).accepts helpers [v.ty] = true) (emitHi128to64 v)
      unfold emitHi128to64
      split
      · exact emitV128to64_gives hc h rfl
      · next hne => exact gives_fail _ (hE (by simpa [fails] using hne))
  | getElem e w =>
      obtain ⟨a, b, rfl, h₁, h₂⟩ := two hlen
      exact emitGetElem_gives h₁ h₂ rfl rfl
  | hlTo x y =>
      obtain ⟨a, b, rfl, h₁, h₂⟩ := two hlen
      exact emitHLto_gives hc h₁ h₂ rfl rfl
  | hl64toV128 =>
      obtain ⟨a, b, rfl, h₁, h₂⟩ := two hlen
      exact emitHL64toV128_gives hc h₁ h₂ rfl rfl
  | binop y =>
      obtain ⟨a, b, rfl, h₁, h₂⟩ := two hlen
      exact emitBinop_gives h₁ h₂ rfl rfl
  | binopExpand y z w =>
      obtain ⟨a, b, rfl, h₁, h₂⟩ := two hlen
      exact (emitBinopExpand_gives hg h₁ h₂ rfl rfl).congr Bool.and_eq_true_iff.symm
  | bincmp n s z =>
      obtain ⟨a, b, rfl, h₁, h₂⟩ := two hlen
      exact emitBincmp_gives hc hg h₁ h₂ rfl rfl
  | shift y b =>
      obtain ⟨a, b, rfl, h₁, h₂⟩ := two hlen
      exact emitShift_gives h₁ h₂ rfl rfl
  | divmod signed w =>
      obtain ⟨a, b, rfl, h₁, h₂⟩ := two hlen
      exact emitDivmod_gives hc hg h₁ h₂ rfl rfl
  | setV128lo n w =>
      obtain ⟨a, b, rfl, h₁, h₂⟩ := two hlen
      exact emitSetV128lo_gives hc h₁ h₂ rfl rfl
  | helperBinop f z =>
      obtain ⟨a, b, rfl, h₁, h₂⟩ := two hlen
      exact emitHelperBinop_gives hE h₁ h₂ rfl rfl
  | ileave mask n w =>
      obtain ⟨a, b, rfl, h₁, h₂⟩ := two hlen
      exact emitIleave_gives hg h₁ h₂ rfl rfl
  | opv y z =>
      obtain ⟨a, b, rfl, h₁, h₂⟩ := two hlen
      exact emitOpv_gives hg h₁ h₂ rfl rfl
  | opvExt n w z o =>
      obtain ⟨a, b, rfl, h₁, h₂⟩ := two hlen
      exact emitOpvExt_gives hc hg h₁ h₂ rfl rfl
  | opnrwss n w c negC =>
      obtain ⟨a, b, rfl, h₁, h₂⟩ := two hlen
      exact emitOpnrwss_gives hc hg h₁ h₂ rfl rfl
  | opsat n w ext op clamps =>
      obtain ⟨a, b, rfl, h₁, h₂⟩ := two hlen
      exact emitOpsat_gives hc hg h₁ h₂ rfl rfl
  | opavg n w ext =>
      obtain ⟨a, b, rfl, h₁, h₂⟩ := two hlen
      exact emitOpavg_gives hc hg h₁ h₂ rfl rfl
  | ophop n w aop ext =>
      obtain ⟨a, b, rfl, h₁, h₂⟩ := two hlen
      exact emitOphop_gives hc hg h₁ h₂ rfl rfl
  | opvCmp y z w =>
      obtain ⟨a, b, rfl, h₁, h₂⟩ := two hlen
      exact emitOpvCmp_gives hg h₁ h₂ rfl rfl
  | opvs n w z =>
      obtain ⟨a, b, rfl, h₁, h₂⟩ := two hlen
      exact emitOpvs_gives hc hg h₁ h₂ rfl rfl
  | opshuf n w =>
      obtain ⟨a, b, rfl, h₁, h₂⟩ := two hlen
      exact emitOpshuf_gives hc hg h₁ h₂ rfl rfl
  | xToYRound y w z =>
      obtain ⟨a, b, rfl, h₁, h₂⟩ := two hlen
      exact emitXToYRound_gives hg h₂ rfl
  | opf0x n s z =>
      obtain ⟨a, b, rfl, h₁, h₂⟩ := two hlen
      exact emitOpf0x_gives hc hg h₁ h₂ rfl rfl
  | opf0xCmp n s z =>
      obtain ⟨a, b, rfl, h₁, h₂⟩ := two hlen
      exact emitOpf0xCmp_gives hc hg h₁ h₂ rfl rfl
  | opf0xSel n s z =>
      obtain ⟨a, b, rfl, h₁, h₂⟩ := two hlen
      exact emitOpf0xSel_gives hc hg h₁ h₂ rfl rfl
  | roundToInt s =>
      obtain ⟨a, b, rfl, h₁, h₂⟩ := two hlen
      exact emitRoundToInt_gives hc hg h₂ rfl
  | opf0xCmpSoftfloat n s f =>
      obtain ⟨a, b, rfl, h₁, h₂⟩ := two hlen
      exact emitOpf0xCmpSoftfloat_gives hc hE hg h₁ h₂ rfl rfl
  | convertIgnoreRounding f z =>
      obtain ⟨a, b, rfl, h₁, h₂⟩ := two hlen
      exact (emitHelperCast_gives hE h₂ rfl).congr Bool.and_eq_true_iff.symm
  | opf0xSoftfloat n s f =>
      obtain ⟨a, b, rfl, h₁, h₂⟩ := two hlen
      exact emitOpf0xSoftfloat_gives hc hE h₁ h₂ rfl rfl
  | opnrw n w =>
      obtain ⟨a, b, rfl, h₁, h₂⟩ := two hlen
      refine ((gives_bitCast (.vec n (.int w)) h₁ rfl).bind fun _ _ _ =>
        (gives_bitCast (.vec n (.int w)) h₂ rfl).bind fun _ _ _ =>
          (gives_fail _ (hE rfl) : Gives S E _ False _)).congr ?_
      exact ⟨fun h => h.2.2.elim, fun h => by cases h⟩
  | setElem e w =>
      obtain ⟨a, b, c, rfl, h₁, h₂, h₃⟩ := three hlen
      exact emitSetElem_gives h₁ h₂ h₃ rfl rfl rfl
  | triopExpand y z w =>
      obtain ⟨a, b, c, rfl, h₁, h₂, h₃⟩ := three hlen
      exact (emitBinopExpand_gives hg h₂ h₃ rfl rfl).congr Bool.and_eq_true_iff.symm
  | pRemF64 =>
      obtain ⟨a, b, c, rfl, h₁, h₂, h₃⟩ := three hlen
      exact (emitPRemF64_gives h₂ h₃ rfl rfl).congr Bool.and_eq_true_iff.symm
  | pRemC3210F64 =>
      obtain ⟨a, b, c, rfl, h₁, h₂, h₃⟩ := three hlen
      exact (emitPRemC3210F64_gives hc h₂ h₃ rfl rfl).congr Bool.and_eq_true_iff.symm
  | helperIgnoreRounding f z =>
      obtain ⟨a, b, c, rfl, h₁, h₂, h₃⟩ := three hlen
      exact emitHelperBinop_gives hE h₂ h₃ rfl rfl
  | mAddF64 =>
      obtain ⟨a, b, c, d, rfl⟩ := exists_four hlen
      refine (emitMAddF64_gives (hS b (by simp)) (hS c (by simp)) (hS d (by simp)) rfl rfl
        rfl).congr ?_
      change _ ↔ (_ == _ && _ == _ && _) = true
      simp
  | unimpl => exact gives_fail _ (hE rfl)

end Gives

/-! ## Giving up -/

section Fails

variable {helpers : Helpers} {f : String}

theorem callHelper_quits (h : (helpers f).isNone = true) (vs : List Value) :
    (callHelper helpers f vs).Quits := by
  rw [Option.isNone_iff_eq_none] at h
  rw [callHelper, h]
  exact quits_fail _

theorem emitHelperBinop_quits (h : (helpers f).isNone = true) (z : Scalar) (a b : Value) :
    (emitHelperBinop helpers f z a b).Quits :=
  .bind fun _ => .bind fun _ => callHelper_quits h _

theorem emitHelperUnopVec_quits (h : (helpers f).isNone = true) (n w : ℕ) (a : Value) :
    (emitHelperUnopVec helpers n w f a).Quits := by
  rw [Option.isNone_iff_eq_none] at h
  rw [emitHelperUnopVec, h]
  exact .bind fun _ => quits_fail _

theorem emitF0x_quits {op : Value → Value → OpCode} (h : ∀ a b, (op a b).Quits) (n : ℕ)
    (s : Scalar) (a b : Value) : (emitF0x n s op a b).Quits :=
  .bind fun _ => .bind fun _ => .bind fun _ => .bind fun _ => (h _ _).bind_left _

theorem emitSoftfloatOp_quits (h : (helpers f).isNone = true) (a b : Value) :
    (emitSoftfloatOp helpers f a b).Quits := by
  rw [Option.isNone_iff_eq_none] at h
  rw [emitSoftfloatOp, h]
  exact quits_fail _

theorem emitHelperCast_quits (h : (helpers f).isNone = true) (z : Scalar) (a : Value) :
    (emitHelperCast helpers f z a).Quits := by
  rw [Option.isNone_iff_eq_none] at h
  rw [emitHelperCast, h]
  exact quits_fail _

/-- Where `fails` says so, the emitter ends the process. -/
theorem build_quits (e : OpEmit) {vs : List Value} (hlen : vs.length = e.arity)
    (h : e.fails helpers (vs.map Value.ty) = true) : (e.build helpers vs).Quits := by
  have one : vs.length = 1 → ∃ a, vs = [a] := List.length_eq_one_iff.1
  have two : vs.length = 2 → ∃ a b, vs = [a, b] := List.length_eq_two.1
  have three : vs.length = 3 → ∃ a b c, vs = [a, b, c] := List.length_eq_three.1
  cases e with
  | hi128to64 =>
      obtain ⟨v, rfl⟩ := one hlen
      have hne : v.ty.bits ≠ 128 := by simpa [fails] using h
      change (emitHi128to64 v).Quits
      rw [emitHi128to64, if_neg hne]
      exact quits_fail _
  | helperUnop f =>
      obtain ⟨v, rfl⟩ := one hlen
      exact callHelper_quits h _
  | helperUnopVec n w f =>
      obtain ⟨v, rfl⟩ := one hlen
      exact emitHelperUnopVec_quits h n w v
  | helperSoftfpUnop f z =>
      obtain ⟨v, rfl⟩ := one hlen
      exact emitHelperCast_quits h z v
  | helperBinop f z =>
      obtain ⟨a, b, rfl⟩ := two hlen
      exact emitHelperBinop_quits h z a b
  | opnrw n w =>
      obtain ⟨a, b, rfl⟩ := two hlen
      exact .bind fun _ => .bind fun _ => quits_fail _
  | opf0xSoftfloat n s f =>
      obtain ⟨a, b, rfl⟩ := two hlen
      exact emitF0x_quits (emitSoftfloatOp_quits h) n s a b
  | opf0xCmpSoftfloat n s f =>
      obtain ⟨a, b, rfl⟩ := two hlen
      exact emitF0x_quits (fun a b => (emitSoftfloatOp_quits h a b).bind_left _) n s a b
  | convertIgnoreRounding f z =>
      obtain ⟨a, b, rfl⟩ := two hlen
      exact emitHelperCast_quits h z b
  | helperIgnoreRounding f z =>
      obtain ⟨a, b, c, rfl⟩ := three hlen
      exact emitHelperBinop_quits h z b c
  | unimpl => exact quits_fail _
  | _ => cases h

end Fails

end OpEmit

/-! ## The operations -/

section Table

open Vex

theorem opEmit_good (fp : FPImpl) (op : Iop) : (opEmit fp op).good = true := by
  cases fp <;> cases op <;> rfl

/-- The class of an operation reads as many operands as its emitter. -/
theorem opEmit_arity (fp : FPImpl) (op : Iop) :
    opEmit fp op = .unimpl ∨ (opEmit fp op).arity = op.tagop := by
  cases fp <;> cases op <;> first | exact .inl rfl | exact .inr rfl

end Table

end VexLLVM
