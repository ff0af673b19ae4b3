import VexLLVM.LLVM.Compute
import VexLLVM.Lib.Words

/-!
# Vectors, lane by lane

A vector as the function that gives its lanes, what the instructions on vectors
do to that function, and loops over the lanes.
-/

namespace LLVM

def laneOf (w x i : ℕ) : BitVec w := BitVec.ofNat w (lane w i x)

def pack {w : ℕ} (n : ℕ) (f : ℕ → BitVec w) : ℕ :=
  ofLanes w ((List.range n).map fun i => (f i).toNat)

section Pack

variable {w w' n i x y : ℕ} {f g : ℕ → BitVec w}

theorem lane_lt (w i x : ℕ) : lane w i x < 2 ^ w := Nat.mod_lt _ (Nat.two_pow_pos w)

theorem toNat_laneOf (w x i : ℕ) : (laneOf w x i).toNat = lane w i x := by
  rw [laneOf, BitVec.toNat_ofNat, Nat.mod_eq_of_lt (lane_lt w i x)]

theorem ofLanes_lt (w : ℕ) (l : List ℕ) : ofLanes w l < 2 ^ (w * l.length) := by
  induction l with
  | nil => exact Nat.one_pos
  | cons x l ih =>
      have hx : x % 2 ^ w < 2 ^ w := Nat.mod_lt _ (Nat.two_pow_pos w)
      rw [ofLanes, List.length_cons, Nat.mul_succ, pow_add, mul_comm (2 ^ (w * l.length))]
      calc x % 2 ^ w + 2 ^ w * ofLanes w l
          < 2 ^ w + 2 ^ w * ofLanes w l := by omega
        _ = 2 ^ w * (ofLanes w l + 1) := by rw [mul_add, mul_one, add_comm]
        _ ≤ 2 ^ w * 2 ^ (w * l.length) := Nat.mul_le_mul_left _ ih

theorem lane_ofLanes {l : List ℕ} (h : i < l.length) :
    lane w i (ofLanes w l) = l[i] % 2 ^ w := by
  induction l generalizing i with
  | nil => exact absurd h (Nat.not_lt_zero i)
  | cons x l ih =>
      cases i with
      | zero => simp [lane, ofLanes]
      | succ i =>
          have hx : x % 2 ^ w < 2 ^ w := Nat.mod_lt _ (Nat.two_pow_pos w)
          have hdiv : (x % 2 ^ w + 2 ^ w * ofLanes w l) / 2 ^ w = ofLanes w l := by
            rw [Nat.add_mul_div_left _ _ (Nat.two_pow_pos w), Nat.div_eq_of_lt hx, zero_add]
          have := ih (Nat.lt_of_succ_lt_succ h)
          rw [lane] at this ⊢
          rw [ofLanes, Nat.mul_succ, Nat.add_comm (w * i), pow_add, ← Nat.div_div_eq_div_mul,
            hdiv, this]
          rfl

/-- Taking a number apart and putting it together again keeps the bits of the
lanes. -/
theorem ofLanes_lanesOf (n w x : ℕ) : ofLanes w (lanesOf n w x) = x % 2 ^ (w * n) := by
  induction n generalizing x with
  | zero => rw [Nat.mul_zero, pow_zero, Nat.mod_one]; rfl
  | succ n ih =>
      have htail : ∀ i, lane w (i + 1) x = lane w i (x / 2 ^ w) := fun i => by
        rw [lane, lane, Nat.mul_succ, Nat.add_comm (w * i), pow_add, Nat.div_div_eq_div_mul]
      rw [lanesOf, List.range_succ_eq_map, List.map_cons, List.map_map, ofLanes]
      change _ + 2 ^ w * ofLanes w ((List.range n).map fun i => lane w (i + 1) x) = _
      simp only [htail]
      rw [← lanesOf, ih, Nat.mul_succ, Nat.add_comm (w * n), pow_add, Nat.mod_mul, lane,
        Nat.mul_zero, pow_zero, Nat.div_one, Nat.mod_mod]

theorem pack_lt (n : ℕ) (f : ℕ → BitVec w) : pack n f < 2 ^ (n * w) := by
  have := ofLanes_lt w ((List.range n).map fun i => (f i).toNat)
  rwa [List.length_map, List.length_range, Nat.mul_comm] at this

theorem lane_pack (h : i < n) : lane w i (pack n f) = (f i).toNat := by
  rw [pack, lane_ofLanes (by simpa using h)]
  simp [Nat.mod_eq_of_lt (f i).isLt]

@[simp] theorem laneOf_pack (h : i < n) : laneOf w (pack n f) i = f i := by
  rw [laneOf, lane_pack h, BitVec.ofNat_toNat, BitVec.setWidth_eq]

theorem pack_laneOf (h : x < 2 ^ (n * w)) : pack n (laneOf w x) = x := by
  have : ((List.range n).map fun i => (laneOf w x i).toNat) = lanesOf n w x :=
    List.map_congr_left fun i _ => toNat_laneOf w x i
  rw [pack, this, ofLanes_lanesOf, Nat.mul_comm, Nat.mod_eq_of_lt h]

theorem pack_congr (h : ∀ i < n, f i = g i) : pack n f = pack n g := by
  unfold pack
  exact congrArg (ofLanes w) (List.map_congr_left fun i hi => by rw [h i (List.mem_range.1 hi)])

theorem lanesOf_pack : lanesOf n w (pack n f) = (List.range n).map fun i => (f i).toNat :=
  List.map_congr_left fun _ hi => lane_pack (List.mem_range.1 hi)

/-- Replacing a lane. -/
theorem ofLanes_set_pack (b : BitVec w) :
    ofLanes w ((lanesOf n w (pack n f)).set i b.toNat) =
      pack n fun j => if j = i then b else f j := by
  rw [lanesOf_pack, pack]
  congr 1
  apply List.ext_getElem
  · simp
  · intro j h₁ h₂
    rw [List.getElem_set, List.getElem_map, List.getElem_map, List.getElem_range]
    by_cases hj : i = j
    · rw [if_pos hj, if_pos hj.symm]
    · rw [if_neg hj, if_neg (Ne.symm hj)]

theorem mapM_eq_some_map {φ : ℕ → Option ℕ} (ψ : ℕ → ℕ) {l : List ℕ}
    (h : ∀ i ∈ l, φ i = some (ψ i)) : l.mapM φ = some (l.map ψ) := by
  induction l with
  | nil => rfl
  | cons i l ih =>
      rw [List.mapM_cons, h i List.mem_cons_self, ih fun j hj => h j (List.mem_cons_of_mem i hj)]
      rfl

theorem mapLanes_pack {h : ℕ → BitVec w'} {φ : ℕ → Option ℕ}
    (hφ : ∀ i < n, φ (f i).toNat = some (h i).toNat) :
    mapLanes n w w' φ (pack n f) = some (pack n h) := by
  rw [mapLanes, mapM_eq_some_map fun i => (h i).toNat]
  · rfl
  · intro i hi
    rw [lane_pack (List.mem_range.1 hi), hφ i (List.mem_range.1 hi)]

theorem mapLanes₂_pack {h : ℕ → BitVec w'} {φ : ℕ → ℕ → Option ℕ}
    (hφ : ∀ i < n, φ (f i).toNat (g i).toNat = some (h i).toNat) :
    mapLanes₂ n w w' φ (pack n f) (pack n g) = some (pack n h) := by
  rw [mapLanes₂, mapM_eq_some_map fun i => (h i).toNat]
  · rfl
  · intro i hi
    rw [lane_pack (List.mem_range.1 hi), lane_pack (List.mem_range.1 hi),
      hφ i (List.mem_range.1 hi)]

end Pack

section Elem

open Word

variable {w w' : ℕ}

def extOp (signed : Bool) : CastOp := if signed then .sext else .zext

theorem extOp_ne (signed : Bool) : extOp signed ≠ .bitcast ∧ extOp signed ≠ .inttoptr := by
  cases signed <;> decide

theorem evalElem_extOp (signed : Bool) (h : w ≤ w') (b : BitVec w) :
    (extOp signed).evalElem (.int w) (.int w') b.toNat = some (extend signed w' b).toNat := by
  cases signed
  · have hb : b.toNat < 2 ^ w' := Nat.lt_of_lt_of_le b.isLt (Nat.pow_le_pow_right Nat.two_pos h)
    have he : extend false w' b = BitVec.ofNat w' b.toNat := BitVec.ofInt_natCast w' b.toNat
    rw [he, BitVec.toNat_ofNat, Nat.mod_eq_of_lt hb]
    rfl
  · have he : extend true w' b = b.signExtend w' := rfl
    simp [extOp, CastOp.evalElem, he]

variable (a b : BitVec w)

@[simp] theorem eval_add : BinOp.add.eval w a.toNat b.toNat = some (a + b).toNat := by
  simp [BinOp.eval]

@[simp] theorem eval_sub : BinOp.sub.eval w a.toNat b.toNat = some (a - b).toNat := by
  simp [BinOp.eval]

@[simp] theorem eval_mul : BinOp.mul.eval w a.toNat b.toNat = some (a * b).toNat := by
  simp [BinOp.eval]

@[simp] theorem eval_or : BinOp.or.eval w a.toNat b.toNat = some (a ||| b).toNat := by
  simp [BinOp.eval]

/-- A shift by less than the width. -/
theorem eval_shl {k : ℕ} (hk : k < w) :
    BinOp.shl.eval w a.toNat (BitVec.ofNat w k).toNat = some (a <<< k).toNat := by
  have hlt : k < 2 ^ w := hk.trans Nat.lt_two_pow_self
  simp [BinOp.eval, Nat.mod_eq_of_lt hlt, hk]

theorem eval_lshr {k : ℕ} (hk : k < w) :
    BinOp.lshr.eval w a.toNat (BitVec.ofNat w k).toNat = some (a >>> k).toNat := by
  have hlt : k < 2 ^ w := hk.trans Nat.lt_two_pow_self
  simp [BinOp.eval, Nat.mod_eq_of_lt hlt, hk]

def gtPred (signed : Bool) : IPred := if signed then .sgt else .ugt

def ltPred (signed : Bool) : IPred := if signed then .slt else .ult

theorem eval_gtPred (signed : Bool) :
    (gtPred signed).eval w a.toNat b.toNat = decide (reading signed b < reading signed a) := by
  cases signed <;> simp [gtPred, IPred.eval, reading, BitVec.slt, BitVec.ult]

theorem eval_ltPred (signed : Bool) :
    (ltPred signed).eval w a.toNat b.toNat = decide (reading signed a < reading signed b) := by
  cases signed <;> simp [ltPred, IPred.eval, reading, BitVec.slt, BitVec.ult]

end Elem

abbrev Value.Word (ev : Value → Option RVal) {w : ℕ} (b : BitVec w) (v : Value) : Prop :=
  v.Num ev w b.toNat

abbrev Value.Vec (ev : Value → Option RVal) (n : ℕ) {w : ℕ} (f : ℕ → BitVec w) (v : Value) : Prop :=
  v.Holds ev (.vec n (.int w)) (.bits (pack n f))

namespace Code

variable {ε α : Type} {ev : Value → Option RVal} {m : Machine} {a b c v : Value} {t : Ty}
  {n w w' x y i : ℕ} {f g : ℕ → BitVec w}

theorem word_constInt (hev : Consts ev) (w x : ℕ) : (constInt w x).Word ev (BitVec.ofNat w x) :=
  ⟨rfl, by rw [constInt, hev, BitVec.toNat_ofNat]⟩

/-- A bitcast to a vector takes the value's bits apart. -/
theorem computes_lanes (ha : a.Holds ev t (.bits x)) (hx : x < 2 ^ (n * w)) :
    (createBitCast a (.vec n (.int w)) : Code ε Value).Computes ev m
      (Value.Vec ev n (laneOf w x)) := by
  have hp : pack n (laneOf w x) = x := pack_laneOf hx
  exact (computes_bitCast ha _).mono fun v hv => ⟨hv.ty, by rw [hv.eq, hp]⟩

theorem computes_vecBin {o : BinOp} {h : ℕ → BitVec w} (ha : a.Vec ev n f) (hb : b.Vec ev n g)
    (ho : ∀ i < n, o.eval w (f i).toNat (g i).toNat = some (h i).toNat) :
    (createBin o a b : Code ε Value).Computes ev m (Value.Vec ev n h) :=
  computes_create (by simp [Inst.value, Inst.createEval, Inst.sameTypeCast?, Inst.eval, ha.eq, hb.eq,
    ha.ty, Inst.evalBin, mapLanes₂_pack ho]) ha.ty

theorem computes_vecCast {k : CastOp} {h : ℕ → BitVec w'} (ha : a.Vec ev n f) (hne : w ≠ w')
    (hk : k ≠ .bitcast) (hk' : k ≠ .inttoptr)
    (he : ∀ i < n, k.evalElem (.int w) (.int w') (f i).toNat = some (h i).toNat) :
    (createCast k a (.vec n (.int w')) : Code ε Value).Computes ev m (Value.Vec ev n h) := by
  refine computes_create ?_ rfl
  have hty : a.ty ≠ .vec n (.int w') := by
    rw [ha.ty]
    intro he
    cases he
    exact hne rfl
  have hlanes : mapLanes n w w' (k.evalElem (.int w) (.int w')) (pack n f) = some (pack n h) :=
    mapLanes_pack he
  simp only [Inst.value, Inst.createEval, Inst.sameTypeCast?, if_neg hty, Inst.eval, ha.eq,
    Option.bind_some]
  rw [ha.ty]
  cases k <;> first | contradiction | exact congrArg (Option.map RVal.bits) hlanes

theorem computes_ext (signed : Bool) {b : BitVec w} (ha : a.Word ev b) (h : w < w') :
    (createCast (extOp signed) a (.int w') : Code ε Value).Computes ev m
      (Value.Word ev (Word.extend signed w' b)) :=
  computes_cast ha (Nat.ne_of_lt h) (extOp_ne signed).1 (evalElem_extOp signed (Nat.le_of_lt h) b)

theorem computes_vecExt {signed : Bool} (ha : a.Vec ev n f) (h : w < w') :
    (createCast (extOp signed) a (.vec n (.int w')) : Code ε Value).Computes ev m
      (Value.Vec ev n fun i => Word.extend signed w' (f i)) :=
  computes_vecCast ha (Nat.ne_of_lt h) (extOp_ne signed).1 (extOp_ne signed).2 fun i _ =>
    evalElem_extOp signed (Nat.le_of_lt h) (f i)

theorem computes_vecTrunc (ha : a.Vec ev n f) (h : w' < w) :
    (createTrunc a (.vec n (.int w')) : Code ε Value).Computes ev m
      (Value.Vec ev n fun i => (f i).setWidth w') :=
  computes_vecCast ha (Nat.ne_of_gt h) (by decide) (by decide) fun i _ => by
    rw [CastOp.evalElem, BitVec.toNat_setWidth]

theorem computes_truncWord {b : BitVec w} (ha : a.Word ev b) (h : w' ≤ w) :
    (createTrunc a (.int w') : Code ε Value).Computes ev m (Value.Word ev (b.setWidth w')) :=
  (computes_trunc ha b.isLt h).mono fun v hv => ⟨hv.ty, by rw [hv.eq, BitVec.toNat_setWidth]⟩

theorem computes_extract (ha : a.Vec ev n f) (hi : v.Num ev w' i) (h : i < n) :
    (createExtractElement a v : Code ε Value).Computes ev m (Value.Word ev (f i)) := by
  refine computes_create ?_ (by rw [Inst.ty, ha.ty])
  have : lane w i (pack n f) = (f i).toNat := lane_pack h
  simp [Inst.value, Inst.createEval, Inst.sameTypeCast?, Inst.eval, ha.eq, hi.eq, ha.ty,
    Inst.evalExtract, h, Scalar.bits, this]

theorem computes_insert {e : BitVec w} (ha : a.Vec ev n f) (hb : b.Word ev e) (hi : v.Num ev w' i)
    (h : i < n) :
    (createInsertElement a b v : Code ε Value).Computes ev m
      (Value.Vec ev n fun j => if j = i then e else f j) := by
  refine computes_create ?_ ha.ty
  have : ofLanes w ((lanesOf n w (pack n f)).set i e.toNat) = _ := ofLanes_set_pack e
  simp [Inst.value, Inst.createEval, Inst.sameTypeCast?, Inst.eval, ha.eq, hb.eq, hi.eq, ha.ty,
    Inst.evalInsert, h, Scalar.bits, this]

/-- A shuffle by a mask. The indices from `n` on select lanes of the second
vector. -/
theorem computes_shuffle {k : ℕ} {μ : ℕ → ℕ} (ha : a.Vec ev n f) (hb : b.Vec ev n g)
    (hμ : ∀ i < k, μ i < 2 * n) :
    (createShuffleVector a b ((List.range k).map μ) : Code ε Value).Computes ev m
      (Value.Vec ev k fun i => if μ i < n then f (μ i) else g (μ i - n)) := by
  refine computes_create ?_ (by rw [Inst.ty, ha.ty, List.length_map, List.length_range])
  have hmask : Inst.evalShuffle (.vec n (.int w)) (pack n f) (pack n g) ((List.range k).map μ) =
      some (pack k fun i => if μ i < n then f (μ i) else g (μ i - n)) := by
    rw [Inst.evalShuffle, mapM_eq_some_map fun i => (if i < n then f i else g (i - n)).toNat]
    · rw [List.map_map]
      rfl
    · intro i hi
      obtain ⟨j, hj, rfl⟩ := List.mem_map.1 hi
      have hlt : μ j < 2 * n := hμ j (List.mem_range.1 hj)
      by_cases h : μ j < n
      · rw [if_pos h, if_pos h]
        exact congrArg some (lane_pack h)
      · rw [if_neg h, if_pos hlt, if_neg h]
        exact congrArg some (lane_pack (by omega))
  simp [Inst.value, Inst.createEval, Inst.sameTypeCast?, Inst.eval, ha.eq, hb.eq, ha.ty, hmask]

/-- Lane `0` of the vector in every lane. -/
theorem computes_splat (ha : a.Vec ev n f) (hn : 0 < n) :
    (createShuffleVector a a (List.replicate n 0) : Code ε Value).Computes ev m
      (Value.Vec ev n fun _ => f 0) := by
  have hmask : List.replicate n 0 = (List.range n).map fun _ => 0 := by
    rw [List.map_const', List.length_range]
  rw [hmask]
  refine (computes_shuffle ha ha fun i _ => by omega).mono fun v hv => ?_
  exact ⟨hv.ty, by rw [hv.eq]; simp only [if_pos hn]⟩

theorem computes_select {k : Bool} {p q : BitVec w} (hc : c.Num ev 1 k.toNat) (ha : a.Word ev p)
    (hb : b.Word ev q) :
    (createSelect c a b : Code ε Value).Computes ev m (Value.Word ev (if k then p else q)) := by
  refine computes_create ?_ ha.ty
  cases k <;> simp [Inst.value, Inst.createEval, Inst.sameTypeCast?, Inst.eval, hc.eq, ha.eq, hb.eq]

/-- A loop over the first `n` numbers, with an invariant. -/
theorem computes_foldlM_range {β : Type} {φ : β → ℕ → Code ε β} (I : ℕ → β → Prop)
    (h : ∀ i < n, ∀ b, I i b → (φ b i).Computes ev m (I (i + 1))) {b : β} (h0 : I 0 b) :
    ((List.range n).foldlM φ b).Computes ev m (I n) := by
  have hloop : ∀ k s b, s + k = n → I s b → ((List.range' s k).foldlM φ b).Computes ev m (I n) := by
    intro k
    induction k with
    | zero =>
        intro s b hs hb
        have : s = n := hs
        exact this ▸ hb
    | succ k ih =>
        intro s b hs hb
        rw [List.range'_succ, List.foldlM_cons]
        exact (h s (by omega) b hb).then fun b' hb' => ih (s + 1) b' (by omega) hb'
  rw [List.range_eq_range']
  exact hloop n 0 b (Nat.zero_add n) h0

end Code

end LLVM
