import VexLLVM.Emit.OpValue
import Mathlib.Data.Set.Function

/-!
# Moving lanes

Interleaving the lanes of two vectors, and the loops over byte lanes: the top
bits of the lanes, one byte in every lane, and a permutation with computed
indices.
-/

namespace VexLLVM

open LLVM LLVM.Code Vex Word OpEmit

/-! ## Interleaving -/

/-- The operations that interleave the low and the high halves of two vectors of
`n` lanes of `w` bits, as their names have them. -/
structure IleaveOps where
  lo : Iop
  hi : Iop
  n : ℕ
  w : ℕ
  deriving DecidableEq, Repr

def ileaveOps : List IleaveOps :=
  [⟨.InterleaveLO8x8, .InterleaveHI8x8, 8, 8⟩, ⟨.InterleaveLO8x16, .InterleaveHI8x16, 16, 8⟩,
    ⟨.InterleaveLO16x4, .InterleaveHI16x4, 4, 16⟩, ⟨.InterleaveLO16x8, .InterleaveHI16x8, 8, 16⟩,
    ⟨.InterleaveLO32x2, .InterleaveHI32x2, 2, 32⟩, ⟨.InterleaveLO32x4, .InterleaveHI32x4, 4, 32⟩,
    ⟨.InterleaveLO64x2, .InterleaveHI64x2, 2, 64⟩]

namespace IleaveOps

def op (e : IleaveOps) (high : Bool) : Iop := if high then e.hi else e.lo

def base (n : ℕ) (high : Bool) : ℕ := if high then n / 2 else 0

/-- The index a mask has at a lane: the second operand comes first. -/
def index (n : ℕ) (high : Bool) (k : ℕ) : ℕ :=
  base n high + k / 2 + if k % 2 = 0 then n else 0

theorem opEmit_ileaveOps (fp : FPImpl) : ∀ e ∈ ileaveOps, ∀ high,
    opEmit fp (e.op high) = .ileave ((List.range e.n).map (index e.n high)) e.n e.w := by
  cases fp <;> decide

theorem even_ileaveOps : ∀ e ∈ ileaveOps, e.n = 2 * (e.n / 2) := by decide

section Places

variable {n k j : ℕ} (high : Bool)

theorem base_add_lt (hn : n = 2 * (n / 2)) (hj : j < n / 2) : base n high + j < n := by
  cases high <;> simp only [base, if_true, Bool.false_eq_true, if_false] <;> omega

theorem index_lt (hn : n = 2 * (n / 2)) (hk : k < n) : index n high k < 2 * n := by
  have := base_add_lt (j := k / 2) high hn (by omega)
  rw [index]
  split <;> omega

end Places

/-- The place a lane of a result comes from. The result is given by its half, and
the operand by whether it is the second. -/
def source (n : ℕ) (p : Bool × ℕ) : Bool × ℕ := (p.2 % 2 == 0, base n p.1 + p.2 / 2)

def places (n : ℕ) : Set (Bool × ℕ) := {p | p.2 < n}

theorem bijOn_source {n : ℕ} (hn : n = 2 * (n / 2)) :
    Set.BijOn (source n) (places n) (places n) := by
  refine ⟨?_, ?_, ?_⟩
  · rintro ⟨high, k⟩ (hk : k < n)
    exact base_add_lt high hn (by omega)
  · rintro ⟨high, k⟩ (hk : k < n) ⟨high', k'⟩ (hk' : k' < n) h
    have hmod : (k % 2 == 0) = (k' % 2 == 0) := congrArg Prod.fst h
    have hdiv : base n high + k / 2 = base n high' + k' / 2 := congrArg Prod.snd h
    rw [Bool.beq_eq_decide_eq, Bool.beq_eq_decide_eq, decide_eq_decide] at hmod
    cases high <;> cases high' <;> simp only [base, if_true, Bool.false_eq_true, if_false] at hdiv
    · exact Prod.ext rfl (show k = k' by omega)
    · omega
    · omega
    · exact Prod.ext rfl (show k = k' by omega)
  · rintro ⟨second, l⟩ (hl : l < n)
    have hbase : base n (decide (n / 2 ≤ l)) ≤ l ∧ l - base n (decide (n / 2 ≤ l)) < n / 2 := by
      by_cases h : n / 2 ≤ l
      · rw [decide_eq_true h, base, if_pos rfl]
        omega
      · rw [decide_eq_false h, base, if_neg Bool.false_ne_true]
        omega
    refine ⟨(decide (n / 2 ≤ l), 2 * (l - base n (decide (n / 2 ≤ l))) + second.not.toNat), ?_, ?_⟩
    · have := Bool.toNat_le second.not
      change _ < n
      omega
    · cases second
      · exact Prod.ext (by simp [source, Nat.add_mod])
          (by simp only [source, Bool.not_false, Bool.toNat_true]; omega)
      · exact Prod.ext (by simp [source])
          (by simp only [source, Bool.not_true, Bool.toNat_false]; omega)

def result (e : IleaveOps) (L R : Datum) (high : Bool) : Datum :=
  .ofLanes e.n fun k => if k % 2 = 0 then R.lane e.w (base e.n high + k / 2)
    else L.lane e.w (base e.n high + k / 2)

theorem yields_ileave (fp : FPImpl) {e : IleaveOps} (he : e ∈ ileaveOps) (high : Bool) {L R : Datum}
    (hL : L.ty.bits = e.n * e.w) (hR : R.ty.bits = e.n * e.w) :
    (opEmit fp (e.op high)).Yields [L, R] (e.result L R high) := by
  have hn := even_ileaveOps e he
  rw [opEmit_ileaveOps fp e he high]
  refine yields_binary fun _ ev m v₁ v₂ hev h₁ h₂ => ?_
  refine (h₁.lanes hL).then fun l hl => (h₂.lanes hR).then fun r hr => ?_
  refine (computes_shuffle hl hr fun i hi => index_lt high hn hi).mono fun v hv => ?_
  refine ⟨hv.ty, hv.eq.trans (congrArg (some ∘ RVal.bits) (pack_congr fun k hk => ?_))⟩
  have hlt := base_add_lt (j := k / 2) high hn (by omega)
  by_cases h : k % 2 = 0
  · rw [index, if_pos h, if_pos h, if_neg (by omega), Nat.add_sub_cancel]
  · rw [index, if_neg h, if_neg h, Nat.add_zero, if_pos hlt]

end IleaveOps

/-- Even lanes of the result are lanes of the second operand and odd ones lanes of
the first, from the low or from the high half. Which lane comes from where does
not depend on the operands, and the two results together have every lane of both
operands once. -/
theorem ileaveOps_statement (fp : FPImpl) (e : IleaveOps) (he : e ∈ ileaveOps) :
    (∀ (high : Bool) (L R : Datum), L.ty.bits = e.n * e.w → R.ty.bits = e.n * e.w →
      ∃ r : Datum, (opEmit fp (e.op high)).Yields [L, R] r ∧ r.ty = .vec e.n (.int e.w) ∧
        ∀ j < e.n / 2, r.lane e.w (2 * j) = R.lane e.w (IleaveOps.base e.n high + j) ∧
          r.lane e.w (2 * j + 1) = L.lane e.w (IleaveOps.base e.n high + j)) ∧
    ∃ σ : Bool × ℕ → Bool × ℕ, Set.BijOn σ (IleaveOps.places e.n) (IleaveOps.places e.n) ∧
      ∀ L R : Datum, L.ty.bits = e.n * e.w → R.ty.bits = e.n * e.w → ∃ r : Bool → Datum,
        (∀ high, (opEmit fp (e.op high)).Yields [L, R] (r high)) ∧
        ∀ high, ∀ k < e.n, (r high).lane e.w k =
          (if (σ (high, k)).1 then R else L).lane e.w (σ (high, k)).2 := by
  have hn := IleaveOps.even_ileaveOps e he
  refine ⟨fun high L R hL hR => ⟨_, IleaveOps.yields_ileave fp he high hL hR, rfl, fun j hj => ?_⟩,
    IleaveOps.source e.n, IleaveOps.bijOn_source hn, fun L R hL hR =>
      ⟨_, fun high => IleaveOps.yields_ileave fp he high hL hR, fun high k hk => ?_⟩⟩
  · rw [IleaveOps.result, Datum.lane_ofLanes (by omega), Datum.lane_ofLanes (by omega),
      if_pos (Nat.mul_mod_right 2 j), if_neg (by omega), Nat.mul_div_cancel_left j Nat.two_pos,
      show (2 * j + 1) / 2 = j by omega]
    exact ⟨rfl, rfl⟩
  · rw [IleaveOps.result, Datum.lane_ofLanes hk, IleaveOps.source]
    by_cases h : k % 2 = 0
    · rw [if_pos h, if_pos (beq_iff_eq.2 h)]
    · rw [if_neg h, if_neg fun hc => h (beq_iff_eq.1 hc)]

/-- The high halves of two vectors of two lanes. -/
theorem ileaveOps_hi64x2 :
    ∃ r : Datum, (opEmit .native .InterleaveHI64x2).Yields
      [⟨.vec 2 (.int 64), 2 ^ 64 * 5 + 7, by decide⟩, ⟨.int 128, 2 ^ 64 * 3 + 1, by decide⟩] r ∧
      r.lane 64 0 = 3 ∧ r.lane 64 1 = 5 := by
  obtain ⟨r, hr, -, h⟩ := (ileaveOps_statement .native
    ⟨.InterleaveLO64x2, .InterleaveHI64x2, 2, 64⟩ (by decide)).1 true
    ⟨.vec 2 (.int 64), 2 ^ 64 * 5 + 7, by decide⟩ ⟨.int 128, 2 ^ 64 * 3 + 1, by decide⟩ rfl rfl
  obtain ⟨h₀, h₁⟩ := h 0 (by decide)
  exact ⟨r, hr, h₀.trans (by decide), h₁.trans (by decide)⟩

/-! ## Loops over byte lanes -/

section Loops

variable {ev : LLVM.Value → Option RVal} {m : Machine} {v v₁ v₂ : LLVM.Value} {a b p : Datum} {n : ℕ}

def topBits (n : ℕ) (f : ℕ → BitVec 8) : ℕ → BitVec n
  | 0 => 0
  | i + 1 => topBits n f i ||| (f i >>> 7).setWidth n <<< i

theorem getLsbD_topBits (f : ℕ → BitVec 8) (i : ℕ) {j : ℕ} (hj : j < n) :
    (topBits n f i).getLsbD j = (decide (j < i) && (f j).getLsbD 7) := by
  induction i with
  | zero => simp [topBits]
  | succ i ih =>
      rw [topBits, BitVec.getLsbD_or, ih, BitVec.getLsbD_shiftLeft, BitVec.getLsbD_setWidth,
        BitVec.getLsbD_ushiftRight]
      rcases Nat.lt_trichotomy j i with h | rfl | h
      · simp [h, Nat.lt_succ_of_lt h]
      · simp [hj]
        omega
      · -- above the lane the byte has no bit left
        have hout : (f i).getLsbD (7 + (j - i)) = false := BitVec.getLsbD_of_ge _ _ (by omega)
        simp [hout, Nat.not_lt_of_gt h, show ¬j < i + 1 by omega]

theorem computes_getMSBs8x (hev : Consts ev) (hn : 8 ≤ n) (h32 : n ≤ 2 ^ 32) (h : a.Carried ev v)
    (ha : a.ty.bits = n * 8) :
    (emitGetMSBs8x n v).Computes ev m (LLVM.Value.Word ev (topBits n (a.lane 8) n)) := by
  refine (h.lanes ha).then fun vec hvec => ?_
  refine computes_foldlM_range (I := fun i (v : LLVM.Value) => v.Word ev (topBits n (a.lane 8) i))
    (fun i hi ret hret => ?_) (word_constInt hev n 0)
  refine (computes_extract hvec (num_get32i hev h32 hi) hi).then fun cur hcur => ?_
  refine (computes_bin hcur (word_constInt hev 8 7) (eval_lshr _ (by decide))).then
    fun top htop => ?_
  refine (computes_zext htop n).then fun bit hbit => ?_
  rw [← BitVec.toNat_setWidth_of_le hn] at hbit
  refine (computes_bin hbit (word_constInt hev n i) (eval_shl _ hi)).then fun bit' hbit' => ?_
  exact computes_bin hret hbit' (eval_or _ _)

def Filled (b : BitVec 8) (k : ℕ) (d : BitVec 128) : Prop :=
  ∀ i < 128, d.getLsbD i = (decide (i < 8 * k) && b.getLsbD (i % 8))

/-- An or with itself, moved up by the lanes that are filled. -/
theorem filled_double {b : BitVec 8} {k : ℕ} {d : BitVec 128} (h : Filled b k d) :
    Filled b (2 * k) (d ||| d <<< (8 * k)) := by
  intro i hi
  rw [BitVec.getLsbD_or, BitVec.getLsbD_shiftLeft, h i hi, h (i - 8 * k) (by omega)]
  by_cases hk : i < 8 * k
  · simp [hk, show i < 8 * (2 * k) by omega]
  · have hmod : (i - 8 * k) % 8 = i % 8 := by omega
    have hlt : decide (i - 8 * k < 8 * k) = decide (i < 8 * (2 * k)) := by
      rw [decide_eq_decide]
      omega
    simp [hk, hi, hmod, hlt]

/-- One step of the doubling. -/
theorem computes_dupStep (hev : Consts ev) {d : BitVec 128} (i : ℕ) (hi : 8 <<< (i - 1) < 128)
    (h : v.Word ev d) :
    (do
      let s ← createBin .shl v (constInt (8 * 16) (8 <<< (i - 1)))
      createBin .or v s : OpCode).Computes ev m
      (LLVM.Value.Word ev (d ||| d <<< (8 <<< (i - 1)))) :=
  (computes_bin h (word_constInt hev 128 _) (eval_shl _ hi)).then fun _ hs =>
    computes_bin h hs (eval_or _ _)

def dup8x16 (b : BitVec 8) : BitVec 128 :=
  [1, 2, 3, 4].foldl (fun d i => d ||| d <<< (8 <<< (i - 1))) (b.setWidth 128)

theorem filled_dup8x16 (b : BitVec 8) : Filled b 16 (dup8x16 b) := by
  have h₀ : Filled b 1 (b.setWidth 128) := by
    intro i hi
    rw [BitVec.getLsbD_setWidth]
    by_cases h : i < 8
    · simp [h, hi, Nat.mod_eq_of_lt h]
    · simp [h, BitVec.getLsbD_of_ge b i (by omega)]
  have h₁ : Filled b 2 _ := filled_double (k := 1) h₀
  have h₂ : Filled b 4 _ := filled_double (k := 2) h₁
  have h₃ : Filled b 8 _ := filled_double (k := 4) h₂
  exact filled_double (k := 8) h₃

theorem laneOf_dup8x16 (b : BitVec 8) {i : ℕ} (hi : i < 16) :
    laneOf 8 (dup8x16 b).toNat i = b := by
  refine BitVec.eq_of_getLsbD_eq fun j hj => ?_
  have hb := filled_dup8x16 b (8 * i + j) (by omega)
  rw [decide_eq_true (show 8 * i + j < 8 * 16 by omega), Bool.true_and, Nat.mul_add_mod,
    Nat.mod_eq_of_lt hj] at hb
  rw [laneOf, BitVec.getLsbD_ofNat, LLVM.lane, Nat.testBit_mod_two_pow, Nat.testBit_div_two_pow,
    decide_eq_true hj, Bool.true_and, Bool.true_and, ← hb, Nat.add_comm]
  rfl

theorem computes_dup8x16 (hev : Consts ev) {b : BitVec 8} (h : v.Word ev b) :
    (emitDup8x16 v).Computes ev m (LLVM.Value.Word ev (dup8x16 b)) := by
  refine (computes_zext h 128).then fun v₀ h₀ => ?_
  rw [← BitVec.toNat_setWidth_of_le (show 8 ≤ 128 by decide)] at h₀
  refine (computes_dupStep hev 1 (by decide) h₀).then fun v₁ h₁ => ?_
  refine (computes_dupStep hev 2 (by decide) h₁).then fun v₂ h₂ => ?_
  refine (computes_dupStep hev 3 (by decide) h₂).then fun v₃ h₃ => ?_
  exact (computes_dupStep hev 4 (by decide) h₃).then fun v₄ h₄ => h₄

/-- What the loop of a permutation carries: the lanes that are set, and the index
and the element of the last round. -/
structure ShufState (ev : LLVM.Value → Option RVal) (n : ℕ) (f p : ℕ → BitVec 8) (i : ℕ)
    (s : LLVM.Value × Option (LLVM.Value × LLVM.Value)) : Prop where
  result : s.1.Vec ev n fun j => if j < i then f (p j).toNat else 0
  last : ∀ idx elem, s.2 = some (idx, elem) → ∃ k, idx.Num ev 32 k ∧ elem.Word ev (f k)

/-- One value has one number: an index that is the last one selects the last
element. -/
theorem ShufState.reuse {f p : ℕ → BitVec 8} {i k : ℕ} {r idx elem : LLVM.Value}
    (hs : ShufState ev n f p i (r, some (idx, elem))) (h : idx.Num ev 32 k) :
    elem.Word ev (f k) := by
  obtain ⟨k', hk', helem⟩ := hs.last idx elem rfl
  have heq : k' = k := by
    have := hk'.eq.symm.trans h.eq
    injection this with this
    injection this
  exact heq ▸ helem

theorem computes_opshuf (hev : Consts ev) (h32 : n ≤ 2 ^ 32) (h₁ : a.Carried ev v₁)
    (h₂ : p.Carried ev v₂) (ha : a.ty.bits = n * 8) (hp : p.ty.bits = n * 8)
    (hlt : ∀ i < n, (p.lane 8 i).toNat < n) :
    (emitOpshuf n 8 v₁ v₂).Computes ev m fun v =>
      (Datum.ofLanes n fun i => a.lane 8 (p.lane 8 i).toNat).Carried ev v := by
  refine (h₁.lanes ha).then fun u₁ hu₁ => (h₂.lanes hp).then fun u₂ hu₂ => ?_
  refine (computes_zeroVec hev n 8).then fun z hz => ?_
  refine (computes_foldlM_range (I := ShufState ev n (a.lane 8) (p.lane 8)) ?_ ?_).then
    fun out hout => ?_
  · intro i hi s hs
    refine (computes_extract hu₂ (num_get32i hev h32 hi) hi).then fun idx hidx => ?_
    refine (computes_zext hidx 32).then fun permIdx hperm => ?_
    have hrest : ∀ elem, elem.Word ev (a.lane 8 (p.lane 8 i).toNat) →
        (do
          let r ← createInsertElement s.1 elem (get32i i)
          pure (r, some (permIdx, elem)) : Code EmitError _).Computes ev m
          (ShufState ev n (a.lane 8) (p.lane 8) (i + 1)) := by
      intro elem helem
      refine (computes_insert hs.result helem (num_get32i hev h32 hi) hi).then fun r hr => ?_
      refine ⟨⟨hr.ty, hr.eq.trans (congrArg (some ∘ RVal.bits) (pack_congr fun j _ => ?_))⟩, ?_⟩
      · by_cases hj : j = i
        · rw [if_pos hj, if_pos (by omega), hj]
        · rw [if_neg hj]
          exact if_congr (by omega) rfl rfl
      · intro idx' elem' hl
        cases hl
        exact ⟨_, hperm, helem⟩
    obtain ⟨r, last⟩ := s
    cases last with
    | none => exact (computes_extract hu₁ hperm (hlt i hi)).then hrest
    | some last =>
        obtain ⟨lastIdx, lastElem⟩ := last
        by_cases heq : permIdx = lastIdx
        · simp only [if_pos heq]
          exact hrest lastElem (hs.reuse (heq ▸ hperm))
        · simp only [if_neg heq]
          exact (computes_extract hu₁ hperm (hlt i hi)).then hrest
  · exact ⟨hz, fun _ _ hl => nomatch hl⟩
  · have := hout.result
    exact ⟨this.ty, this.eq.trans (congrArg (some ∘ RVal.bits)
      (pack_congr fun j hj => if_pos hj))⟩

end Loops

/-- The loops over byte lanes. Bit `i` of the top bits is the top bit of lane `i`,
a byte is in every lane, and a permutation with indices below the number of lanes
selects by them, whatever values the indices are. -/
theorem byteLanes_statement (fp : FPImpl) :
    (∀ o ∈ [(Iop.GetMSBs8x8, 8), (.GetMSBs8x16, 16)], ∀ a : Datum, a.ty.bits = o.2 * 8 →
      ∃ r : Datum, (opEmit fp o.1).Yields [a] r ∧ r.ty = .int o.2 ∧
        ∀ i < o.2, r.bits.testBit i = a.bits.testBit (8 * i + 7)) ∧
    (∀ b : BitVec 8, ∃ r : Datum, (opEmit fp .Dup8x16).Yields [.ofWord b] r ∧ r.ty.bits = 16 * 8 ∧
      ∀ i < 16, r.lane 8 i = b) ∧
    ∀ o ∈ [(Iop.Perm8x8, 8), (.Perm8x16, 16)], ∀ a p : Datum, a.ty.bits = o.2 * 8 →
      p.ty.bits = o.2 * 8 → (∀ i < o.2, (p.lane 8 i).toNat < o.2) →
      ∃ r : Datum, (opEmit fp o.1).Yields [a, p] r ∧ r.ty = .vec o.2 (.int 8) ∧
        ∀ i < o.2, r.lane 8 i = a.lane 8 (p.lane 8 i).toNat := by
  refine ⟨?_, fun b => ?_, ?_⟩
  · have hop : ∀ o ∈ [(Iop.GetMSBs8x8, 8), (.GetMSBs8x16, 16)],
        opEmit fp o.1 = .getMSBs8x o.2 ∧ 8 ≤ o.2 ∧ o.2 ≤ 2 ^ 32 := by cases fp <;> decide
    intro o ho a ha
    obtain ⟨hemit, h8, h32⟩ := hop o ho
    refine ⟨.ofWord (topBits o.2 (a.lane 8) o.2), ?_, rfl, fun i hi => ?_⟩
    · rw [hemit]
      exact yields_unary fun _ _ _ _ hev h => computes_getMSBs8x hev h8 h32 h ha
    · have hbit := getLsbD_topBits (a.lane 8) o.2 hi
      rw [decide_eq_true hi, Bool.true_and] at hbit
      rw [Datum.ofWord, ← BitVec.getLsbD, hbit, Datum.lane, laneOf, BitVec.getLsbD_ofNat, LLVM.lane,
        Nat.testBit_mod_two_pow, Nat.testBit_div_two_pow, Nat.add_comm]
      rfl
  · refine ⟨.ofWord (dup8x16 b), ?_, rfl, fun i hi => laneOf_dup8x16 b hi⟩
    have hemit : opEmit fp .Dup8x16 = .dup8x16 := rfl
    rw [hemit]
    exact yields_unary fun _ _ _ _ hev h => computes_dup8x16 hev h
  · have hop : ∀ o ∈ [(Iop.Perm8x8, 8), (.Perm8x16, 16)],
        opEmit fp o.1 = .opshuf o.2 8 ∧ o.2 ≤ 2 ^ 32 := by cases fp <;> decide
    intro o ho a p ha hp hlt
    obtain ⟨hemit, h32⟩ := hop o ho
    refine ⟨.ofLanes o.2 fun i => a.lane 8 (p.lane 8 i).toNat, ?_, rfl, fun i hi =>
      Datum.lane_ofLanes hi⟩
    rw [hemit]
    exact yields_binary fun _ _ _ _ _ hev h₁ h₂ => computes_opshuf hev h32 h₁ h₂ ha hp hlt

/-- Eight times the same index. -/
theorem byteLanes_perm8x8 :
    ∃ r : Datum, (opEmit .native .Perm8x8).Yields
      [⟨.int 64, 0x0706050403020100, by decide⟩, ⟨.int 64, 0x0505050505050505, by decide⟩] r ∧
      r.lane 8 7 = 5 := by
  obtain ⟨r, hr, -, h⟩ := (byteLanes_statement .native).2.2 (.Perm8x8, 8) (by decide)
    ⟨.int 64, 0x0706050403020100, by decide⟩ ⟨.int 64, 0x0505050505050505, by decide⟩ rfl rfl
    (by decide)
  exact ⟨r, hr, (h 7 (by decide)).trans (by decide)⟩

end VexLLVM
