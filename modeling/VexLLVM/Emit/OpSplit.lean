import VexLLVM.Emit.OpValue

/-!
# Halves of words

Joining two words into one of twice the width and taking it apart again, and
division, which leaves the quotient in the low half of its result and the
remainder in the high half.
-/

namespace VexLLVM

open LLVM LLVM.Code Vex Word OpEmit

/-! ## Joining and splitting -/

/-- The word of `2 n` bits with the given halves, as a number. -/
def joined {n : ℕ} (hi lo : BitVec n) : ℕ := hi.toNat * 2 ^ n + lo.toNat

section Joined

variable {n x : ℕ} (hi lo : BitVec n)

theorem joined_lt : joined hi lo < 2 ^ (2 * n) := by
  rw [two_mul, pow_add]
  calc joined hi lo < hi.toNat * 2 ^ n + 2 ^ n := Nat.add_lt_add_left lo.isLt _
    _ = (hi.toNat + 1) * 2 ^ n := (Nat.succ_mul _ _).symm
    _ ≤ 2 ^ n * 2 ^ n := Nat.mul_le_mul_right _ hi.isLt

theorem joined_div : joined hi lo / 2 ^ n = hi.toNat := by
  rw [joined, Nat.add_comm, Nat.add_mul_div_right _ _ (Nat.two_pow_pos n),
    Nat.div_eq_of_lt lo.isLt, Nat.zero_add]

theorem joined_mod : joined hi lo % 2 ^ n = lo.toNat := by
  rw [joined, Nat.add_comm, Nat.add_mul_mod_self_right, Nat.mod_eq_of_lt lo.isLt]

theorem joined_split (h : x < 2 ^ (2 * n)) :
    joined (BitVec.ofNat n (x / 2 ^ n)) (BitVec.ofNat n x) = x := by
  have hlt : x / 2 ^ n < 2 ^ n := by
    rw [two_mul, pow_add] at h
    exact Nat.div_lt_of_lt_mul h
  rw [joined, BitVec.toNat_ofNat, BitVec.toNat_ofNat, Nat.mod_eq_of_lt hlt, Nat.mul_comm,
    Nat.div_add_mod]

/-- Both halves in their places: a shift and an or. -/
theorem toNat_shl_or :
    (lo.setWidth (2 * n) ||| hi.setWidth (2 * n) <<< n).toNat = joined hi lo := by
  have hle : n ≤ 2 * n := Nat.le_mul_of_pos_left n Nat.two_pos
  have hlt : hi.toNat * 2 ^ n < 2 ^ (2 * n) :=
    Nat.lt_of_le_of_lt (Nat.le_add_right _ _) (joined_lt hi lo)
  rw [BitVec.toNat_or, BitVec.toNat_shiftLeft, BitVec.toNat_setWidth_of_le hle,
    BitVec.toNat_setWidth_of_le hle, Nat.shiftLeft_eq, Nat.mod_eq_of_lt hlt, Nat.or_comm,
    ← Nat.shiftLeft_eq, ← Nat.shiftLeft_add_eq_or_of_lt lo.isLt, Nat.shiftLeft_eq, joined]

end Joined

section Emit

variable {ev : LLVM.Value → Option RVal} {m : Machine} {v v₁ v₂ : LLVM.Value} {a b x : Datum} {n : ℕ}

/-- Two integers joined. -/
theorem computes_hlTo (hev : Consts ev) (hn : 0 < n) {hi lo : BitVec n} (h₁ : v₁.Word ev hi)
    (h₂ : v₂.Word ev lo) :
    (emitHLto n (2 * n) v₁ v₂).Computes ev m (LLVM.Value.Num ev (2 * n) (joined hi lo)) := by
  have hlt : n < 2 * n := by omega
  have hext : ∀ b : BitVec n, b.toNat = (b.setWidth (2 * n)).toNat := fun b =>
    (BitVec.toNat_setWidth_of_le (Nat.le_of_lt hlt)).symm
  refine (computes_zext h₁ _).then fun z₁ hz₁ => (computes_zext h₂ _).then fun z₂ hz₂ => ?_
  rw [hext] at hz₁ hz₂
  have hshl : BinOp.shl.eval (2 * n) (hi.setWidth (2 * n)).toNat (BitVec.ofNat (2 * n) n).toNat =
      some (hi.setWidth (2 * n) <<< n).toNat := eval_shl _ hlt
  refine (computes_bin hz₁ (word_constInt hev (2 * n) n) hshl).then fun s hs => ?_
  refine (computes_bin hz₂ hs (eval_or _ _)).mono fun r hr => ?_
  rwa [toNat_shl_or] at hr

theorem computes_xhiToY (hev : Consts ev) (hn : 0 < n) (h : x.Carried ev v)
    (hx : x.ty.bits = 2 * n) :
    (emitXhiToY n v).Computes ev m (LLVM.Value.Word ev (BitVec.ofNat n (x.bits / 2 ^ n))) := by
  have hlt : n < 2 * n := by omega
  have hbits : x.bits = (BitVec.ofNat (2 * n) x.bits).toNat := by
    rw [BitVec.toNat_ofNat, Nat.mod_eq_of_lt (hx ▸ x.lt)]
  refine (computes_bitCast h _).then fun c hc => ?_
  rw [hbits] at hc
  rw [Nat.mul_comm n 2]
  refine (computes_bin hc (word_constInt hev (2 * n) n) (eval_lshr _ hlt)).then fun s hs => ?_
  refine (computes_truncWord hs (Nat.le_of_lt hlt)).mono fun t ht => ?_
  have : ((BitVec.ofNat (2 * n) x.bits >>> n).setWidth n) = BitVec.ofNat n (x.bits / 2 ^ n) := by
    refine BitVec.eq_of_toNat_eq ?_
    rw [BitVec.toNat_setWidth, BitVec.toNat_ushiftRight, ← hbits, Nat.shiftRight_eq_div_pow,
      BitVec.toNat_ofNat]
  rwa [this] at ht

/-- `X_TO_Y_EMIT` with a truncation: an operand of the width expected needs no
repair, whatever its type. -/
theorem computes_xToY (hn : 0 < n) (h : x.Carried ev v) (hx : x.ty.bits = 2 * n) :
    (emitXToY .trunc (.int (2 * n)) (.int n) v).Computes ev m
      (LLVM.Value.Word ev (BitVec.ofNat n x.bits)) := by
  have hbits : v.ty.bits = 2 * n := by rw [h.ty, hx]
  unfold emitXToY
  simp only [hbits, Scalar.bits, Nat.lt_irrefl, if_false]
  refine (computes_bitCast h _).then fun c hc => ?_
  refine (computes_trunc hc (hx ▸ x.lt) (by omega)).mono fun t ht => ?_
  rwa [← BitVec.toNat_ofNat] at ht

theorem computes_v128to64 (hev : Consts ev) (h : x.Carried ev v) (hx : x.ty.bits = 2 * 64) {i : ℕ}
    (hi : i < 2) : (emitV128to64 i v).Computes ev m (LLVM.Value.Word ev (laneOf 64 x.bits i)) :=
  (h.lanes hx).then fun _ hl =>
    computes_extract hl (num_get32i hev (by decide) hi) hi

end Emit

/-- The operations that join two words of `n` bits and take the result apart, as
their names have them. -/
structure SplitOps where
  hl : Iop
  hi : Iop
  lo : Iop
  n : ℕ
  deriving DecidableEq, Repr

def splitOps : List SplitOps :=
  [⟨._8HLto16, ._16HIto8, ._16to8, 8⟩, ⟨._16HLto32, ._32HIto16, ._32to16, 16⟩,
    ⟨._32HLto64, ._64HIto32, ._64to32, 32⟩, ⟨._64HLto128, ._128HIto64, ._128to64, 64⟩,
    ⟨._64HLtoV128, .V128HIto64, .V128to64, 64⟩]

namespace SplitOps

/-- The types the halves may be carried in: all of the width for the vector, and
else integers, which is what is zero-extended. -/
def Takes (e : SplitOps) (a : Datum) : Prop :=
  a.ty.bits = e.n ∧ (a.ty = .int e.n ∨ e.hl = ._64HLtoV128)

/-- A value of `n` bits, as an integer. -/
theorem word_of_num {ev : LLVM.Value → Option RVal} {v : LLVM.Value} {n : ℕ} {a : Datum}
    (ha : a.ty.bits = n) (h : v.Num ev n a.bits) : v.Word ev (BitVec.ofNat n a.bits) :=
  ⟨h.ty, by rw [h.eq, BitVec.toNat_ofNat, Nat.mod_eq_of_lt (ha ▸ a.lt)]⟩

def joinedIn (t : Ty) {n : ℕ} (h : t.bits = 2 * n) (hi lo : BitVec n) : Datum where
  ty := t
  bits := joined hi lo
  lt := h ▸ joined_lt hi lo

theorem yields_hlTo {n : ℕ} (hn : 0 < n) {a b : Datum} (ha : a.ty = .int n) (hb : b.ty = .int n) :
    (OpEmit.hlTo n (2 * n)).Yields [a, b]
      (joinedIn (.int (2 * n)) rfl (BitVec.ofNat n a.bits) (BitVec.ofNat n b.bits)) :=
  yields_binary fun _ _ _ _ _ hev h₁ h₂ =>
    computes_hlTo hev hn (word_of_num (ha ▸ rfl) ⟨h₁.ty.trans ha, h₁.eq⟩)
      (word_of_num (hb ▸ rfl) ⟨h₂.ty.trans hb, h₂.eq⟩)

theorem yields_hl64toV128 {a b : Datum} (ha : a.ty.bits = 64) (hb : b.ty.bits = 64) :
    OpEmit.hl64toV128.Yields [a, b]
      (joinedIn (.vec 16 (.int 8)) rfl (BitVec.ofNat 64 a.bits) (BitVec.ofNat 64 b.bits)) := by
  refine yields_binary fun _ ev m v₁ v₂ hev h₁ h₂ => ?_
  refine (computes_bitCast h₁ _).then fun w₁ hw₁ => (computes_bitCast h₂ _).then fun w₂ hw₂ => ?_
  exact (computes_hlTo hev (by decide) (word_of_num ha hw₁) (word_of_num hb hw₂)).then fun j hj =>
    computes_bitCast hj _

theorem yields_hl (fp : FPImpl) {e : SplitOps} (he : e ∈ splitOps) {a b : Datum} (ha : e.Takes a)
    (hb : e.Takes b) : ∃ x : Datum, (opEmit fp e.hl).Yields [a, b] x ∧ x.ty.bits = 2 * e.n ∧
      x.bits = joined (BitVec.ofNat e.n a.bits) (BitVec.ofNat e.n b.bits) := by
  obtain ⟨hwa, hta⟩ := ha
  obtain ⟨hwb, htb⟩ := hb
  simp only [splitOps, List.mem_cons, List.not_mem_nil, or_false] at he
  rcases he with rfl | rfl | rfl | rfl | rfl
  · exact ⟨_, yields_hlTo (by decide) (hta.resolve_right (by decide))
      (htb.resolve_right (by decide)), rfl, rfl⟩
  · exact ⟨_, yields_hlTo (by decide) (hta.resolve_right (by decide))
      (htb.resolve_right (by decide)), rfl, rfl⟩
  · exact ⟨_, yields_hlTo (by decide) (hta.resolve_right (by decide))
      (htb.resolve_right (by decide)), rfl, rfl⟩
  · exact ⟨_, yields_hlTo (by decide) (hta.resolve_right (by decide))
      (htb.resolve_right (by decide)), rfl, rfl⟩
  · exact ⟨_, yields_hl64toV128 hwa hwb, rfl, rfl⟩

theorem yields_hi (fp : FPImpl) {e : SplitOps} (he : e ∈ splitOps) {x : Datum}
    (hx : x.ty.bits = 2 * e.n) :
    (opEmit fp e.hi).Yields [x] (.ofWord (BitVec.ofNat e.n (x.bits / 2 ^ e.n))) := by
  have hlane : laneOf 64 x.bits 1 = BitVec.ofNat 64 (x.bits / 2 ^ 64) := by
    rw [laneOf, LLVM.lane, ← BitVec.toNat_ofNat, BitVec.ofNat_toNat, BitVec.setWidth_eq,
      Nat.mul_one]
  refine yields_unary fun _ ev m v hev h => ?_
  simp only [splitOps, List.mem_cons, List.not_mem_nil, or_false] at he
  rcases he with rfl | rfl | rfl | rfl | rfl
  · exact computes_xhiToY hev (by decide) h hx
  · exact computes_xhiToY hev (by decide) h hx
  · exact computes_xhiToY hev (by decide) h hx
  · have hbits : v.ty.bits = 128 := h.ty ▸ hx
    change (emitHi128to64 v).Computes ev m _
    rw [emitHi128to64, if_pos hbits]
    exact hlane ▸ computes_v128to64 hev h hx (by decide)
  · exact hlane ▸ computes_v128to64 hev h hx (by decide)

theorem yields_lo (fp : FPImpl) {e : SplitOps} (he : e ∈ splitOps) {x : Datum}
    (hx : x.ty.bits = 2 * e.n) :
    (opEmit fp e.lo).Yields [x] (.ofWord (BitVec.ofNat e.n x.bits)) := by
  have hlane : laneOf 64 x.bits 0 = BitVec.ofNat 64 x.bits := by
    rw [laneOf, LLVM.lane, ← BitVec.toNat_ofNat, BitVec.ofNat_toNat, BitVec.setWidth_eq,
      Nat.mul_zero,
      pow_zero, Nat.div_one]
  refine yields_unary fun _ ev m v hev h => ?_
  simp only [splitOps, List.mem_cons, List.not_mem_nil, or_false] at he
  rcases he with rfl | rfl | rfl | rfl | rfl
  · exact computes_xToY (by decide) h hx
  · exact computes_xToY (by decide) h hx
  · exact computes_xToY (by decide) h hx
  · exact computes_xToY (by decide) h hx
  · exact hlane ▸ computes_v128to64 hev h hx (by decide)

end SplitOps

/-- Joining two words and taking the result apart gives the words back, and so does
taking a word apart and joining its halves, in whatever type it is carried. -/
theorem splitOps_statement (fp : FPImpl) (e : SplitOps) (he : e ∈ splitOps) :
    (∀ hi lo : Datum, e.Takes hi → e.Takes lo → ∃ x : Datum,
      (opEmit fp e.hl).Yields [hi, lo] x ∧ x.ty.bits = 2 * e.n ∧
      ∃ hi' lo' : Datum, (opEmit fp e.hi).Yields [x] hi' ∧ (opEmit fp e.lo).Yields [x] lo' ∧
        hi'.bits = hi.bits ∧ lo'.bits = lo.bits ∧ e.Takes hi' ∧ e.Takes lo') ∧
    ∀ x : Datum, x.ty.bits = 2 * e.n → ∃ hi lo : Datum,
      (opEmit fp e.hi).Yields [x] hi ∧ (opEmit fp e.lo).Yields [x] lo ∧
      ∃ x' : Datum, (opEmit fp e.hl).Yields [hi, lo] x' ∧ x'.ty.bits = 2 * e.n ∧
        x'.bits = x.bits := by
  have htake : ∀ b : BitVec e.n, e.Takes (.ofWord b) := fun b => ⟨rfl, .inl rfl⟩
  refine ⟨fun hi lo hhi hlo => ?_, fun x hx => ?_⟩
  · obtain ⟨x, hy, hw, hb⟩ := SplitOps.yields_hl fp he hhi hlo
    refine ⟨x, hy, hw, _, _, SplitOps.yields_hi fp he hw, SplitOps.yields_lo fp he hw, ?_, ?_,
      htake _, htake _⟩
    · change (BitVec.ofNat e.n (x.bits / 2 ^ e.n)).toNat = hi.bits
      rw [hb, joined_div, BitVec.ofNat_toNat, BitVec.setWidth_eq, BitVec.toNat_ofNat,
        Nat.mod_eq_of_lt (hhi.1 ▸ hi.lt)]
    · change (BitVec.ofNat e.n x.bits).toNat = lo.bits
      rw [hb, BitVec.toNat_ofNat, joined_mod, BitVec.toNat_ofNat, Nat.mod_eq_of_lt (hlo.1 ▸ lo.lt)]
  · obtain ⟨x', hy, hw, hb⟩ := SplitOps.yields_hl fp he (htake (BitVec.ofNat e.n (x.bits / 2 ^ e.n)))
      (htake (BitVec.ofNat e.n x.bits))
    refine ⟨_, _, SplitOps.yields_hi fp he hx, SplitOps.yields_lo fp he hx, x', hy, hw, ?_⟩
    rw [hb]
    have hval : ∀ b : BitVec e.n, BitVec.ofNat e.n (Datum.ofWord b).bits = b := fun b => by
      change BitVec.ofNat e.n b.toNat = b
      rw [BitVec.ofNat_toNat, BitVec.setWidth_eq]
    rw [hval, hval, joined_split (hx ▸ x.lt)]

/-- A vector of bytes and an integer joined into a vector, and a vector of words
taken apart. -/
theorem splitOps_v128 :
    (∃ x hi : Datum, (opEmit .native ._64HLtoV128).Yields
      [⟨.vec 8 (.int 8), 5, by decide⟩, ⟨.int 64, 7, by decide⟩] x ∧
      (opEmit .native .V128HIto64).Yields [x] hi ∧ hi.bits = 5) ∧
    ∃ hi : Datum,
      (opEmit .native .V128HIto64).Yields [⟨.vec 4 (.int 32), 2 ^ 64 + 7, by decide⟩] hi := by
  obtain ⟨hjoin, hsplit⟩ := splitOps_statement .native ⟨._64HLtoV128, .V128HIto64, .V128to64, 64⟩
    (by decide)
  obtain ⟨x, hx, -, hi, -, hhi, -, hb, -⟩ := hjoin ⟨.vec 8 (.int 8), 5, by decide⟩
    ⟨.int 64, 7, by decide⟩ ⟨rfl, .inr rfl⟩ ⟨rfl, .inr rfl⟩
  obtain ⟨hi', -, h, -⟩ := hsplit ⟨.vec 4 (.int 32), 2 ^ 64 + 7, by decide⟩ rfl
  exact ⟨⟨x, hi, hx, hhi, hb⟩, hi', h⟩

/-! ## Division -/

/-- A division of a word of `w` bits by one of half the width, as its name has
it. -/
structure DivOp where
  op : Iop
  w : ℕ
  signed : Bool
  deriving DecidableEq, Repr

def divOps : List DivOp :=
  [⟨.DivModU128to64, 128, false⟩, ⟨.DivModS128to64, 128, true⟩, ⟨.DivModU64to32, 64, false⟩,
    ⟨.DivModS64to32, 64, true⟩]

theorem opEmit_divOps (fp : FPImpl) :
    ∀ e ∈ divOps, opEmit fp e.op = .divmod e.signed e.w ∧ 2 ≤ e.w ∧ e.w = 2 * (e.w / 2) := by
  cases fp <;> decide

section Division

variable {w h : ℕ} {signed : Bool}

/-- Two numbers packed by a shift and an or stay out of each other's half. -/
theorem halves_shl_or (hw : w = 2 * h) (q r : ℤ) :
    let z := ((BitVec.ofInt w q).setWidth h).setWidth w ||| BitVec.ofInt w r <<< h
    z.setWidth h = BitVec.ofInt h q ∧ (z >>> h).setWidth h = BitVec.ofInt h r := by
  intro z
  constructor
  · rw [← setWidth_ofInt (show h ≤ w by omega) q]
    ext i hi
    simp [z, hi, show i < w by omega]
  · rw [← setWidth_ofInt (show h ≤ w by omega) r]
    ext i hi
    simp [z, show i < w by omega, show h + i < w by omega]

/-- The quotient, as the instruction computes it. -/
theorem eval_div (a b : BitVec w) (hb : ¬b = 0#w)
    (ho : ¬(signed = true ∧ a = BitVec.intMin w ∧ b = -1#w)) :
    (if signed then BinOp.sdiv else .udiv).eval w a.toNat b.toNat =
      some (BitVec.ofInt w ((reading signed a).tdiv (reading signed b))).toNat := by
  cases signed
  · have hq : BitVec.ofInt w ((a.toNat : ℤ).tdiv b.toNat) = a / b := by
      refine BitVec.eq_of_toNat_eq ?_
      rw [Int.tdiv_eq_ediv_of_nonneg (Int.natCast_nonneg _), ← Int.natCast_ediv,
        BitVec.ofInt_natCast,
        BitVec.toNat_ofNat, BitVec.toNat_udiv]
      exact Nat.mod_eq_of_lt (Nat.lt_of_le_of_lt (Nat.div_le_self _ _) a.isLt)
    change BinOp.udiv.eval w a.toNat b.toNat =
      some (BitVec.ofInt w ((a.toNat : ℤ).tdiv b.toNat)).toNat
    rw [hq]
    simp [BinOp.eval, hb]
  · have ho' : ¬(a = BitVec.intMin w ∧ b = -1#w) := fun h => ho ⟨rfl, h⟩
    have hq : BitVec.ofInt w (a.toInt.tdiv b.toInt) = a.sdiv b := by
      rw [← BitVec.toInt_sdiv_of_ne_or_ne a b (not_and_or.1 ho'), BitVec.ofInt_toInt]
    change BinOp.sdiv.eval w a.toNat b.toNat = some (BitVec.ofInt w (a.toInt.tdiv b.toInt)).toNat
    rw [hq]
    simpa [BinOp.eval, hb] using ho'

theorem eval_rem (a b : BitVec w) (hb : ¬b = 0#w)
    (ho : ¬(signed = true ∧ a = BitVec.intMin w ∧ b = -1#w)) :
    (if signed then BinOp.srem else .urem).eval w a.toNat b.toNat =
      some (BitVec.ofInt w ((reading signed a).tmod (reading signed b))).toNat := by
  cases signed
  · have hr : BitVec.ofInt w ((a.toNat : ℤ).tmod b.toNat) = a % b := by
      refine BitVec.eq_of_toNat_eq ?_
      rw [Int.tmod_eq_emod_of_nonneg (Int.natCast_nonneg _), ← Int.natCast_emod,
        BitVec.ofInt_natCast,
        BitVec.toNat_ofNat, BitVec.toNat_umod]
      exact Nat.mod_eq_of_lt (Nat.lt_of_le_of_lt (Nat.mod_le _ _) a.isLt)
    change BinOp.urem.eval w a.toNat b.toNat =
      some (BitVec.ofInt w ((a.toNat : ℤ).tmod b.toNat)).toNat
    rw [hr]
    simp [BinOp.eval, hb]
  · have ho' : ¬(a = BitVec.intMin w ∧ b = -1#w) := fun h => ho ⟨rfl, h⟩
    have hr : BitVec.ofInt w (a.toInt.tmod b.toInt) = a.srem b := by
      rw [← BitVec.toInt_srem, BitVec.ofInt_toInt]
    change BinOp.srem.eval w a.toNat b.toNat = some (BitVec.ofInt w (a.toInt.tmod b.toInt)).toNat
    rw [hr]
    simpa [BinOp.eval, hb] using ho'

/-- A remainder fits where its divisor does. -/
theorem fits_tmod {n d : ℤ} (hd : d ≠ 0) (hn : signed = false → 0 ≤ n) (h₁ : Fits signed h d) :
    Fits signed h (n.tmod d) := by
  have hlt : (n.tmod d).natAbs < d.natAbs := by
    rw [Int.natAbs_tmod]
    exact Nat.mod_lt _ (Int.natAbs_pos.2 hd)
  cases signed
  · have hpos := Int.tmod_nonneg d (hn rfl)
    simp only [Fits, least, greatest, if_neg Bool.false_ne_true] at *
    omega
  · simp only [Fits, least, greatest, if_true] at *
    omega

end Division

/-- The bits of a word, in any type of their number. -/
def Datum.carrying (t : Ty) {w : ℕ} (h : t.bits = w) (b : BitVec w) : Datum where
  ty := t
  bits := b.toNat
  lt := h ▸ b.isLt

/-- The quotient truncated to the low half, and the remainder in the high half. -/
theorem DivOp.yields (e : DivOp) (hw : 2 ≤ e.w) (hh : e.w = 2 * (e.w / 2)) {t : Ty}
    (ht : t.bits = e.w) (n : BitVec e.w) (d : BitVec (e.w / 2)) (hd : reading e.signed d ≠ 0)
    (ho : ¬(e.signed = true ∧ reading e.signed n = least e.signed e.w ∧
      reading e.signed d = -1)) :
    ∃ z : BitVec e.w, (OpEmit.divmod e.signed e.w).Yields [.carrying t ht n, .ofWord d]
      (.ofWord z) ∧
      z.setWidth (e.w / 2) =
        BitVec.ofInt (e.w / 2) ((reading e.signed n).tdiv (reading e.signed d)) ∧
      (z >>> (e.w / 2)).setWidth (e.w / 2) =
        BitVec.ofInt (e.w / 2) ((reading e.signed n).tmod (reading e.signed d)) := by
  have hlt : e.w / 2 < e.w := by omega
  have hread : reading e.signed (extend e.signed e.w d) = reading e.signed d :=
    reading_extend d (by omega) hlt
  have hne : ¬extend e.signed e.w d = 0#e.w := fun h0 => hd (by rw [← hread, h0, reading_zero])
  have ho' : ¬(e.signed = true ∧ n = BitVec.intMin e.w ∧ extend e.signed e.w d = -1#e.w) := by
    rintro ⟨hs, hn, hm⟩
    refine ho ⟨hs, ?_, ?_⟩
    · rw [hn, hs, reading_intMin (by omega)]
    · rw [← hread, hm, hs, reading_neg_one (by omega)]
  refine ⟨_, yields_binary fun _ ev m v₁ v₂ hev h₁ h₂ => ?_, halves_shl_or hh _ _⟩
  change (emitDivmod e.signed e.w v₁ v₂).Computes ev m _
  unfold emitDivmod
  refine (computes_bitCast h₁ (.int e.w)).then fun c₁ hc₁ => ?_
  refine (computes_ext e.signed h₂ hlt).then fun c₂ hc₂ => ?_
  refine (computes_bin hc₁ hc₂ (eval_div _ _ hne ho')).then fun q hq => ?_
  refine (computes_bin hc₁ hc₂ (eval_rem _ _ hne ho')).then fun r hr => ?_
  rw [hread] at hq hr
  refine (computes_bin hr (word_constInt hev e.w (e.w / 2)) (eval_shl _ hlt)).then fun s hs => ?_
  refine (computes_truncWord hq (Nat.le_of_lt hlt)).then fun l hl => ?_
  refine (computes_zext hl e.w).then fun x hx => ?_
  rw [← BitVec.toNat_setWidth_of_le (Nat.le_of_lt hlt)] at hx
  exact computes_bin hx hs (eval_or _ _)

/-- Division is exact: the low half of the result is the quotient rounded towards
zero, cut to the half, and the high half is the remainder. Where the quotient fits
the half, dividend, divisor, quotient and remainder are as they should be. -/
theorem divOps_statement (fp : FPImpl) (e : DivOp) (he : e ∈ divOps) (t : Ty) (ht : t.bits = e.w)
    (n : BitVec e.w) (d : BitVec (e.w / 2)) (hd : reading e.signed d ≠ 0)
    (ho : ¬(e.signed = true ∧ reading e.signed n = least e.signed e.w ∧
      reading e.signed d = -1)) :
    ∃ z : BitVec e.w, (opEmit fp e.op).Yields [.carrying t ht n, .ofWord d] (.ofWord z) ∧
      let low := z.setWidth (e.w / 2)
      let high := (z >>> (e.w / 2)).setWidth (e.w / 2)
      low = BitVec.ofInt (e.w / 2) ((reading e.signed n).tdiv (reading e.signed d)) ∧
      reading e.signed high = (reading e.signed n).tmod (reading e.signed d) ∧
      (Fits e.signed (e.w / 2) ((reading e.signed n).tdiv (reading e.signed d)) →
        reading e.signed n = reading e.signed low * reading e.signed d + reading e.signed high ∧
        (reading e.signed high).natAbs < (reading e.signed d).natAbs ∧
        (0 ≤ reading e.signed n → 0 ≤ reading e.signed high) ∧
        (reading e.signed n ≤ 0 → reading e.signed high ≤ 0)) := by
  obtain ⟨hop, hw, hh⟩ := opEmit_divOps fp e he
  obtain ⟨z, hz, hlow, hhigh⟩ := e.yields hw hh ht n d hd ho
  have hpos : 0 < e.w / 2 := by omega
  have hr : reading e.signed ((z >>> (e.w / 2)).setWidth (e.w / 2)) =
      (reading e.signed n).tmod (reading e.signed d) := by
    rw [hhigh]
    exact reading_ofInt (fits_tmod hd (reading_nonneg n) (fits_reading _ d)) hpos
  refine ⟨z, hop ▸ hz, hlow, hr, fun hfits => ?_⟩
  rw [hr, hlow, reading_ofInt hfits hpos]
  refine ⟨(Int.tdiv_mul_add_tmod _ _).symm, ?_, fun hn => Int.tmod_nonneg _ hn, fun hn => ?_⟩
  · rw [Int.natAbs_tmod]
    exact Nat.mod_lt _ (Int.natAbs_pos.2 hd)
  · have := Int.tmod_nonneg (reading e.signed d) (Int.neg_nonneg_of_nonpos hn)
    rw [Int.neg_tmod] at this
    omega

/-- `-7` divided by `2` is `-3`, and leaves `-1`. -/
theorem divOps_signed : ∃ z : BitVec 64,
    (opEmit .native .DivModS64to32).Yields
      [.carrying (.int 64) rfl (-7 : BitVec 64), .ofWord (2 : BitVec 32)] (.ofWord z) ∧
    z.setWidth 32 = (-3 : BitVec 32) ∧ ((z >>> 32).setWidth 32).toInt = -1 := by
  obtain ⟨z, hz, hlow, hhigh, -⟩ := divOps_statement .native ⟨.DivModS64to32, 64, true⟩ (by decide)
    (.int 64) rfl (-7 : BitVec 64) (2 : BitVec 32) (by decide) (by decide)
  exact ⟨z, hz, hlow.trans (by decide), hhigh.trans (by decide)⟩

end VexLLVM
