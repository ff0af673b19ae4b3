import VexLLVM.Emit.Access
import VexLLVM.Emit.VexStmt
import VexLLVM.Lib.Words

/-!
# Register arrays

`PutI` and `GetI` on an array in the guest context. The index and the bias wrap
around at `2 ^ 32` and then at the number of elements, and the pointer is moved by
elements, counted from the start of the context in 32 bits with a sign.
-/

namespace VexLLVM

open LLVM LLVM.Code Vex

/-- Where element `k` of an array of `n`-byte elements is in the context. -/
def elemOff (off n k : ℕ) : BitVec 64 :=
  (BitVec.ofNat 32 (k + off / n)).signExtend 64 * BitVec.ofNat 64 n

def InArray (off n len : ℕ) (a : BitVec 64) : Prop :=
  ∃ k < len, ∃ b < n, a = elemOff off n k + BitVec.ofNat 64 b

section Places

variable {off n len k k' b : ℕ} {bias : ℤ} {x : ℕ}

theorem ctxElem_lt (bias : ℤ) (hlen : 1 ≤ len) (x : ℕ) : ctxElem bias len x < len :=
  Nat.mod_lt _ hlen

/-- Elements below `2 ^ 31` are one after the other. -/
theorem elemOff_eq (hoff : off % n = 0) (hk : k + off / n < 2 ^ 31) :
    elemOff off n k = BitVec.ofNat 64 (off + k * n) := by
  rw [elemOff, elemAddr_eq hk, Nat.add_mul, Nat.div_mul_cancel (Nat.dvd_of_mod_eq_zero hoff),
    Nat.add_comm]

/-- The element's number, read with a sign. -/
theorem elemOff_ofInt (off n k : ℕ) :
    elemOff off n k = BitVec.ofInt 64 ((BitVec.ofNat 32 (k + off / n)).toInt * n) := by
  rw [elemOff, BitVec.ofInt_mul, BitVec.ofInt_natCast]
  rfl

/-- The bytes of two elements are apart, wherever the numbers wrap around. -/
theorem elemOff_apart (hn : n < 2 ^ 31) (hk : k < 2 ^ 32) (hk' : k' < 2 ^ 32) (hne : k ≠ k')
    (hb : b < n) : n ≤ (elemOff off n k' + BitVec.ofNat 64 b - elemOff off n k).toNat := by
  rw [elemOff_ofInt, elemOff_ofInt]
  have hs : (BitVec.ofNat 32 (k + off / n)).toInt ≠ (BitVec.ofNat 32 (k' + off / n)).toInt := by
    intro h
    have heq := congrArg BitVec.toNat (BitVec.eq_of_toInt_eq h)
    rw [BitVec.toNat_ofNat, BitVec.toNat_ofNat] at heq
    omega
  have hlt := BitVec.toInt_lt (x := BitVec.ofNat 32 (k + off / n))
  have hlt' := BitVec.toInt_lt (x := BitVec.ofNat 32 (k' + off / n))
  have hle := BitVec.le_toInt (x := BitVec.ofNat 32 (k + off / n))
  have hle' := BitVec.le_toInt (x := BitVec.ofNat 32 (k' + off / n))
  generalize (BitVec.ofNat 32 (k + off / n)).toInt = s at hs hlt hle
  generalize (BitVec.ofNat 32 (k' + off / n)).toInt = s' at hs hlt' hle'
  rw [← BitVec.ofInt_natCast 64 b, ← BitVec.ofInt_add, ← Word.ofInt_sub, BitVec.toNat_ofInt]
  -- the distance of the starts is a multiple of `n` and less than `2 ^ 63`
  have hd : s' * n + b - s * n = (s' - s) * n + b := by ring
  have hmul : ∀ {p q : ℤ}, p ≤ q → p * n ≤ q * n := fun h =>
    Int.mul_le_mul_of_nonneg_right h (Int.natCast_nonneg n)
  have hlow : -(2 ^ 32) * (n : ℤ) ≤ (s' - s) * n := hmul (by omega)
  have hhigh : (s' - s) * n ≤ 2 ^ 32 * n := hmul (by omega)
  rw [hd]
  rcases Int.lt_or_gt_of_ne hs with h | h
  · have : 1 * (n : ℤ) ≤ (s' - s) * n := hmul (by omega)
    omega
  · have : (s' - s) * n ≤ -1 * (n : ℤ) := hmul (by omega)
    omega

/-- For a power of two, the wrap around at `2 ^ 32` is not seen. -/
theorem ctxElem_two_pow {m : ℕ} (hm : m ≤ 32) (bias : ℤ) (i : BitVec 32) :
    (ctxElem bias (2 ^ m) i.toNat : ℤ) = (i.toInt + bias) % (2 ^ m : ℕ) := by
  have hsum : BitVec.ofNat 32 i.toNat + BitVec.ofInt 32 bias = BitVec.ofInt 32
    (i.toInt + bias) := by
    rw [BitVec.ofNat_toNat, BitVec.setWidth_eq, BitVec.ofInt_add, BitVec.ofInt_toInt]
  have hdvd : ((2 ^ m : ℕ) : ℤ) ∣ ((2 ^ 32 : ℕ) : ℤ) :=
    Int.natCast_dvd_natCast.2 (Nat.pow_dvd_pow 2 hm)
  rw [ctxElem, hsum, BitVec.toNat_ofInt, Int.natCast_mod, Int.toNat_of_nonneg
    (Int.emod_nonneg _ (by decide)),
    Int.emod_emod_of_dvd _ hdvd]

end Places

def readElem (M : Machine) (off n k : ℕ) : ℕ := readBytes M.ctx (elemOff off n k) n

def writeElem (M : Machine) (off n k x : ℕ) : Machine := M.setCtx (elemOff off n k) n x

section Elements

variable {M : Machine} {off n len k k' x : ℕ}

theorem readElem_writeElem (hn : n < 2 ^ 31) (hk : k < 2 ^ 32) (hk' : k' < 2 ^ 32)
    (hx : x < 2 ^ (8 * n)) :
    readElem (writeElem M off n k x) off n k' = if k = k' then x else readElem M off n k' := by
  by_cases h : k = k'
  · subst h
    rw [if_pos rfl, readElem, writeElem, Machine.setCtx, readBytes_writeBytes (by omega),
      Nat.mod_eq_of_lt hx]
  · rw [if_neg h]
    exact readBytes_writeBytes_of_le fun b hb => elemOff_apart hn hk hk' h hb

theorem writeElem_ctx {a : BitVec 64} (hk : k < len) (ha : ¬ InArray off n len a) :
    (writeElem M off n k x).ctx a = M.ctx a := by
  refine writeBytes_of_le (Nat.le_of_not_lt fun hlt => ha ⟨k, hk, _, hlt, ?_⟩)
  rw [BitVec.ofNat_toNat, BitVec.setWidth_eq, add_sub_cancel]

end Elements

section Emit

variable {ext : Extern} {total : Bool} {R : Frame → RVal → Prop} {ρ : IRTemp → Option (Ty × ℕ)}
  {L : List (LLVM.Value × RVal)} {M : Machine} {gen : GenLLVM} {ix data : VexExpr} {i x off len : ℕ}
  {t : Ty}

theorem runs_putI (types : List IRType) (bias : ℤ) (ht : t.bytes ≠ 0) (hoff : off % t.bytes = 0)
    (hlen : 1 ≤ len) (hlen' : len < 2 ^ 31) (hi : Operand gen ρ ix (.int 32) (.bits i))
    (hd : Operand gen ρ data t (.bits x)) :
    Runs total ext (Stands ρ L M) ((VexStmt.putI off len ix bias data).emit gen types)
      (fun _ => Stands ρ L (writeElem M off t.bytes (ctxElem bias len i) x)) R := by
  unfold VexStmt.emit
  refine (hd total ext L M R).got fun v hv => ?_
  subst hv
  refine (hi total ext _ M R).got fun u hu => ?_
  exact (runs_writeCtxI gen bias ht hoff hlen (by omega) hu (List.mem_cons_self ..)
    (List.mem_cons_of_mem _ (List.mem_cons_self ..))).post fun _ _ _ h => h.drop.drop

theorem runs_getI {ty : IRType} (bias : ℤ) (hty : vexTy2LLVM ty = some t) (ht : t.bytes ≠ 0)
    (hoff : off % t.bytes = 0) (hlen : 1 ≤ len) (hlen' : len < 2 ^ 31)
    (hi : Operand gen ρ ix (.int 32) (.bits i)) :
    Runs total ext (Stands ρ L M) ((VexExpr.getI off len ty ix bias).emit gen)
      (Got ρ L M t (.bits (readElem M off t.bytes (ctxElem bias len i)))) R := by
  unfold VexExpr.emit
  refine (hi total ext L M R).got fun u hu => ?_
  rw [llvmTy_of_some hty, pure_bind]
  exact (runs_readCtxI gen bias ht hoff hlen (by omega) hu (List.mem_cons_self ..)).post
    fun _ _ _ h => h.drop

end Emit

/-- What a `GetI` hands back is the element its index and bias select, and after a
`PutI` it is what was put there if that was the same element, and else what it was
before. Nothing outside of the elements changes. The element selected is one of the
array, which lies where its base and its length say as long as its elements are
counted in 31 bits, and for a power of two it is selected by the mathematical
remainder. -/
theorem regArray_statement (gen : GenLLVM) (types : List IRType) (total : Bool) (ext : Extern)
    (R : Frame → RVal → Prop) (ρ : IRTemp → Option (Ty × ℕ)) (L : List (LLVM.Value × RVal))
    (M : Machine) (ix jx data : VexExpr) (i j : BitVec 32) (x off len : ℕ) (bias bias' : ℤ)
    (ty : IRType) (t tv : Ty) (hty : vexTy2LLVM ty = some t) (ht : t.bytes ≠ 0)
    (htv : tv.bytes = t.bytes) (hx : x < 2 ^ (8 * tv.bytes)) (hoff : off % t.bytes = 0)
    (hlen : 1 ≤ len) (hlen' : len < 2 ^ 31) (hi : Operand gen ρ ix (.int 32) (.bits i.toNat))
    (hj : Operand gen ρ jx (.int 32) (.bits j.toNat)) (hd : Operand gen ρ data tv (.bits x)) :
    let k := ctxElem bias len i.toNat
    let k' := ctxElem bias' len j.toNat
    let M' := writeElem M off t.bytes k x
    Runs total ext (Stands ρ L M) ((VexExpr.getI off len ty jx bias').emit gen)
      (Got ρ L M t (.bits (readElem M off t.bytes k'))) R ∧
    Runs total ext (Stands ρ L M) (do
        (VexStmt.putI off len ix bias data).emit gen types
        (VexExpr.getI off len ty jx bias').emit gen)
      (Got ρ L M' t (.bits (if k = k' then x else readElem M off t.bytes k'))) R ∧
    (∀ a, ¬ InArray off t.bytes len a → M'.ctx a = M.ctx a) ∧
    (k < len ∧ k' < len) ∧
    (off / t.bytes + len ≤ 2 ^ 31 →
      ∀ k < len, elemOff off t.bytes k = BitVec.ofNat 64 (off + k * t.bytes)) ∧
    ∀ m, len = 2 ^ m → (k : ℤ) = (i.toInt + bias) % len := by
  have hn : t.bytes < 2 ^ 31 := by
    cases ty <;> cases hty <;> decide
  have hk := ctxElem_lt bias hlen i.toNat
  have hk' := ctxElem_lt bias' hlen j.toNat
  rw [htv] at hx
  refine ⟨runs_getI bias' hty ht hoff hlen hlen' hj, ?_, fun a ha => writeElem_ctx hk ha, ⟨hk, hk'⟩,
    fun hle k hk => elemOff_eq hoff (by omega), fun m hm => ?_⟩
  · rw [← readElem_writeElem hn (by omega) (by omega) hx]
    have hput : Runs total ext (Stands ρ L M) ((VexStmt.putI off len ix bias data).emit gen types)
        (fun _ => Stands ρ L (writeElem M off tv.bytes (ctxElem bias len i.toNat) x)) R :=
      runs_putI types bias (htv ▸ ht) (htv ▸ hoff) hlen hlen' hi hd
    rw [htv] at hput
    exact hput.bind fun _ => runs_getI bias' hty ht hoff hlen hlen' hj
  · have hm' : m ≤ 32 := by
      by_contra hlt
      have := Nat.pow_le_pow_right Nat.two_pos (show 32 ≤ m by omega)
      omega
    subst hm
    exact ctxElem_two_pow hm' bias i

/-- Eight words from offset 64 on. Index 0 with a bias of minus one is the last. -/
theorem regArray_minusOne :
    let M : Machine := ⟨fun _ => 0, fun _ => 0, []⟩
    Runs true (fun _ _ _ => none) (Stands (fun _ => none) [] M) (do
        (VexStmt.putI 64 8 (.const (.U32 0)) (-1) (.const (.U64 5))).emit plainGen []
        (VexExpr.getI 64 8 .I64 (.const (.U32 7)) 0).emit plainGen)
      (Got (fun _ => none) [] (writeElem M 64 8 7 5) (.int 64) (.bits 5)) (fun _ _ => False) ∧
    elemOff 64 8 7 = 120 := by
  intro M
  obtain ⟨-, hget, -, -, hoff, -⟩ := regArray_statement plainGen [] true (fun _ _ _ => none)
    (fun _ _ => False) (fun _ => none) [] M (.const (.U32 0)) (.const (.U32 7)) (.const (.U64 5)) 0 7
    5 64 8 (-1) 0 .I64 (.int 64) (.int 64) rfl (by decide) rfl (by decide) rfl (by decide) (by decide)
    (operand_const plainGen _ rfl) (operand_const plainGen _ rfl) (operand_const plainGen _ rfl)
  exact ⟨hget, hoff (by decide) 7 (by decide)⟩

end VexLLVM
