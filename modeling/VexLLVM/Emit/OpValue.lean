import VexLLVM.LLVM.Lanes
import VexLLVM.Emit.OpTable
import VexLLVM.Emit.Access

/-!
# The value of an operation

What the code emitted for an operation computes, on operands whose types and
bits are given.
-/

namespace VexLLVM

open LLVM LLVM.Code Vex

structure Datum where
  ty : Ty
  bits : ℕ
  lt : bits < 2 ^ ty.bits

/-- Under `ev` the LLVM value is the operand. -/
def Datum.Carried (ev : LLVM.Value → Option RVal) (v : LLVM.Value) (a : Datum) : Prop :=
  v.Holds ev a.ty (.bits a.bits)

/-- Emitted on values that are the operands, the operation computes `r`. -/
def OpEmit.Yields (o : OpEmit) (args : List Datum) (r : Datum) : Prop :=
  ∀ (helpers : Helpers) (ev : LLVM.Value → Option RVal) (m : Machine) (vs : List LLVM.Value),
    Consts ev → List.Forall₂ (Datum.Carried ev) vs args →
      (o.build helpers vs).Computes ev m fun v => r.Carried ev v

def Datum.lane (a : Datum) (w i : ℕ) : BitVec w := laneOf w a.bits i

def Datum.ofLanes {w : ℕ} (n : ℕ) (f : ℕ → BitVec w) : Datum where
  ty := .vec n (.int w)
  bits := pack n f
  lt := pack_lt n f

def Datum.ofWord {w : ℕ} (b : BitVec w) : Datum where
  ty := .int w
  bits := b.toNat
  lt := b.isLt

/-- On two vectors of `n` lanes of `w` bits, in whatever types carry them, the
operation computes a value of the type `t` each lane of which stands in the
relation `φ` to the two lanes at its place. -/
def OpEmit.LaneWise (o : OpEmit) (n w : ℕ) (t : Ty) (φ : BitVec w → BitVec w → BitVec w → Prop) :
    Prop :=
  ∀ a b : Datum, a.ty.bits = n * w → b.ty.bits = n * w →
    ∃ r : Datum, o.Yields [a, b] r ∧ r.ty = t ∧
      ∀ i < n, φ (a.lane w i) (b.lane w i) (r.lane w i)

/-- An operation on vectors of `n` lanes of `w` bits, as its name has it. -/
structure LaneOp where
  op : Iop
  w : ℕ
  signed : Bool
  n : ℕ
  deriving DecidableEq, Repr

structure SumOp where
  op : Iop
  sub : Bool
  w : ℕ
  signed : Bool
  n : ℕ
  deriving DecidableEq, Repr

namespace SumOp

def exact (e : SumOp) (x y : ℤ) : ℤ := if e.sub then x - y else x + y

def binOp (e : SumOp) : BinOp := if e.sub then .sub else .add

theorem eval_binOp (e : SumOp) (d : ℕ) (x y : ℤ) :
    e.binOp.eval d (BitVec.ofInt d x).toNat (BitVec.ofInt d y).toNat =
      some (BitVec.ofInt d (e.exact x y)).toNat := by
  unfold binOp exact
  split
  · rw [eval_sub, Word.ofInt_sub]
  · rw [eval_add, BitVec.ofInt_add]

end SumOp

section Rules

variable {ev : LLVM.Value → Option RVal} {m : Machine} {o : OpEmit} {a b r : Datum} {n w : ℕ}

@[simp] theorem Datum.lane_ofLanes {f : ℕ → BitVec w} {i : ℕ} (h : i < n) :
    (Datum.ofLanes n f).lane w i = f i :=
  laneOf_pack h

theorem yields_unary
    (h : ∀ helpers ev m v, Consts ev → a.Carried ev v →
      (o.build helpers [v]).Computes ev m fun v => r.Carried ev v) : o.Yields [a] r := by
  intro helpers ev m vs hev hvs
  cases hvs with
  | cons h₁ hvs =>
      cases hvs with
      | nil => exact h helpers ev m _ hev h₁

theorem yields_binary
    (h : ∀ helpers ev m v₁ v₂, Consts ev → a.Carried ev v₁ → b.Carried ev v₂ →
      (o.build helpers [v₁, v₂]).Computes ev m fun v => r.Carried ev v) : o.Yields [a, b] r := by
  intro helpers ev m vs hev hvs
  cases hvs with
  | cons h₁ hvs =>
      cases hvs with
      | cons h₂ hvs =>
          cases hvs with
          | nil => exact h helpers ev m _ _ hev h₁ h₂

theorem laneWise_ofLanes {φ : BitVec w → BitVec w → BitVec w → Prop}
    {g : BitVec w → BitVec w → BitVec w} (h : ∀ a b : Datum, a.ty.bits = n * w → b.ty.bits = n * w →
      o.Yields [a, b] (.ofLanes n fun i => g (a.lane w i) (b.lane w i)))
    (hφ : ∀ x y, φ x y (g x y)) : o.LaneWise n w (.vec n (.int w)) φ := by
  intro a b ha hb
  refine ⟨_, h a b ha hb, rfl, fun i hi => ?_⟩
  rw [Datum.lane_ofLanes hi]
  exact hφ _ _

/-- A bitcast to the vector type of the operand's width takes its lanes apart. -/
theorem Datum.Carried.lanes {v : LLVM.Value} (h : a.Carried ev v) (hw : a.ty.bits = n * w) :
    (createBitCast v (.vec n (.int w)) : OpCode).Computes ev m (LLVM.Value.Vec ev n (a.lane w)) :=
  computes_lanes h (hw ▸ a.lt)

theorem num_get32i (hev : Consts ev) {i : ℕ} (hn : n ≤ 2 ^ 32) (hi : i < n) :
    (get32i i).Num ev 32 i :=
  num_constInt hev (Nat.lt_of_lt_of_le hi hn)

theorem computes_zeroVec (hev : Consts ev) (n w : ℕ) :
    (zeroVec n (.int w)).Computes ev m (LLVM.Value.Vec ev n fun _ => (0 : BitVec w)) := by
  have hz : (constInt (n * w) 0).Num ev (n * w) 0 := num_constInt hev (Nat.two_pow_pos _)
  refine (computes_lanes hz (Nat.two_pow_pos _)).mono fun v hv => ?_
  have : pack n (laneOf w 0) = pack n fun _ => (0 : BitVec w) :=
    pack_congr fun i _ => by simp [laneOf, LLVM.lane]
  exact ⟨hv.ty, by rw [hv.eq, this]⟩

/-- A loop that sets lane after lane, from lane `k` on. -/
theorem computes_setLanes (hev : Consts ev) {k l : ℕ} {elem : ℕ → OpCode} {f g : ℕ → BitVec w}
    {v : LLVM.Value} (hn : n ≤ 2 ^ 32) (hk : l + k ≤ n) (hv : v.Vec ev n f)
    (h : ∀ i < l, (elem i).Computes ev m (LLVM.Value.Word ev (g i))) :
    ((List.range l).foldlM (fun result i => do
      let e ← elem i
      createInsertElement result e (get32i (i + k))) v).Computes ev m
      (LLVM.Value.Vec ev n fun j => if k ≤ j ∧ j < l + k then g (j - k) else f j) := by
  refine (computes_foldlM_range (I := fun i (v : LLVM.Value) =>
    v.Vec ev n fun j => if k ≤ j ∧ j < i + k then g (j - k) else f j) ?_ ?_)
  · intro i hi v hv
    refine (h i hi).then fun e he => ?_
    refine (computes_insert hv he (num_get32i hev hn (by omega)) (by omega)).mono fun v' hv' => ?_
    have : pack n (fun j => if j = i + k then g i else
          if k ≤ j ∧ j < i + k then g (j - k) else f j) =
        pack n fun j => if k ≤ j ∧ j < i + 1 + k then g (j - k) else f j := by
      refine pack_congr fun j _ => ?_
      by_cases hj : j = i + k
      · rw [if_pos hj, if_pos (by omega), hj, Nat.add_sub_cancel]
      · rw [if_neg hj]
        exact if_congr (by omega) rfl rfl
    exact ⟨hv'.ty, by rw [hv'.eq, this]⟩
  · have : pack n (fun j => if k ≤ j ∧ j < 0 + k then g (j - k) else f j) = pack n f :=
      pack_congr fun j _ => if_neg (by omega)
    exact ⟨hv.ty, by rw [hv.eq, this]⟩

theorem computes_insertLanes (hev : Consts ev) {elem : ℕ → OpCode} {g : ℕ → BitVec w}
    (hn : n ≤ 2 ^ 32) (h : ∀ i < n, (elem i).Computes ev m (LLVM.Value.Word ev (g i))) :
    (insertLanes n (.int w) elem).Computes ev m fun v => (Datum.ofLanes n g).Carried ev v := by
  refine (computes_zeroVec hev n w).then fun v hv => ?_
  refine (computes_setLanes (k := 0) hev hn (Nat.le_refl n) hv h).mono fun v' hv' => ?_
  have : pack n (fun j => if 0 ≤ j ∧ j < n + 0 then g (j - 0) else 0) = pack n g :=
    pack_congr fun j hj => if_pos ⟨Nat.zero_le j, hj⟩
  exact ⟨hv'.ty, by rw [hv'.eq, this]; rfl⟩

/-- The finished function, having come to the operation with its operands known,
comes to its end with the result known. -/
theorem OpEmit.Yields.runs {args : List Datum} {vs : List LLVM.Value} {helpers : Helpers}
    {ext : Extern} {total : Bool} {R : Frame → RVal → Prop} {ρ : IRTemp → Option (Ty × ℕ)}
    {L : List (LLVM.Value × RVal)} {M : Machine} (h : o.Yields args r)
    (hvs : List.Forall₂ (fun v a => v.ty = a.ty ∧ (v, .bits a.bits) ∈ L) vs args) :
    Runs total ext (Stands ρ L M) (code (o.build helpers vs)) (Got ρ L M r.ty (.bits r.bits)) R :=
  runs_code_got fun ev hev => h helpers ev M vs hev.consts <|
    hvs.imp fun v _ hv => ⟨hv.1, hev.vals v _ hv.2⟩

end Rules

end VexLLVM
