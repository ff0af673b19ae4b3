import Mathlib.Algebra.Order.Floor.Div
import Mathlib.Data.Nat.Notation
import Mathlib.Order.Bounds.Basic
import Mathlib.Tactic.Ring

/-!
# The layout of structures

Types built from scalars by arrays and structures, laid out by the rule of C: a field
starts at the first place after the field before it that its alignment divides, and the
structure is padded to a multiple of its own alignment. A type is laid out for several
machines at once, which differ in the sizes of their scalars.
-/

namespace CLayout

inductive CType (S : Type*)
  | scalar (s : S)
  | array (n : ℕ) (elem : CType S)
  | struct (fields : List (CType S))

/-- The first multiple of `a` from `n` on. -/
def alignUp (n a : ℕ) : ℕ := a * (n ⌈/⌉ a)

variable {S ι : Type*}

mutual

def CType.align (sz : S → ℕ) : CType S → ℕ
  | .scalar s => sz s
  | .array _ t => t.align sz
  | .struct ts => fieldsAlign sz ts

def fieldsAlign (sz : S → ℕ) : List (CType S) → ℕ
  | [] => 1
  | t :: ts => max (t.align sz) (fieldsAlign sz ts)

end

mutual

def CType.size (sz : S → ℕ) : CType S → ℕ
  | .scalar s => sz s
  | .array n t => n * t.size sz
  | .struct ts => alignUp (fieldsEnd sz 0 ts) (fieldsAlign sz ts)

def fieldsEnd (sz : S → ℕ) (pos : ℕ) : List (CType S) → ℕ
  | [] => pos
  | t :: ts => fieldsEnd sz (alignUp pos (t.align sz) + t.size sz) ts

end

def fieldOffsets (sz : S → ℕ) (pos : ℕ) : List (CType S) → List ℕ
  | [] => []
  | t :: ts =>
      alignUp pos (t.align sz) :: fieldOffsets sz (alignUp pos (t.align sz) + t.size sz) ts

mutual

def CType.depth : CType S → ℕ
  | .scalar _ => 1
  | .array _ t => t.depth + 1
  | .struct ts => fieldsDepth ts + 1

def fieldsDepth : List (CType S) → ℕ
  | [] => 0
  | t :: ts => max t.depth (fieldsDepth ts)

end

mutual

/-- The size of the largest type that a type is made of, itself included. -/
def CType.maxSize (sz : S → ℕ) : CType S → ℕ
  | .scalar s => sz s
  | .array n t => max (n * t.size sz) (t.maxSize sz)
  | .struct ts => max (alignUp (fieldsEnd sz 0 ts) (fieldsAlign sz ts)) (fieldsMaxSize sz ts)

def fieldsMaxSize (sz : S → ℕ) : List (CType S) → ℕ
  | [] => 0
  | t :: ts => max (t.maxSize sz) (fieldsMaxSize sz ts)

end

mutual

/-- All scalars of a type, those of empty arrays included, satisfy `p`. -/
def CType.all (p : S → Bool) : CType S → Bool
  | .scalar s => p s
  | .array _ t => t.all p
  | .struct ts => fieldsAll p ts

def fieldsAll (p : S → Bool) : List (CType S) → Bool
  | [] => true
  | t :: ts => t.all p && fieldsAll p ts

end

structure Member (ι S : Type*) where
  scalar : S
  off : ι → ℕ

def Member.shift (d : ι → ℕ) (m : Member ι S) : Member ι S := ⟨m.scalar, fun i => d i + m.off i⟩

mutual

def CType.members (sz : ι → S → ℕ) : CType S → List (Member ι S)
  | .scalar s => [⟨s, fun _ => 0⟩]
  | .array n t =>
      (List.range n).flatMap fun k => (t.members sz).map (.shift fun i => k * t.size (sz i))
  | .struct ts => fieldMembers sz (fun _ => 0) ts

def fieldMembers (sz : ι → S → ℕ) (pos : ι → ℕ) : List (CType S) → List (Member ι S)
  | [] => []
  | t :: ts =>
      (t.members sz).map (.shift fun i => alignUp (pos i) (t.align (sz i))) ++
        fieldMembers sz (fun i => alignUp (pos i) (t.align (sz i)) + t.size (sz i)) ts

end

/-! ## Rounding up -/

section alignUp

variable {n m a : ℕ}

theorem alignUp_eq (n a : ℕ) : alignUp n a = (n + a - 1) / a * a := by
  rw [alignUp, Nat.ceilDiv_eq_add_pred_div, Nat.mul_comm]

theorem dvd_alignUp (n a : ℕ) : a ∣ alignUp n a := Nat.dvd_mul_right a _

theorem le_alignUp (ha : 0 < a) : n ≤ alignUp n a := le_smul_ceilDiv ha

end alignUp

/-! ## Alignments -/

/-- Every type satisfies what arrays and structures inherit from the types inside. -/
@[elab_as_elim]
theorem CType.induct {P : CType S → Prop} (scalar : ∀ s, P (.scalar s))
    (array : ∀ n t, P t → P (.array n t))
    (struct : ∀ ts : List (CType S), (∀ t ∈ ts, P t) → P (.struct ts)) : ∀ t, P t
  | .scalar s => scalar s
  | .array n t => array n t (CType.induct scalar array struct t)
  | .struct ts => struct ts fun t _ => CType.induct scalar array struct t

/-- The scalars have the sizes of machine words. -/
def Binary (sz : S → ℕ) : Prop := ∀ s, ∃ k, sz s = 2 ^ k

section align

variable {sz : S → ℕ} {t : CType S} {ts : List (CType S)}

theorem fieldsAlign_binary (h : ∀ t ∈ ts, ∃ k, CType.align sz t = 2 ^ k) :
    ∃ k, fieldsAlign sz ts = 2 ^ k := by
  induction ts with
  | nil => exact ⟨0, rfl⟩
  | cons t ts ih =>
      rw [fieldsAlign]
      rcases le_total (t.align sz) (fieldsAlign sz ts) with hle | hle
      · rw [max_eq_right hle]
        exact ih fun u hu => h u (List.mem_cons_of_mem t hu)
      · rw [max_eq_left hle]
        exact h t List.mem_cons_self

theorem align_binary (hsz : Binary sz) (t : CType S) : ∃ k, t.align sz = 2 ^ k := by
  induction t using CType.induct with
  | scalar s => exact hsz s
  | array n t ih => exact ih
  | struct ts ih => exact fieldsAlign_binary ih

theorem align_pos (hsz : Binary sz) (t : CType S) : 0 < t.align sz := by
  obtain ⟨k, hk⟩ := align_binary hsz t
  exact hk ▸ Nat.two_pow_pos k

theorem fieldsAlign_pos (hsz : Binary sz) (ts : List (CType S)) : 0 < fieldsAlign sz ts :=
  align_pos hsz (.struct ts)

theorem align_le_of_size_le {n : ℕ} (hsz : ∀ s, sz s ≤ n) (hn : 1 ≤ n) (t : CType S) :
    t.align sz ≤ n := by
  induction t using CType.induct with
  | scalar s => exact hsz s
  | array k t ih => exact ih
  | struct ts ih =>
      rw [CType.align]
      induction ts with
      | nil => exact hn
      | cons t ts ihs =>
          exact max_le (ih t List.mem_cons_self) (ihs fun u hu => ih u (List.mem_cons_of_mem t hu))

theorem align_dvd_size (t : CType S) : t.align sz ∣ t.size sz := by
  induction t using CType.induct with
  | scalar s => exact Nat.dvd_refl _
  | array n t ih => exact ih.mul_left n
  | struct ts ih => exact dvd_alignUp _ _

end align

/-! ## Offsets -/

section offsets

variable {sz : S → ℕ} {t : CType S} {ts : List (CType S)} {pos j : ℕ}

theorem le_fieldsEnd (hsz : Binary sz) : pos ≤ fieldsEnd sz pos ts := by
  induction ts generalizing pos with
  | nil => exact Nat.le_refl pos
  | cons t ts ih =>
      calc
        pos ≤ alignUp pos (t.align sz) := le_alignUp (align_pos hsz t)
        _ ≤ alignUp pos (t.align sz) + t.size sz := Nat.le_add_right _ _
        _ ≤ fieldsEnd sz pos (t :: ts) := ih

end offsets

/-! ## Members -/

section members

variable {sz : ι → S → ℕ} {t : CType S} {ts : List (CType S)} {m : Member ι S} {pos : ι → ℕ}

/-- A member of a type keeps inside it, at a multiple of its size. -/
structure Member.Sits (sz : ι → S → ℕ) (lo hi : ι → ℕ) (m : Member ι S) : Prop where
  lower : ∀ i, lo i ≤ m.off i
  upper : ∀ i, m.off i + sz i m.scalar ≤ hi i
  aligned : ∀ i, sz i m.scalar ∣ m.off i

def Member.Before (sz : ι → S → ℕ) (m m' : Member ι S) : Prop :=
  ∀ i, m.off i + sz i m.scalar ≤ m'.off i

theorem Member.Sits.shift {lo hi d : ι → ℕ} (h : m.Sits sz lo hi)
    (hd : ∀ i, sz i m.scalar ∣ d i) :
    (m.shift d).Sits sz (fun i => d i + lo i) fun i => d i + hi i where
  lower i := Nat.add_le_add_left (h.lower i) (d i)
  upper i := by
    change d i + m.off i + sz i m.scalar ≤ d i + hi i
    have := h.upper i
    omega
  aligned i := Nat.dvd_add (hd i) (h.aligned i)

theorem Member.Sits.mono {lo hi lo' hi' : ι → ℕ} (h : m.Sits sz lo hi) (hlo : ∀ i, lo' i ≤ lo i)
    (hhi : ∀ i, hi i ≤ hi' i) : m.Sits sz lo' hi' where
  lower i := (hlo i).trans (h.lower i)
  upper i := (h.upper i).trans (hhi i)
  aligned := h.aligned

theorem Member.Sits.before {m' : Member ι S} {lo mid hi : ι → ℕ} (h : m.Sits sz lo mid)
    (h' : m'.Sits sz mid hi) : m.Before sz m' :=
  fun i => (h.upper i).trans (h'.lower i)

theorem Member.Before.shift {m' : Member ι S} (h : m.Before sz m') (d : ι → ℕ) :
    (m.shift d).Before sz (m'.shift d) := fun i => by
  change d i + m.off i + sz i m.scalar ≤ d i + m'.off i
  have := h i
  omega

/-- What a list of fields needs of each field, for its members to sit in their places. -/
structure FieldSits (sz : ι → S → ℕ) (t : CType S) : Prop where
  sits : ∀ m ∈ t.members sz, m.Sits sz (fun _ => 0) fun i => t.size (sz i)
  dvd : ∀ m ∈ t.members sz, ∀ i, sz i m.scalar ∣ t.align (sz i)
  pairwise : (t.members sz).Pairwise (Member.Before sz)

/-- A field sits between the end of the fields before it and its own. -/
theorem FieldSits.shift (h : FieldSits sz t) (hm : m ∈ t.members sz) (pos : ι → ℕ) :
    (m.shift fun i => alignUp (pos i) (t.align (sz i))).Sits sz
      (fun i => alignUp (pos i) (t.align (sz i)))
      fun i => alignUp (pos i) (t.align (sz i)) + t.size (sz i) :=
  (h.sits m hm).shift fun i => (h.dvd m hm i).trans (dvd_alignUp _ _)

theorem mem_members_array {n : ℕ} : m ∈ (CType.array n t).members sz ↔
    ∃ k < n, ∃ u ∈ t.members sz, u.shift (fun i => k * t.size (sz i)) = m := by
  simp only [CType.members, List.mem_flatMap, List.mem_range, List.mem_map]

/-- An element of an array sits between its start and the start of the next. -/
theorem FieldSits.element (h : FieldSits sz t) (hm : m ∈ t.members sz) (k : ℕ) :
    (m.shift fun i => k * t.size (sz i)).Sits sz (fun i => k * t.size (sz i))
      fun i => (k + 1) * t.size (sz i) := by
  have hd := fun i => ((h.dvd m hm i).trans (align_dvd_size t)).mul_left k
  exact ((h.sits m hm).shift hd).mono (fun i => Nat.le_refl _)
    fun i => (Nat.succ_mul k (t.size (sz i))).ge

theorem FieldSits.array (h : FieldSits sz t) (n : ℕ) : FieldSits sz (.array n t) where
  sits m hm := by
    obtain ⟨k, hk, u, hu, rfl⟩ := mem_members_array.mp hm
    exact (h.element hu k).mono (fun i => Nat.zero_le _) fun i => Nat.mul_le_mul_right _ hk
  dvd m hm := by
    obtain ⟨k, hk, u, hu, rfl⟩ := mem_members_array.mp hm
    exact h.dvd u hu
  pairwise := by
    rw [CType.members, List.pairwise_flatMap]
    refine ⟨fun k _ => List.pairwise_map.mpr (h.pairwise.imp fun hb => hb.shift _), ?_⟩
    refine List.pairwise_lt_range.imp fun {k k'} hlt m hm m' hm' => ?_
    obtain ⟨u, hu, rfl⟩ := List.mem_map.mp hm
    obtain ⟨u', hu', rfl⟩ := List.mem_map.mp hm'
    exact (h.element hu k).before ((h.element hu' k').mono
      (fun i => Nat.mul_le_mul_right _ hlt) fun i => Nat.le_refl _)

end members

end CLayout
