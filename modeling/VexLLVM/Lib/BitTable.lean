import Mathlib.Data.BitVec
import Mathlib.Data.List.Pairwise

/-!
# Tables of fields

A table says what the values of the fields of one word are in another. A word is translated
by the rows whose values its fields have. Where the fields do not meet and the values of a
field are told apart on both sides, the way there and back keeps the values that the table
lists, and clears the rest.
-/

namespace BitTable

variable {w i : ℕ}

/-- A value of a field, and the value that stands for it. -/
structure Row (w : ℕ) where
  srcMask : BitVec w
  srcBits : BitVec w
  dstMask : BitVec w
  dstBits : BitVec w
  deriving DecidableEq

/-- The row that a table has for the way back. -/
def Row.swap (r : Row w) : Row w := ⟨r.dstMask, r.dstBits, r.srcMask, r.srcBits⟩

/-- The row that changes no value. -/
def Row.same (r : Row w) : Row w := ⟨r.srcMask, r.srcBits, r.srcMask, r.srcBits⟩

def Row.Selects (r : Row w) (x : BitVec w) : Prop := x &&& r.srcMask = r.srcBits

instance (r : Row w) (x : BitVec w) : Decidable (r.Selects x) :=
  inferInstanceAs (Decidable (_ = _))

def translate (rows : List (Row w)) (x : BitVec w) : BitVec w :=
  rows.foldl (fun y r => if r.Selects x then y ||| r.dstBits else y) 0

/-- The values of a word that the table lists. -/
def keep (rows : List (Row w)) (x : BitVec w) : BitVec w := translate (rows.map Row.same) x

/-- Two values of one field, or of fields that do not meet. -/
def Row.Apart (r s : Row w) : Prop :=
  r.srcMask = s.srcMask ∧ r.dstMask = s.dstMask ∧ r.srcBits ≠ s.srcBits ∧ r.dstBits ≠ s.dstBits ∨
    r.srcMask &&& s.srcMask = 0 ∧ r.dstMask &&& s.dstMask = 0

instance (r s : Row w) : Decidable (r.Apart s) := inferInstanceAs (Decidable (_ ∨ _))

/-- A value fits its field and is zero on both sides or on none. -/
structure Row.Fits (r : Row w) : Prop where
  src : r.srcBits &&& r.srcMask = r.srcBits
  dst : r.dstBits &&& r.dstMask = r.dstBits
  zero : r.srcBits = 0 ↔ r.dstBits = 0

instance (r : Row w) : Decidable r.Fits :=
  decidable_of_iff
    (r.srcBits &&& r.srcMask = r.srcBits ∧ r.dstBits &&& r.dstMask = r.dstBits ∧
      (r.srcBits = 0 ↔ r.dstBits = 0))
    ⟨fun h => ⟨h.1, h.2.1, h.2.2⟩, fun h => ⟨h.src, h.dst, h.zero⟩⟩

structure Fields (rows : List (Row w)) : Prop where
  fits : ∀ r ∈ rows, r.Fits
  pairwise : rows.Pairwise Row.Apart

instance (rows : List (Row w)) : Decidable (Fields rows) :=
  decidable_of_iff ((∀ r ∈ rows, r.Fits) ∧ rows.Pairwise Row.Apart)
    ⟨fun h => ⟨h.1, h.2⟩, fun h => ⟨h.fits, h.pairwise⟩⟩

variable {rows : List (Row w)} {r s : Row w} {x m : BitVec w}

theorem getLsbD_of_and_eq {b : BitVec w} (h : b &&& m = b) (hi : b.getLsbD i = true) :
    m.getLsbD i = true := by
  rw [← h, BitVec.getLsbD_and, Bool.and_eq_true] at hi
  exact hi.2

theorem not_getLsbD_of_and_eq_zero {m' : BitVec w} (h : m &&& m' = 0)
    (hi : m.getLsbD i = true) (hi' : m'.getLsbD i = true) : False := by
  have hand : (m &&& m').getLsbD i = true := by
    rw [BitVec.getLsbD_and, hi, hi']
    rfl
  rw [h] at hand
  simp at hand

theorem eq_of_getLsbD_iff {y : BitVec w}
    (h : ∀ i, x.getLsbD i = true ↔ y.getLsbD i = true) : x = y :=
  BitVec.eq_of_getLsbD_eq fun i _ => Bool.eq_iff_iff.mpr (h i)

/-- The bits of a translation are those of the rows that the word selects. -/
theorem getLsbD_translate : (translate rows x).getLsbD i = true ↔
    ∃ r ∈ rows, r.Selects x ∧ r.dstBits.getLsbD i = true := by
  suffices h : ∀ y : BitVec w, (rows.foldl
      (fun y r => if r.Selects x then y ||| r.dstBits else y) y).getLsbD i = true ↔
        y.getLsbD i = true ∨ ∃ r ∈ rows, r.Selects x ∧ r.dstBits.getLsbD i = true by
    have h0 := h 0
    simp only [BitVec.ofNat_eq_ofNat, BitVec.getLsbD_zero, Bool.false_eq_true, false_or] at h0
    exact h0
  induction rows with
  | nil => simp
  | cons r rows ih =>
      intro y
      rw [List.foldl_cons, ih, List.exists_mem_cons_iff]
      by_cases hr : r.Selects x
      · rw [if_pos hr, BitVec.getLsbD_or, Bool.or_eq_true, or_assoc]
        simp only [hr, true_and]
      · rw [if_neg hr]
        simp only [hr, false_and, false_or]

theorem getLsbD_translate_map {f : Row w → Row w} :
    (translate (rows.map f) x).getLsbD i = true ↔
      ∃ r ∈ rows, (f r).Selects x ∧ (f r).dstBits.getLsbD i = true := by
  simp only [getLsbD_translate, List.mem_map, exists_exists_and_eq_and]

instance : Std.Symm (@Row.Apart w) where
  symm := by
    rintro r s (⟨hsrc, hdst, hsrcBits, hdstBits⟩ | ⟨hsrc, hdst⟩)
    · exact .inl ⟨hsrc.symm, hdst.symm, hsrcBits.symm, hdstBits.symm⟩
    · exact .inr ⟨by rwa [BitVec.and_comm], by rwa [BitVec.and_comm]⟩

theorem Fields.eq_or_apart (h : Fields rows) (hr : r ∈ rows) (hs : s ∈ rows) :
    r = s ∨ r.Apart s := by
  by_cases heq : r = s
  · exact .inl heq
  · exact .inr (h.pairwise.forall hr hs heq)

/-! ## Other tables of the same fields -/

theorem Fields.swap (h : Fields rows) : Fields (rows.map Row.swap) where
  fits := by
    intro _ hmem
    obtain ⟨r, hr, rfl⟩ := List.mem_map.mp hmem
    exact ⟨(h.fits r hr).dst, (h.fits r hr).src, (h.fits r hr).zero.symm⟩
  pairwise := by
    refine List.pairwise_map.mpr (h.pairwise.imp ?_)
    rintro r s (⟨hsrc, hdst, hsrcBits, hdstBits⟩ | ⟨hsrc, hdst⟩)
    · exact .inl ⟨hdst, hsrc, hdstBits, hsrcBits⟩
    · exact .inr ⟨hdst, hsrc⟩

theorem Fields.same (h : Fields rows) : Fields (rows.map Row.same) where
  fits := by
    intro _ hmem
    obtain ⟨r, hr, rfl⟩ := List.mem_map.mp hmem
    exact ⟨(h.fits r hr).src, (h.fits r hr).src, Iff.rfl⟩
  pairwise := by
    refine List.pairwise_map.mpr (h.pairwise.imp ?_)
    rintro r s (⟨hsrc, _, hsrcBits, _⟩ | ⟨hsrc, _⟩)
    · exact .inl ⟨hsrc, hsrc, hsrcBits, hsrcBits⟩
    · exact .inr ⟨hsrc, hsrc⟩

/-! ## Fields of a translation -/

theorem translate_and_of_selects (h : Fields rows) (hr : r ∈ rows) (hsel : r.Selects x) :
    translate rows x &&& r.dstMask = r.dstBits := by
  refine eq_of_getLsbD_iff fun i => ?_
  rw [BitVec.getLsbD_and, Bool.and_eq_true, getLsbD_translate]
  constructor
  · rintro ⟨⟨s, hs, hssel, hi⟩, hmask⟩
    rcases h.eq_or_apart hr hs with rfl | ⟨hsrc, _, hne, _⟩ | ⟨_, hdst⟩
    · exact hi
    · rw [Row.Selects, ← hsrc, hsel] at hssel
      exact absurd hssel hne
    · exact (not_getLsbD_of_and_eq_zero hdst hmask
        (getLsbD_of_and_eq (h.fits s hs).dst hi)).elim
  · exact fun hi => ⟨⟨r, hr, hsel, hi⟩, getLsbD_of_and_eq (h.fits r hr).dst hi⟩

/-- A field whose value is not listed is cleared. -/
theorem translate_and_of_forall_not (h : Fields rows) (hr : r ∈ rows)
    (hsel : ∀ s ∈ rows, s.dstMask = r.dstMask → ¬ s.Selects x) :
    translate rows x &&& r.dstMask = 0 := by
  refine eq_of_getLsbD_iff fun i => ?_
  rw [BitVec.getLsbD_and, Bool.and_eq_true, getLsbD_translate]
  constructor
  · rintro ⟨⟨s, hs, hssel, hi⟩, hmask⟩
    rcases h.eq_or_apart hr hs with rfl | ⟨_, hdst, _, _⟩ | ⟨_, hdst⟩
    · exact absurd hssel (hsel r hr rfl)
    · exact absurd hssel (hsel s hs hdst.symm)
    · exact (not_getLsbD_of_and_eq_zero hdst hmask
        (getLsbD_of_and_eq (h.fits s hs).dst hi)).elim
  · simp

/-- The way there and back keeps what the table lists. -/
theorem translate_swap_translate (h : Fields rows) :
    translate (rows.map Row.swap) (translate rows x) = keep rows x := by
  refine eq_of_getLsbD_iff fun i => ?_
  rw [getLsbD_translate_map, keep, getLsbD_translate_map]
  refine exists_congr fun r => and_congr_right fun hr => and_congr_left fun hi => ?_
  change translate rows x &&& r.dstMask = r.dstBits ↔ r.Selects x
  refine ⟨fun hback => ?_, translate_and_of_selects h hr⟩
  have hne : r.dstBits ≠ 0 := fun h0 => by
    change r.srcBits.getLsbD i = true at hi
    rw [(h.fits r hr).zero.mpr h0] at hi
    simp at hi
  by_contra hsel
  -- a row of the field that the word selects leaves a value of its own there
  have hnone : ∀ s ∈ rows, s.dstMask = r.dstMask → ¬ s.Selects x := by
    intro s hs hmask hssel
    have hval := translate_and_of_selects h hs hssel
    rw [hmask, hback] at hval
    rcases h.eq_or_apart hs hr with rfl | ⟨_, _, _, hdstBits⟩ | ⟨_, hdst⟩
    · exact hsel hssel
    · exact hdstBits hval.symm
    · rw [hmask, BitVec.and_self] at hdst
      rw [← (h.fits r hr).dst, hdst] at hne
      exact hne BitVec.and_zero
  exact hne (hback.symm.trans (translate_and_of_forall_not h hr hnone))

/-! ## What is kept -/

theorem getLsbD_keep : (keep rows x).getLsbD i = true ↔
    ∃ r ∈ rows, r.Selects x ∧ r.srcBits.getLsbD i = true :=
  getLsbD_translate_map

/-- Each bit of the word is of a value that the table lists. -/
def Listed (rows : List (Row w)) (x : BitVec w) : Prop :=
  ∀ i, x.getLsbD i = true → ∃ r ∈ rows, r.Selects x ∧ r.srcBits.getLsbD i = true

/-- Only what is not listed is cleared. -/
theorem getLsbD_of_keep (hi : (keep rows x).getLsbD i = true) : x.getLsbD i = true := by
  obtain ⟨r, _, hsel, hr⟩ := getLsbD_keep.mp hi
  rw [Row.Selects] at hsel
  rw [← hsel, BitVec.getLsbD_and, Bool.and_eq_true] at hr
  exact hr.1

theorem keep_eq_iff : keep rows x = x ↔ Listed rows x := by
  constructor
  · intro h i hi
    rw [← h] at hi
    exact getLsbD_keep.mp hi
  · exact fun h => eq_of_getLsbD_iff fun i => ⟨getLsbD_of_keep, fun hi =>
      getLsbD_keep.mpr (h i hi)⟩

end BitTable
