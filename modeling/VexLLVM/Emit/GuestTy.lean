import VexLLVM.LLVM.Type

/-!
# The type of the guest context

`GenLLVM::getGuestTy` goes through the fields of the guest state by offset. A field that
begins inside what is there already is skipped; before one that begins further on, the gap
is closed by a field made up for it, after which the same field is tried again.
-/

namespace VexLLVM

open LLVM

/-- `struct guest_ctx_field`, at its offset. -/
structure GuestCtxField where
  len : BitVec 32
  count : BitVec 32
  offset : BitVec 32
  deriving DecidableEq, Repr

def GuestCtxField.stop (f : GuestCtxField) : ℕ := f.offset.toNat + f.count.toNat * f.len.toNat

namespace GenLLVM

structure GuestTyState where
  types : List Ty
  expectedOff : BitVec 32

/-- `switch (f->f_len * 8)`. -/
def fieldTy (len : BitVec 32) : Option Ty :=
  if len * 8 = 8 then some (.int 8)
  else if len * 8 = 16 then some (.int 16)
  else if len * 8 = 32 then some (.int 32)
  else if len * 8 = 64 then some (.int 64)
  else if len * 8 = 128 then some (.vec 8 (.int 16))
  else if len * 8 = 256 then some (.vec 16 (.int 16))
  else none

/-- `tmp_f`, for a gap: one element of its width, or bytes. -/
def tmpField (gap : BitVec 32) : GuestCtxField :=
  if gap = 2 ∨ gap = 4 ∨ gap = 8 ∨ gap = 16 ∨ gap = 32 then ⟨gap, 1, 0⟩ else ⟨1, gap, 0⟩

/-- The elements of a field; `none` is the failed assertion on its width. -/
def pushField (s : GuestTyState) (f : GuestCtxField) : Option GuestTyState := do
  let t ← fieldTy f.len
  pure ⟨s.types ++ List.replicate f.count.toNat t, s.expectedOff + f.count * f.len⟩

/-- The end of a pass: on to the next field, or `goto retry`. -/
inductive Pass where
  | next (s : GuestTyState)
  | retry (s : GuestTyState)

/-- The body of the loop, from `retry`. -/
def fieldPass (f : GuestCtxField) (s : GuestTyState) : Option Pass :=
  if s.expectedOff > f.offset then some (.next s)
  else if s.expectedOff < f.offset then
    (pushField s (tmpField (f.offset - s.expectedOff))).map .retry
  else (pushField s f).map .next

/-- The passes over one field; none is left when the fuel is used up. -/
def fieldPasses : ℕ → GuestCtxField → GuestTyState → Option GuestTyState
  | 0, _, _ => none
  | fuel + 1, f, s => (fieldPass f s).bind fun
      | .next t => some t
      | .retry t => fieldPasses fuel f t

def guestTypes (fuel : ℕ) (fs : List GuestCtxField) : Option (List Ty) :=
  (fs.foldlM (fun s f => fieldPasses fuel f s) ⟨[], 0⟩).map GuestTyState.types

def structType (ts : List Ty) : Ty := ts.foldr .field .emptyStruct

def elements : Ty → List Ty
  | .field t rest => t :: elements rest
  | _ => []

/-- `guestCtxTy` is not set anywhere, so the type is made anew. -/
def getGuestTy (fuel : ℕ) (fs : List GuestCtxField) : Option Ty :=
  (guestTypes fuel fs).map structType

/-! ### What the loop makes -/

def widths : List ℕ := [1, 2, 4, 8, 16, 32]

def size (ts : List Ty) : ℕ := (ts.map Ty.bytes).sum

/-- The elements `ts` are laid out for the fields `fs`, met in this order, of which `ps`
are not skipped. -/
inductive Tiles : List GuestCtxField → List GuestCtxField → List Ty → Prop
  | nil : Tiles [] [] []
  /-- The field begins inside what is there, and is skipped. -/
  | covered {fs ps ts} (f : GuestCtxField) (h : Tiles fs ps ts)
      (hlt : f.offset.toNat < size ts) : Tiles (fs ++ [f]) ps ts
  /-- The field begins where what is there ends, with its gap closed. -/
  | placed {fs ps ts} (f : GuestCtxField) (gap : List Ty) (t : Ty) (h : Tiles fs ps ts)
      (hoff : size (ts ++ gap) = f.offset.toNat) (ht : t.bytes = f.len.toNat) :
      Tiles (fs ++ [f]) (ps ++ [f]) (ts ++ gap ++ List.replicate f.count.toNat t)

def At (f : GuestCtxField) (ts : List Ty) : Prop :=
  ∃ k, ∀ j < f.count.toNat, size (ts.take (k + j)) = f.offset.toNat + j * f.len.toNat ∧
    ∃ t, ts[k + j]? = some t ∧ t.bytes = f.len.toNat

/-- The elements `ts` tile the register file: they are laid out for the fields, each one
that is not skipped has its elements at its offset, and no two of these have a byte in
common. -/
structure Tiled (fs ps : List GuestCtxField) (ts : List Ty) : Prop where
  tiles : Tiles fs ps ts
  starts : ∀ f ∈ ps, At f ts
  disjoint : ps.Pairwise fun f g => f.stop ≤ g.offset.toNat

section Layout

variable {f : GuestCtxField} {fs ps : List GuestCtxField} {s ts us : List Ty} {t : Ty} {n : ℕ}

@[simp] theorem size_append : size (ts ++ us) = size ts + size us := by
  rw [size, List.map_append, List.sum_append]
  rfl

@[simp] theorem size_replicate : size (List.replicate n t) = n * t.bytes := by
  rw [size, List.map_replicate, List.sum_replicate]
  rfl

theorem At.append (h : At f ts) (us : List Ty) : At f (ts ++ us) := by
  obtain ⟨k, hk⟩ := h
  refine ⟨k, fun j hj => ?_⟩
  obtain ⟨hsize, t, ht, hbytes⟩ := hk j hj
  have hlt : k + j < ts.length := (List.getElem?_eq_some_iff.mp ht).1
  refine ⟨?_, t, by rwa [List.getElem?_append_left hlt], hbytes⟩
  rwa [List.take_append_of_le_length hlt.le]

/-- A field that is placed has its elements where it begins. -/
theorem at_replicate (hoff : size ts = f.offset.toNat) (ht : t.bytes = f.len.toNat) :
    At f (ts ++ List.replicate f.count.toNat t) := by
  refine ⟨ts.length, fun j hj => ⟨?_, t, ?_, ht⟩⟩
  · rw [List.take_length_add_append, List.take_replicate, Nat.min_eq_left hj.le, size_append,
      size_replicate, hoff, ht]
  · rw [List.getElem?_append_right (Nat.le_add_right _ _), Nat.add_sub_cancel_left,
      List.getElem?_replicate, if_pos hj]

theorem Tiles.starts (h : Tiles fs ps ts) : ∀ f ∈ ps, At f ts := by
  induction h with
  | nil => exact fun f hf => absurd hf List.not_mem_nil
  | covered f h hlt ih => exact ih
  | placed f gap t h hoff ht ih =>
      intro g hg
      rcases List.mem_append.mp hg with hg | hg
      · rw [List.append_assoc]
        exact (ih g hg).append _
      · rw [List.mem_singleton.mp hg]
        exact at_replicate hoff ht

/-- What is placed ends inside what is there. -/
theorem Tiles.stop_le (h : Tiles fs ps ts) : ∀ f ∈ ps, f.stop ≤ size ts := by
  induction h with
  | nil => exact fun f hf => absurd hf List.not_mem_nil
  | covered f h hlt ih => exact ih
  | placed f gap t h hoff ht ih =>
      intro g hg
      rw [size_append, size_replicate, hoff, ht]
      rcases List.mem_append.mp hg with hg | hg
      · have hle := ih g hg
        rw [size_append] at hoff
        omega
      · rw [List.mem_singleton.mp hg, GuestCtxField.stop]

theorem Tiles.disjoint (h : Tiles fs ps ts) : ps.Pairwise fun f g => f.stop ≤ g.offset.toNat := by
  induction h with
  | nil => exact List.Pairwise.nil
  | covered f h hlt ih => exact ih
  | placed f gap t h hoff ht ih =>
      refine List.pairwise_append.mpr ⟨ih, List.pairwise_singleton _ _, fun g hg e he => ?_⟩
      have hle := h.stop_le g hg
      rw [List.mem_singleton.mp he]
      rw [size_append] at hoff
      omega

/-- The elements end where one of the fields does. -/
theorem Tiles.size_le (h : Tiles fs ps ts) (hn : ∀ f ∈ fs, f.stop ≤ n) : size ts ≤ n := by
  induction h with
  | nil => exact Nat.zero_le n
  | covered f h hlt ih => exact ih fun g hg => hn g (List.mem_append_left _ hg)
  | placed f gap t h hoff ht ih =>
      rw [size_append, size_replicate, hoff, ht]
      exact hn f (List.mem_append_right _ (List.mem_singleton_self f))

theorem Tiles.tiled (h : Tiles fs ps ts) : Tiled fs ps ts := ⟨h, h.starts, h.disjoint⟩

theorem elements_structType (ts : List Ty) : elements (structType ts) = ts := by
  induction ts with
  | nil => rfl
  | cons t ts ih => exact congrArg (t :: ·) ih

end Layout

section Loop

variable {f : GuestCtxField} {fs gs ps : List GuestCtxField} {s u : GuestTyState}

theorem fieldTy_of_width {len : BitVec 32} (h : len.toNat ∈ widths) :
    ∃ t, fieldTy len = some t ∧ t.bytes = len.toNat := by
  have hlen : len ∈ [1, 2, 4, 8, 16, 32] := by
    simpa [widths, ← BitVec.toNat_inj] using h
  simp only [List.mem_cons, List.not_mem_nil, or_false] at hlen
  rcases hlen with rfl | rfl | rfl | rfl | rfl | rfl <;> exact ⟨_, rfl, rfl⟩

/-- A field whose width has a type adds its elements. -/
theorem exists_pushField (hw : f.len.toNat ∈ widths) (s : GuestTyState) :
    ∃ t, t.bytes = f.len.toNat ∧ pushField s f =
      some ⟨s.types ++ List.replicate f.count.toNat t, s.expectedOff + f.count * f.len⟩ := by
  obtain ⟨t, ht, hbytes⟩ := fieldTy_of_width hw
  exact ⟨t, hbytes, by rw [pushField, ht]; rfl⟩

/-- A gap is as wide as the field made up for it. -/
theorem tmpField_bytes (gap : BitVec 32) :
    (tmpField gap).count * (tmpField gap).len = gap ∧
      (tmpField gap).count.toNat * (tmpField gap).len.toNat = gap.toNat ∧
      (tmpField gap).len.toNat ∈ widths := by
  rw [tmpField]
  split
  next h => rcases h with rfl | rfl | rfl | rfl | rfl <;> decide
  next h => exact ⟨BitVec.mul_one gap, Nat.mul_one _, List.mem_cons_self⟩

/-- What the passes over the field make of the state: nothing, or its elements after those
of a gap. -/
inductive Passed (f : GuestCtxField) (s : GuestTyState) : GuestTyState → Prop
  | skip (h : f.offset < s.expectedOff) : Passed f s s
  | place (gap : List Ty) (t : Ty) (hle : s.expectedOff ≤ f.offset)
      (hgap : size gap = f.offset.toNat - s.expectedOff.toNat) (ht : t.bytes = f.len.toNat) :
      Passed f s ⟨s.types ++ gap ++ List.replicate f.count.toNat t, f.offset + f.count * f.len⟩

/-- A field that starts where the state has arrived is placed. -/
theorem fieldPass_here (hw : f.len.toNat ∈ widths) (heq : s.expectedOff = f.offset) :
    ∃ t, t.bytes = f.len.toNat ∧ fieldPass f s =
      some (.next ⟨s.types ++ List.replicate f.count.toNat t, f.offset + f.count * f.len⟩) := by
  obtain ⟨t, ht, hu⟩ := exists_pushField hw s
  have hnlt : ¬f.offset < f.offset := BitVec.lt_irrefl f.offset
  exact ⟨t, ht, by rw [fieldPass, hu, heq, if_neg hnlt, if_neg hnlt]; rfl⟩

/-- Two passes are enough for a field: the second finds the gap closed. -/
theorem exists_fieldPasses (hw : f.len.toNat ∈ widths) (s : GuestTyState) :
    ∃ u, (∀ fuel, fieldPasses (fuel + 2) f s = some u) ∧ Passed f s u := by
  rcases Nat.lt_trichotomy f.offset.toNat s.expectedOff.toNat with hlt | heq | hgt
  · refine ⟨s, fun fuel => ?_, .skip (BitVec.lt_def.mpr hlt)⟩
    rw [fieldPasses, fieldPass, if_pos (BitVec.lt_def.mpr hlt)]
    rfl
  · obtain ⟨t, ht, hu⟩ := fieldPass_here hw (BitVec.eq_of_toNat_eq heq.symm)
    refine ⟨_, fun fuel => by rw [fieldPasses, hu]; rfl, ?_⟩
    have hplace := Passed.place (f := f) (s := s) [] t (BitVec.le_def.mpr heq.ge)
      (by rw [heq, Nat.sub_self]; rfl) ht
    rwa [List.append_nil] at hplace
  · obtain ⟨hend, hgap, hgw⟩ := tmpField_bytes (f.offset - s.expectedOff)
    have hle : s.expectedOff ≤ f.offset := BitVec.le_def.mpr hgt.le
    obtain ⟨g, hg, hv⟩ := exists_pushField hgw s
    rw [hend, BitVec.add_comm, BitVec.sub_add_cancel] at hv
    let gap := List.replicate (tmpField (f.offset - s.expectedOff)).count.toNat g
    obtain ⟨t, ht, hu⟩ := fieldPass_here (s := ⟨s.types ++ gap, f.offset⟩) hw rfl
    have hretry : fieldPass f s = some (.retry ⟨s.types ++ gap, f.offset⟩) := by
      rw [fieldPass, if_neg (BitVec.lt_asymm (BitVec.lt_def.mpr hgt)),
        if_pos (BitVec.lt_def.mpr hgt), hv]
      rfl
    refine ⟨_, fun fuel => ?_, .place gap t hle ?_ ht⟩
    · rw [fieldPasses, hretry]
      change fieldPasses (fuel + 1) f _ = _
      rw [fieldPasses, hu]
      rfl
    · rw [size_replicate, hg, hgap, BitVec.toNat_sub_of_le hle]

/-- The state of the loop after the fields `fs`, as long as no offset has wrapped around. -/
structure Built (fs ps : List GuestCtxField) (s : GuestTyState) : Prop where
  tiles : Tiles fs ps s.types
  off : s.expectedOff.toNat = size s.types

theorem Passed.built (hp : Passed f s u) (h : Built fs ps s) (hf : f.stop < 2 ^ 32) :
    ∃ qs, Built (fs ++ [f]) qs u := by
  cases hp with
  | skip hlt =>
      rw [BitVec.lt_def, h.off] at hlt
      exact ⟨ps, .covered f h.tiles hlt, h.off⟩
  | place gap t hle hgap ht =>
      rw [BitVec.le_def, h.off] at hle
      have hoff : size (s.types ++ gap) = f.offset.toNat := by
        rw [size_append, hgap, h.off]
        omega
      refine ⟨ps ++ [f], h.tiles.placed f gap t hoff ht, ?_⟩
      rw [GuestCtxField.stop] at hf
      have hmul : (f.count * f.len).toNat = f.count.toNat * f.len.toNat := by
        rw [BitVec.toNat_mul, Nat.mod_eq_of_lt (by omega)]
      rw [BitVec.toNat_add, hmul, Nat.mod_eq_of_lt hf, size_append, size_replicate, hoff, ht]

/-- The loop over the fields ends; what it had built goes on to be tiled. -/
theorem exists_foldlM (hw : ∀ f ∈ gs, f.len.toNat ∈ widths) (s : GuestTyState) :
    ∃ u, (∀ fuel, gs.foldlM (fun s f => fieldPasses (fuel + 2) f s) s = some u) ∧
      ∀ fs ps, (∀ f ∈ gs, f.stop < 2 ^ 32) → Built fs ps s → ∃ qs, Built (fs ++ gs) qs u := by
  induction gs generalizing s with
  | nil =>
      refine ⟨s, fun _ => rfl, fun fs ps _ h => ⟨ps, ?_⟩⟩
      rwa [List.append_nil]
  | cons g gs ih =>
      obtain ⟨v, hv, hp⟩ := exists_fieldPasses (hw g List.mem_cons_self) s
      obtain ⟨u, hu, hb⟩ := ih (fun f hf => hw f (List.mem_cons_of_mem g hf)) v
      refine ⟨u, fun fuel => ?_, fun fs ps hstop h => ?_⟩
      · rw [List.foldlM_cons, hv]
        exact hu fuel
      · obtain ⟨qs, hq⟩ := hp.built h (hstop g List.mem_cons_self)
        obtain ⟨rs, hr⟩ := hb _ qs (fun f hf => hstop f (List.mem_cons_of_mem g hf)) hq
        rw [List.append_assoc, List.singleton_append] at hr
        exact ⟨rs, hr⟩

end Loop

/-- The loop ends after at most two passes for each field. Where no field ends past what an
`unsigned` counts, its elements tile the register file; nothing depends on the order in
which the fields are met. -/
theorem guestTy_statement (fields : List GuestCtxField)
    (hw : ∀ f ∈ fields, f.len.toNat ∈ widths) :
    ∃ ts, (∀ fuel, 2 ≤ fuel → guestTypes fuel fields = some ts ∧
        (getGuestTy fuel fields).map elements = some ts) ∧
      ((∀ f ∈ fields, f.stop < 2 ^ 32) → ∃ ps, Tiled fields ps ts) := by
  obtain ⟨u, hu, hb⟩ := exists_foldlM hw ⟨[], 0⟩
  refine ⟨u.types, fun fuel hfuel => ?_, fun hstop => ?_⟩
  · obtain ⟨k, rfl⟩ : ∃ k, fuel = k + 2 := ⟨fuel - 2, by omega⟩
    have ht : guestTypes (k + 2) fields = some u.types := by rw [guestTypes, hu]; rfl
    exact ⟨ht, by rw [getGuestTy, ht, Option.map_some, Option.map_some, elements_structType]⟩
  · obtain ⟨ps, hp⟩ := hb [] [] hstop ⟨.nil, rfl⟩
    exact ⟨ps, hp.tiles.tiled⟩

/-- A field that overlaps the one before it, a gap of four bytes and one of three. -/
def overlapFields : List GuestCtxField := [⟨8, 1, 0⟩, ⟨4, 1, 4⟩, ⟨4, 2, 12⟩, ⟨1, 1, 23⟩]

theorem guestTy_overlap : ∃ ts, guestTypes 2 overlapFields = some ts ∧
    ∃ ps, Tiled overlapFields ps ts := by
  obtain ⟨ts, hts, htiled⟩ := guestTy_statement overlapFields (by decide)
  exact ⟨ts, (hts 2 le_rfl).1, htiled (by decide)⟩

example : guestTypes 2 overlapFields =
    some [.int 64, .int 32, .int 32, .int 32, .int 8, .int 8, .int 8, .int 8] := by
  decide

/-- A field of as many bytes as an `unsigned` counts, and one inside it. -/
def wideFields : List GuestCtxField := [⟨32, 2 ^ 27, 0⟩, ⟨4, 1, 4⟩]

theorem guestTypes_wide : guestTypes 2 wideFields =
    some (List.replicate (2 ^ 27) (.vec 16 (.int 16)) ++ [.int 32] ++ [.int 32]) := by
  rfl

/-- The second field is not skipped. -/
theorem guestTy_not_tiled : ¬∀ fields : List GuestCtxField, (∀ f ∈ fields, 0 < f.count.toNat) →
    (∀ f ∈ fields, f.len.toNat ∈ widths) →
    fields.Pairwise (fun f g => f.offset.toNat < g.offset.toNat) →
      ∃ ts, (∀ fuel, 2 ≤ fuel → guestTypes fuel fields = some ts) ∧ ∃ ps, Tiled fields ps ts := by
  intro h
  obtain ⟨ts, hts, ps, hp⟩ := h wideFields (by decide) (by decide) (by decide)
  have hle := hp.tiles.size_le (n := 2 ^ 32) (by decide)
  have ht := (hts 2 le_rfl).symm.trans guestTypes_wide
  rw [Option.some.inj ht, size_append, size_append, size_replicate] at hle
  revert hle
  decide

end GenLLVM

end VexLLVM
