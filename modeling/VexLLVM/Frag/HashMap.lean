import VexLLVM.Frag.Answers

/-!
# What the hash table answers

A lookup with a bound hashes one byte more than it was asked for, and the record it
compares is read two bytes past the digest. No record gets a length, so that a match
in the file is a collision and a match in the pending records is none.

A pending record is not found again, so a fragment that is added twice is written
twice. No record is marked with a positive result, so a flush marks no collision.
-/

namespace VexLLVM

open Search

namespace FragCache

namespace FCHash

def all (h : FCHash) : List FchashRec := h.file ++ h.pending.map Prod.fst

def mappedCount (h : FCHash) : ℕ := mmapSize sizeofRec h.all.length / sizeofRec

def flushed (h : FCHash) : FCHash := sortFile (mmapFD { h with file := h.all, pending := [] })

def pushed (h : FCHash) (sha1 : Frag → Frag) (b : Bytes) (junk : ℕ → Frag) (len : ℕ) : FCHash :=
  { h with pending := h.pending ++ [(⟨sha1 (firstBytes b len), 0⟩, h.lookup sha1 b junk len)] }

def Skips (h : FCHash) (sha1 : Frag → Frag) (b : Bytes) (junk : ℕ → Frag) (len : ℕ) : Prop :=
  h.lookup sha1 b junk len = toInt len ∨ h.lookup sha1 b junk len = FCHASH_COLLISION

theorem add_of_skips {h : FCHash} {sha1 : Frag → Frag} {b : Bytes} {junk : ℕ → Frag} {len : ℕ}
    (hs : h.Skips sha1 b junk len) : h.add sha1 b junk len = .ok h := by
  unfold add
  exact if_pos hs

theorem add_of_not_skips {h : FCHash} {sha1 : Frag → Frag} {b : Bytes} {junk : ℕ → Frag} {len : ℕ}
    (hs : ¬ h.Skips sha1 b junk len) : h.add sha1 b junk len =
      if FLUSH_FCH_TRIGGER < (h.pushed sha1 b junk len).pending.length then
        (h.pushed sha1 b junk len).flush
      else .ok (h.pushed sha1 b junk len) := by
  unfold add
  exact if_neg hs

/-- A table between two calls: its file is mapped and sorted as far as it is mapped, and
no pending record is marked. -/
structure Kept (h : FCHash) : Prop extends h.Blank where
  size : h.f_mmap_sz = mmapSize sizeofRec h.file.length
  sorted : Sorted FchashRec.key h.mapped
  unmarked : ∀ p ∈ h.pending, p.2 ≤ 0

theorem markCollisions_of_unmarked (h : FCHash) {ps : List (FchashRec × ℤ)}
    (hp : ∀ p ∈ ps, p.2 ≤ 0) : markCollisions ps h = .ok h := by
  induction ps with
  | nil => rfl
  | cons p ps ih =>
      unfold markCollisions
      rw [if_pos (hp p (by simp))]
      exact ih fun q hq => hp q (List.mem_cons_of_mem _ hq)

namespace Kept

variable {h : FCHash}

theorem init : Kept ⟨[], 0, []⟩ :=
  ⟨⟨by simp, by simp⟩, rfl, by simp [Sorted, mapped], by simp⟩

theorem mapped_eq (hk : h.Kept) :
    h.mapped = h.file.take (mmapSize sizeofRec h.file.length / sizeofRec) := by
  unfold mapped
  rw [hk.size]

theorem pushed (hk : h.Kept) (sha1 : Frag → Frag) (b : Bytes) (junk : ℕ → Frag) (len : ℕ) :
    (h.pushed sha1 b junk len).Kept := by
  refine ⟨⟨hk.file, fun p hp => ?_⟩, hk.size, hk.sorted, fun p hp => ?_⟩
  · rcases List.mem_append.1 hp with hp | hp
    · exact hk.pending p hp
    · rw [List.mem_singleton.1 hp]
  · rcases List.mem_append.1 hp with hp | hp
    · exact hk.unmarked p hp
    · rw [List.mem_singleton.1 hp]
      exact hk.lookup_le sha1 b junk len

/-- A flush writes all pending records, or there are none. -/
theorem flush_eq (hk : h.Kept) : h.flush =
    if h.pending = [] then .ok h
    else if mmapSize sizeofRec h.all.length = 0 then .error "f_mmap != NULL"
    else .ok h.flushed := by
  have hnew : (h.pending.filter fun p => p.2 ≤ 0) = h.pending :=
    List.filter_eq_self.2 fun p hp => decide_eq_true (hk.unmarked p hp)
  unfold flush
  rw [markCollisions_of_unmarked h hk.unmarked]
  dsimp only
  rw [hnew]
  split
  · next he =>
      obtain ⟨file, sz, pending⟩ := h
      have he : pending = [] := he
      subst he
      rfl
  · rfl

theorem mappedCount_le : h.mappedCount ≤ h.all.length := Nat.div_le_of_le_mul (Nat.mod_le _ _)

theorem flushed_file : h.flushed.file =
    qsort FchashRec.key (h.all.take h.mappedCount) ++ h.all.drop h.mappedCount := rfl

theorem flushed_perm : h.flushed.file.Perm h.all := by
  rw [flushed_file]
  exact (qsort_append_perm _).trans (by rw [List.take_append_drop])

theorem flushed (hk : h.Kept) : h.flushed.Kept := by
  have hlen : h.flushed.f_mmap_sz = mmapSize sizeofRec h.flushed.file.length := by
    rw [flushed_perm.length_eq]
    rfl
  refine ⟨⟨fun r hr => ?_, fun p hp => absurd hp List.not_mem_nil⟩, hlen, ?_,
    fun p hp => absurd hp List.not_mem_nil⟩
  · rcases List.mem_append.1 (flushed_perm.mem_iff.1 hr) with hr | hr
    · exact hk.file r hr
    · obtain ⟨p, hp, rfl⟩ := List.mem_map.1 hr
      exact hk.pending p hp
  · change Sorted _ (h.flushed.file.take h.mappedCount)
    rw [flushed_file, take_qsort_append_drop mappedCount_le]
    exact sorted_qsort

theorem flush {h' : FCHash} (hk : h.Kept) (hf : h.flush = .ok h') : h'.Kept := by
  rw [hk.flush_eq] at hf
  split at hf
  · cases hf
    exact hk
  · split at hf
    · cases hf
    · cases hf
      exact hk.flushed

theorem add {h' : FCHash} (hk : h.Kept) {sha1 : Frag → Frag} {b : Bytes} {junk : ℕ → Frag} {len : ℕ}
    (ha : h.add sha1 b junk len = .ok h') : h'.Kept := by
  by_cases hs : h.Skips sha1 b junk len
  · rw [add_of_skips hs] at ha
    cases ha
    exact hk
  · rw [add_of_not_skips hs] at ha
    split at ha
    · exact (hk.pushed sha1 b junk len).flush ha
    · cases ha
      exact hk.pushed sha1 b junk len

theorem reopened (hk : h.Kept) : (mmapFD { h with pending := [] }).Kept := by
  refine ⟨⟨hk.file, by simp [FCHash.mmapFD]⟩, rfl, ?_, by simp [FCHash.mmapFD]⟩
  have := hk.sorted
  rw [hk.mapped_eq] at this
  exact this

end Kept

section Lookup

variable {h : FCHash} {junk : ℕ → Frag}

def Found (h : FCHash) (md : Frag) : Prop := ∃ r ∈ h.mapped, r.md = md

/-- As many bytes are read behind a digest as a length has. -/
def Behind (junk : ℕ → Frag) : Prop := ∀ i, (junk i).length = 2

/-- A record without a length is the digest and two zeros. -/
theorem bytes_eq_append_iff {r : FchashRec} (hr : r.len = 0) {md tail : Frag}
    (ht : tail.length = 2) :
    r.bytes = md ++ tail ↔ r.md = md ∧ tail = [0, 0] := by
  have hbytes : r.bytes = r.md ++ [0, 0] := by
    unfold FchashRec.bytes
    rw [hr]
    rfl
  rw [hbytes]
  constructor
  · intro he
    obtain ⟨hmd, htail⟩ := List.append_inj' he ht.symm
    exact ⟨hmd, htail.symm⟩
  · rintro ⟨rfl, rfl⟩
    rfl

theorem findHashRec_isSome_iff (hk : h.Kept) (md : Frag) {tail : Frag} (ht : tail.length = 2) :
    (h.findHashRec (md ++ tail)).isSome ↔ h.Found md ∧ tail = [0, 0] := by
  have hmem : (∃ r ∈ h.mapped, r.key = memKey (md ++ tail)) ↔ h.Found md ∧ tail = [0, 0] := by
    constructor
    · rintro ⟨r, hr, he⟩
      have hlen := hk.file r (List.mem_of_mem_take hr)
      obtain ⟨hmd, h0⟩ := (bytes_eq_append_iff hlen ht).1 (memKey_injective he)
      exact ⟨⟨r, hr, hmd⟩, h0⟩
    · rintro ⟨⟨r, hr, hmd⟩, h0⟩
      have hlen := hk.file r (List.mem_of_mem_take hr)
      exact ⟨r, hr, congrArg memKey ((bytes_eq_append_iff hlen ht).2 ⟨hmd, h0⟩)⟩
  rw [← hmem]
  unfold findHashRec
  split
  · next h0 =>
      have : h.mapped = [] := by
        unfold mapped
        rw [h0]
        rfl
      simp [this]
  · exact bsearch_isSome_iff hk.sorted

/-- The file answers with a collision or not at all. -/
theorem findHashInFile_eq (hk : h.Kept) {md tail : Frag} (ht : tail.length = 2)
    [Decidable (h.Found md ∧ tail = [0, 0])] : h.findHashInFile md tail =
      if h.Found md ∧ tail = [0, 0] then FCHASH_COLLISION else FCHASH_NOTFOUND := by
  have hiff := findHashRec_isSome_iff hk md ht
  unfold findHashInFile
  cases hr : h.findHashRec (md ++ tail) with
  | none =>
      rw [hr] at hiff
      rw [if_neg fun hf => by cases hiff.2 hf]
  | some r =>
      rw [hr] at hiff
      rw [if_pos (hiff.1 rfl)]
      exact if_pos (hk.findHashRec hr)

/-- The pending records are compared with their length, which is nought. -/
theorem findHashInPending_ne (hb : h.Blank) (md : Frag) :
    h.findHashInPending md ≠ FCHASH_COLLISION := by
  unfold findHashInPending
  cases hf : h.pending.find? fun p => p.1.md = md with
  | none => exact (by decide : FCHASH_NOTFOUND ≠ FCHASH_COLLISION)
  | some p =>
      dsimp only
      rw [hb.pending p (List.mem_of_find?_eq_some hf)]
      decide

theorem findHash_eq_collision_iff (hk : h.Kept) (md : Frag) {tail : Frag} (ht : tail.length = 2) :
    h.findHash md tail = FCHASH_COLLISION ↔ h.Found md ∧ tail = [0, 0] := by
  classical
  unfold findHash
  rw [findHashInFile_eq hk ht]
  split
  · next hf => exact iff_of_true (if_pos (.inr rfl)) hf
  · next hf =>
      refine iff_of_false ?_ hf
      dsimp only
      rw [if_neg (by decide)]
      exact findHashInPending_ne hk.toBlank md

/-- A lookup ends in a collision where one of its digests is found, and without an answer
elsewhere. -/
theorem lookupFrom_spec (hk : h.Kept) (sha1 : Frag → Frag) (b : Bytes) (hj : Behind junk)
    (n i : ℕ) :
    (h.lookupFrom sha1 b junk n i = FCHASH_COLLISION ∧
      ∃ k, i ≤ k ∧ k < i + n ∧ h.Found (sha1 (firstBytes b (k + 1))) ∧ junk k = [0, 0]) ∨
    (h.lookupFrom sha1 b junk n i = -1 ∧
      ∀ k, i ≤ k → k < i + n → ¬ (h.Found (sha1 (firstBytes b (k + 1))) ∧ junk k = [0, 0])) := by
  induction n generalizing i with
  | zero => exact .inr ⟨rfl, fun k h₁ h₂ => by omega⟩
  | succ n ih =>
      have hle := hk.findHash_le (sha1 (firstBytes b (i + 1))) (junk i)
      have hiff := findHash_eq_collision_iff hk (sha1 (firstBytes b (i + 1))) (hj i)
      unfold lookupFrom
      dsimp only
      by_cases hf : h.Found (sha1 (firstBytes b (i + 1))) ∧ junk i = [0, 0]
      · rw [if_pos (.inr (hiff.2 hf))]
        exact .inl ⟨hiff.2 hf, i, le_rfl, by omega, hf⟩
      · rw [if_neg (not_or.2 ⟨not_lt.2 hle, fun he => hf (hiff.1 he)⟩)]
        rcases ih (i + 1) with ⟨hc, k, h₁, h₂, hk'⟩ | ⟨hn, hno⟩
        · exact .inl ⟨hc, k, by omega, by omega, hk'⟩
        · refine .inr ⟨hn, fun k h₁ h₂ => ?_⟩
          rcases h₁.eq_or_lt with rfl | hlt
          · exact hf
          · exact hno k hlt (by omega)

end Lookup

/-- The tables that calls of `add` on an empty file lead to, with flushes and reopenings,
and the fragments that were added. -/
inductive Reached (sha1 : Frag → Frag) : FCHash → List Frag → Prop where
  | init : Reached sha1 ⟨[], 0, []⟩ []
  | add {h h' : FCHash} {A : List Frag} {b : Bytes} {junk : ℕ → Frag} {len : ℕ} (prev : Reached sha1 h A)
      (hpos : 1 ≤ len) (hle : len ≤ 1024) (hadd : h.add sha1 b junk len = .ok h') :
      Reached sha1 h' (firstBytes b len :: A)
  | flush {h h' : FCHash} {A : List Frag} (prev : Reached sha1 h A) (hflush : h.flush = .ok h') :
      Reached sha1 h' A
  | reopen {h h' : FCHash} {A : List Frag} (prev : Reached sha1 h A) (hflush : h.flush = .ok h') :
      Reached sha1 (mmapFD { h' with pending := [] }) A

section Runs

variable {sha1 : Frag → Frag} {h : FCHash} {A : List Frag}

theorem Reached.kept (hr : Reached sha1 h A) : h.Kept := by
  induction hr with
  | init => exact .init
  | add _ _ _ hadd ih => exact ih.add hadd
  | flush _ hflush ih => exact ih.flush hflush
  | reopen _ hflush ih => exact (ih.flush hflush).reopened

theorem Reached.length_pos (hr : Reached sha1 h A) {g : Frag} (hg : g ∈ A) : 1 ≤ g.length := by
  induction hr with
  | init => cases hg
  | add _ hpos _ _ ih =>
      rcases List.mem_cons.1 hg with rfl | hg
      · rwa [length_firstBytes]
      · exact ih hg
  | flush _ _ ih => exact ih hg
  | reopen _ _ ih => exact ih hg

def Starts (b : Bytes) (g : Frag) : Prop := g = firstBytes b g.length

/-- What a lookup of at most `n` bytes at an address should do, whatever is behind a digest. -/
structure Faithful (sha1 : Frag → Frag) (h : FCHash) (A : List Frag) (b : Bytes) (n : ℕ) : Prop where
  determined : ∀ b' junk junk', Behind junk → Behind junk' → firstBytes b' n = firstBytes b n →
    h.lookup sha1 b' junk' n = h.lookup sha1 b junk n
  finds : ∀ junk, Behind junk → ∀ g ∈ A, g.length ≤ n → Starts b g →
    (∀ g' ∈ A, Starts b g' → g' = g) → h.lookup sha1 b junk n = g.length
  sound : ∀ junk, Behind junk → 0 < h.lookup sha1 b junk n →
    ∃ g ∈ A, Starts b g ∧ (g.length : ℤ) = h.lookup sha1 b junk n

/-- No record that is mapped has the digest of more than one of the bytes, up to one more
than the bound. -/
def Unmatched (sha1 : Frag → Frag) (h : FCHash) (b : Bytes) (n : ℕ) : Prop :=
  ∀ b', firstBytes b' n = firstBytes b n → ∀ i, 1 ≤ i → i ≤ n → ¬ h.Found (sha1 (firstBytes b' (i + 1)))

/-- One fragment within the bound is all that the bytes start with. -/
def Sole (A : List Frag) (b : Bytes) (n : ℕ) : Prop :=
  ∃ g ∈ A, g.length ≤ n ∧ Starts b g ∧ ∀ g' ∈ A, Starts b g' → g' = g

theorem lookup_eq_of_unmatched {b : Bytes} {n : ℕ} (hk : h.Kept) (hu : Unmatched sha1 h b n)
    {b' : Bytes} {junk : ℕ → Frag} (hj : Behind junk) (hb : firstBytes b' n = firstBytes b n) :
    h.lookup sha1 b' junk n = -1 := by
  rcases lookupFrom_spec hk sha1 b' hj n 1 with ⟨-, i, h₁, h₂, hf, -⟩ | ⟨he, -⟩
  · exact absurd hf (hu b' hb i h₁ (by omega))
  · exact he

/-- The bytes behind the digest decide about a record that matches. -/
theorem lookup_of_found {b : Bytes} {n i : ℕ} (hk : h.Kept) (h₁ : 1 ≤ i) (hn : i ≤ n)
    (hf : h.Found (sha1 (firstBytes b (i + 1)))) :
    h.lookup sha1 b (fun _ => [0, 0]) n = FCHASH_COLLISION ∧ h.lookup sha1 b
      (fun _ => [1, 0]) n = -1 := by
  have hj : ∀ x y, Behind fun _ => [x, y] := fun _ _ _ => rfl
  constructor
  · rcases lookupFrom_spec hk sha1 b (hj 0 0) n 1 with ⟨he, -⟩ | ⟨-, hno⟩
    · exact he
    · exact absurd ⟨hf, rfl⟩ (hno i h₁ (by omega))
  · rcases lookupFrom_spec hk sha1 b (hj 1 0) n 1 with ⟨-, k, -, -, -, h0⟩ | ⟨he, -⟩
    · exact absurd h0 (by decide)
    · exact he

/-- A lookup is faithful only where it finds nothing and there is nothing it should find. -/
theorem lookup_faithful_iff (hr : Reached sha1 h A) (b : Bytes) (n : ℕ) :
    Faithful sha1 h A b n ↔ Unmatched sha1 h b n ∧ ¬ Sole A b n := by
  have hk := hr.kept
  have hj : Behind fun _ => [0, 0] := fun _ => rfl
  constructor
  · intro hF
    refine ⟨fun b' hb' i h₁ hn hf => ?_, ?_⟩
    · obtain ⟨hc, hn1⟩ := lookup_of_found hk h₁ hn hf
      have h0 := hF.determined b' (fun _ => [0, 0]) (fun _ => [0, 0]) hj (fun _ => rfl) hb'
      have h1 := hF.determined b' (fun _ => [0, 0]) (fun _ => [1, 0]) hj (fun _ => rfl) hb'
      rw [hc] at h0
      rw [hn1, ← h0] at h1
      exact absurd h1 (by decide)
    · rintro ⟨g, hg, hlen, hs, honly⟩
      have hl := hF.finds _ hj g hg hlen hs honly
      have hle := hk.lookup_le sha1 b (fun _ => [0, 0]) n
      have hpos := hr.length_pos hg
      omega
  · rintro ⟨hu, hsole⟩
    refine ⟨fun b' junk junk' hj hj' hb' => ?_, fun junk hj g hg hlen hs honly => ?_,
      fun junk hj hpos => ?_⟩
    · rw [lookup_eq_of_unmatched hk hu hj' hb', lookup_eq_of_unmatched hk hu hj rfl]
    · exact absurd ⟨g, hg, hlen, hs, honly⟩ hsole
    · exact absurd hpos (not_lt.2 (hk.lookup_le sha1 b junk n))

/-- The table after the first `add`. -/
theorem reached_seven : Reached plainDigest ⟨[], 0, [(⟨plainDigest [7], 0⟩, -1)]⟩ [[7]] :=
  @Reached.add _ _ _ _ sevenBytes zeroJunk 1 .init le_rfl (by decide) rfl

theorem lookup_faithful_nine :
    ∃ h, Reached plainDigest h [[7]] ∧ Faithful plainDigest h [[7]] (fun _ => 9) 1 := by
  refine ⟨_, reached_seven, (lookup_faithful_iff reached_seven _ _).2 ⟨?_, ?_⟩⟩
  · rintro b' - i - - ⟨r, hr, -⟩
    cases hr
  · rintro ⟨g, hg, -, hs, -⟩
    rw [List.mem_singleton.1 hg] at hs
    exact absurd (show ([7] : Frag) = [9] from hs) (by decide)

/-- A pending record is not found. -/
theorem lookup_not_faithful :
    ∃ h, Reached plainDigest h [[7]] ∧ ¬ Faithful plainDigest h [[7]] sevenBytes 1 := by
  refine ⟨_, reached_seven, fun hF => ?_⟩
  have hl := hF.finds zeroJunk (fun _ => rfl) [7] (by simp) le_rfl rfl (by simp)
  have hle := reached_seven.kept.lookup_le plainDigest sevenBytes zeroJunk 1
  rw [hl] at hle
  exact absurd hle (by decide)

/-- The tables that `flush` is called on: from outside, or by an `add` that has made a record. -/
inductive Flushing (sha1 : Frag → Frag) : FCHash → List Frag → Prop where
  | close {h : FCHash} {A : List Frag} (prev : Reached sha1 h A) : Flushing sha1 h A
  | add {h : FCHash} {A : List Frag} {b : Bytes} {junk : ℕ → Frag} {len : ℕ} (prev : Reached sha1 h A)
      (hpos : 1 ≤ len) (hle : len ≤ 1024) (hs : ¬ h.Skips sha1 b junk len)
      (hfull : FLUSH_FCH_TRIGGER < (h.pushed sha1 b junk len).pending.length) :
      Flushing sha1 (h.pushed sha1 b junk len) (firstBytes b len :: A)

theorem Flushing.kept (hr : Flushing sha1 h A) : h.Kept := by
  cases hr with
  | close prev => exact prev.kept
  | add prev _ _ _ _ => exact prev.kept.pushed _ _ _ _

/-- What a flush should do: a record that is marked has an entry that did not collide, and
the others are in the file after it, once and in order. -/
structure FlushOK (h : FCHash) : Prop where
  resolved : ∀ p ∈ h.pending, 0 < p.2 → ∃ r, h.findHashRec p.1.bytes = some r ∧ r.len ≠ 0
  written : ∃ h', h.flush = .ok h' ∧ (∀ p ∈ h.pending, p.2 ≤ 0 → h'.file.count p.1 = 1) ∧
    Sorted FchashRec.key h'.file

/-- No record is written twice, what is written is mapped, and what is not mapped is in
order behind it. -/
structure Flushable (h : FCHash) : Prop where
  once : ∀ p ∈ h.pending, h.all.count p.1 = 1
  mapped : h.pending ≠ [] → mmapSize sizeofRec h.all.length ≠ 0
  rest : Sorted FchashRec.key (h.all.drop h.mappedCount)
  above : ∀ r ∈ h.all.take h.mappedCount, ∀ r' ∈ h.all.drop h.mappedCount, r.key ≤ r'.key

/-- A file is in order where its mapped part is below the rest. -/
theorem sorted_flushed_iff : Sorted FchashRec.key h.flushed.file ↔
    Sorted FchashRec.key (h.all.drop h.mappedCount) ∧
      ∀ r ∈ h.all.take h.mappedCount, ∀ r' ∈ h.all.drop h.mappedCount, r.key ≤ r'.key := by
  rw [Kept.flushed_file]
  unfold Sorted
  rw [List.pairwise_append]
  simp only [mem_qsort]
  exact and_iff_right sorted_qsort

/-- A table without pending records is in order where its file is. -/
theorem Kept.sorted_file_iff (hk : h.Kept) (hp : h.pending = []) : Sorted FchashRec.key h.file ↔
    Sorted FchashRec.key (h.all.drop h.mappedCount) ∧
      ∀ r ∈ h.all.take h.mappedCount, ∀ r' ∈ h.all.drop h.mappedCount, r.key ≤ r'.key := by
  have hall : h.all = h.file := by
    unfold all
    rw [hp, List.map_nil, List.append_nil]
  have hm : h.mapped = h.file.take h.mappedCount := by
    unfold mappedCount
    rw [hall]
    exact hk.mapped_eq
  have hs := hk.sorted
  rw [hm] at hs
  rw [hall]
  conv_lhs => rw [← List.take_append_drop h.mappedCount h.file]
  unfold Sorted
  rw [List.pairwise_append]
  exact and_iff_right hs

theorem flush_ok_iff (hr : Flushing sha1 h A) : FlushOK h ↔ Flushable h := by
  have hk := hr.kept
  have hres : ∀ p ∈ h.pending, 0 < p.2 → ∃ r, h.findHashRec p.1.bytes = some r ∧ r.len ≠ 0 :=
    fun p hp hpos => absurd hpos (not_lt.2 (hk.unmarked p hp))
  have hflush := hk.flush_eq
  by_cases hp : h.pending = []
  · rw [if_pos hp] at hflush
    have hsorted := hk.sorted_file_iff hp
    constructor
    · rintro ⟨-, h', hf, -, hs⟩
      rw [hflush] at hf
      cases hf
      have := hsorted.1 hs
      exact ⟨by simp [hp], fun hne => absurd hp hne, this.1, this.2⟩
    · intro hF
      exact ⟨hres, h, hflush, by simp [hp], hsorted.2 ⟨hF.rest, hF.above⟩⟩
  · rw [if_neg hp] at hflush
    constructor
    · rintro ⟨-, h', hf, hcount, hs⟩
      rw [hflush] at hf
      split at hf
      · cases hf
      · next hne =>
          cases hf
          have := sorted_flushed_iff.1 hs
          refine ⟨fun p hpm => ?_, fun _ => hne, this.1, this.2⟩
          rw [← Kept.flushed_perm.count_eq]
          exact hcount p hpm (hk.unmarked p hpm)
    · intro hF
      rw [if_neg (hF.mapped hp)] at hflush
      refine ⟨hres, h.flushed, hflush, fun p hpm _ => ?_, sorted_flushed_iff.2 ⟨hF.rest, hF.above⟩⟩
      rw [Kept.flushed_perm.count_eq]
      exact hF.once p hpm

theorem flush_ok_seven : ∃ h, Flushing plainDigest h [[7]] ∧ FlushOK h := by
  refine ⟨_, .close reached_seven, (flush_ok_iff (.close reached_seven)).2 ⟨?_, fun _ => ?_, ?_, ?_⟩⟩
  · simp [all]
  · decide
  · exact List.Pairwise.nil
  · exact fun _ _ _ hr => by cases hr

/-- A fragment that is added twice is written twice. -/
theorem flush_not_ok : ∃ h, Flushing plainDigest h [[7], [7]] ∧ ¬ FlushOK h := by
  have hr : Reached plainDigest ⟨[], 0, [(⟨plainDigest [7], 0⟩, -1), (⟨plainDigest [7], 0⟩, -1)]⟩
      [[7], [7]] :=
    @Reached.add _ _ _ _ sevenBytes zeroJunk 1 reached_seven le_rfl (by decide) rfl
  refine ⟨_, .close hr, ?_⟩
  rintro ⟨-, h', hf, hcount, -⟩
  rw [hr.kept.flush_eq, if_neg (by simp), if_neg (by decide)] at hf
  cases hf
  have h2 := hcount (⟨plainDigest [7], 0⟩, -1) (by simp) (by decide)
  rw [Kept.flushed_perm.count_eq] at h2
  exact absurd h2 (by decide)

end Runs

end FCHash

end FragCache

end VexLLVM
