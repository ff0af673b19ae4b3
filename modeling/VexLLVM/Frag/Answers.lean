import VexLLVM.Frag.FragCache

/-!
# What the fragment cache answers

No record of the hash table has a length, so the hash table never answers, and the
files decide. Every fragment that was added is in its file or waits to be written. A
lookup sees the part of the file that is mapped, of the files that are loaded, and the
directory is loaded only where no file is.
-/

namespace VexLLVM

open StateExcept Search

namespace FragCache

structure FCHash.Blank (h : FCHash) : Prop where
  file : ∀ r ∈ h.file, r.len = 0
  pending : ∀ p ∈ h.pending, p.1.len = 0

namespace FCHash.Blank

variable {h h' : FCHash} (hb : h.Blank)
include hb

theorem findHashRec {bytes : Frag} {r : FchashRec} (hr : h.findHashRec bytes = some r) :
    r.len = 0 := by
  unfold FCHash.findHashRec at hr
  split at hr
  · cases hr
  · exact hb.file r (List.mem_of_mem_take (bsearch_eq_some hr).1)

theorem findHash_le (md junk : Frag) : h.findHash md junk ≤ 0 := by
  have hf : h.findHashInFile md junk ≤ 0 := by
    unfold findHashInFile
    cases hr : h.findHashRec (md ++ junk) with
    | none => exact (by decide : FCHASH_NOTFOUND ≤ 0)
    | some r =>
        dsimp only
        rw [if_pos (hb.findHashRec hr)]
        decide
  have hp : h.findHashInPending md ≤ 0 := by
    unfold findHashInPending
    cases hf : h.pending.find? fun p => p.1.md = md with
    | none => exact (by decide : FCHASH_NOTFOUND ≤ 0)
    | some p =>
        dsimp only
        rw [hb.pending p (List.mem_of_find?_eq_some hf)]
        decide
  unfold findHash
  dsimp only
  split
  · exact hf
  · exact hp

/-- The hash table does not answer. -/
theorem lookup_le (sha1 : Frag → Frag) (b : Bytes) (junk : ℕ → Frag) (max_len : ℕ) :
    h.lookup sha1 b junk max_len ≤ 0 := by
  unfold lookup
  generalize 1 = i
  induction max_len generalizing i with
  | zero => exact (by decide : (-1 : ℤ) ≤ 0)
  | succ n ih =>
      unfold lookupFrom
      dsimp only
      split
      · exact hb.findHash_le _ _
      · exact ih (i + 1)

theorem mmapFD : h.mmapFD.Blank := ⟨hb.file, hb.pending⟩

theorem sortFile : h.sortFile.Blank := by
  refine ⟨fun r hr => ?_, hb.pending⟩
  rcases List.mem_append.1 hr with hr | hr
  · exact hb.file r (List.mem_of_mem_take (mem_qsort.1 hr))
  · exact hb.file r (List.mem_of_mem_drop hr)

theorem markCollisions {ps : List (FchashRec × ℤ)} (hm : FCHash.markCollisions ps h = .ok h') :
    h'.Blank := by
  induction ps generalizing h with
  | nil =>
      cases hm
      exact hb
  | cons p ps ih =>
      unfold FCHash.markCollisions at hm
      split at hm
      · exact ih hb hm
      · split at hm
        · cases hm
        · next r hr => rw [if_pos (hb.findHashRec hr)] at hm; cases hm

theorem flush (hf : h.flush = .ok h') : h'.Blank := by
  unfold FCHash.flush at hf
  cases hm : FCHash.markCollisions h.pending h with
  | error e => rw [hm] at hf; cases hf
  | ok h₁ =>
      rw [hm] at hf
      have hb₁ := hb.markCollisions hm
      dsimp only at hf
      split at hf
      · cases hf
        exact ⟨hb₁.file, by simp⟩
      · split at hf
        · cases hf
        · cases hf
          refine sortFile (mmapFD ⟨fun r hr => ?_, by simp⟩)
          rcases List.mem_append.1 hr with hr | hr
          · exact hb₁.file r hr
          · obtain ⟨p, hp, rfl⟩ := List.mem_map.1 hr
            exact hb.pending p (List.mem_filter.1 hp).1

theorem add {sha1 : Frag → Frag} {b : Bytes} {junk : ℕ → Frag} {len : ℕ}
    (ha : h.add sha1 b junk len = .ok h') : h'.Blank := by
  unfold FCHash.add at ha
  dsimp only at ha
  have hb' : ∀ md rc, FCHash.Blank { h with pending := h.pending ++ [(⟨md, 0⟩, rc)] } := by
    refine fun md rc => ⟨hb.file, fun p hp => ?_⟩
    rcases List.mem_append.1 hp with hp | hp
    · exact hb.pending p hp
    · rw [List.mem_singleton.1 hp]
  split at ha
  · cases ha
    exact hb
  · split at ha
    · exact (hb' _ _).flush ha
    · cases ha
      exact hb' _ _

end FCHash.Blank

def FragState.tabAt (s : FragState) (len : ℕ) : Option FCFile := (s.cachetab[len]?).join

def region (len : ℕ) (frags : List Frag) : List Frag := frags.take (mmapSize len frags.length / len)

structure FileOK (len : ℕ) (frags : List Frag) : Prop where
  length : ∀ f ∈ frags, f.length = len
  sorted : Sorted memKey (region len frags)

/-- An object of the table is in step with its file. -/
structure TabOK (s : FragState) (len : ℕ) (f : FCFile) : Prop where
  named : f.len = len
  mem : len ∈ s.files
  size : f.f_mmap_sz = mmapSize len (s.frags len).length
  buffer : ∀ g ∈ f.buffer, g.length = len

/-- Fragments that were added are in the files or wait to be written. -/
structure Good (A : List Frag) (s : FragState) : Prop where
  hash : s.hash.Blank
  room : s.cachetab.length < 2 ^ 32
  names : ∀ len ∈ s.files, 1 ≤ len ∧ len + 1 < 2 ^ 32
  files : ∀ len, FileOK len (s.frags len)
  tab : ∀ len f, s.tabAt len = some f → TabOK s len f
  stored : ∀ g, g ∈ A ↔ g ∈ s.frags g.length ∨ ∃ f, s.tabAt g.length = some f ∧ g ∈ f.buffer

section Table

variable {s : FragState} {tab : List (Option FCFile)} {len n : ℕ} {f : FCFile}

theorem join_resized : ((resized tab len)[n]?).join = (tab[n]?).join := by
  unfold resized
  rw [List.getElem?_append]
  split
  · rfl
  · next h =>
      rw [List.getElem?_eq_none (not_lt.1 h), List.getElem?_replicate]
      split <;> rfl

theorem join_set_resized : (((resized tab len).set len (some f))[n]?).join =
    if n = len then some f else (tab[n]?).join := by
  have hlt : len < (resized tab len).length := by
    unfold resized
    rw [List.length_append, List.length_replicate]
    omega
  rw [List.getElem?_set]
  by_cases hn : n = len
  · subst hn
    simp [hlt]
  · rw [if_neg (Ne.symm hn), if_neg hn, join_resized]

theorem join_set (h : ((tab[len]?).join).isSome) :
    ((tab.set len (some f))[n]?).join = if n = len then some f else (tab[n]?).join := by
  have hlt : len < tab.length := by
    by_contra hge
    rw [List.getElem?_eq_none (not_lt.1 hge)] at h
    cases h
  rw [List.getElem?_set]
  by_cases hn : n = len
  · subst hn
    simp [hlt]
  · rw [if_neg (Ne.symm hn), if_neg hn]

theorem frags_insert (files : AList fun _ : ℕ => List Frag) (frags : List Frag) :
    ((files.insert len frags).lookup n).getD [] =
      if n = len then frags else (files.lookup n).getD [] := by
  by_cases hn : n = len
  · subst hn
    simp
  · rw [if_neg hn, AList.lookup_insert_ne hn]

/-- An object is in the table at its length. -/
theorem mem_cachetab_iff : some f ∈ s.cachetab ↔ ∃ n, s.tabAt n = some f := by
  constructor
  · intro h
    obtain ⟨n, hn, he⟩ := List.getElem_of_mem h
    exact ⟨n, by rw [FragState.tabAt, List.getElem?_eq_getElem hn, he]; rfl⟩
  · rintro ⟨n, hn⟩
    unfold FragState.tabAt at hn
    cases h : s.cachetab[n]? with
    | none => rw [h] at hn; cases hn
    | some o =>
        rw [h] at hn
        have hn : o = some f := hn
        subst hn
        exact List.mem_of_getElem? h

end Table

section Files

variable {A : List Frag} {s t : FragState} {len : ℕ}

def loaded (s : FragState) (len : ℕ) : FragState :=
  { s with
    files := s.files.insert len (s.frags len)
    cachetab := (resized s.cachetab len).set len
      (some ⟨len, mmapSize len (s.frags len).length, []⟩) }

theorem loadCacheFile_ok (h0 : len ≠ 0) (hfit : s.cachetab.length ≤ len → len + 1 < 2 ^ 32)
    (hnone : s.tabAt len = none) : loadCacheFile len s = .ok ((), loaded s len) := by
  have hopen : openFile len s = .ok (⟨len, mmapSize len (s.frags len).length, []⟩,
      { s with files := s.files.insert len (s.frags len) }) := by
    unfold openFile
    rw [get_bind, if_neg h0]
    rfl
  unfold loadCacheFile
  rw [bind_ok hopen, get_bind, if_neg]
  · dsimp only
    unfold FragState.tabAt at hnone
    rw [hnone]
    rfl
  · rintro ⟨h₁, h₂⟩
    exact absurd (hfit h₁) (not_lt.2 h₂)

theorem loadCacheFile_inv {r : Unit} (h : loadCacheFile len s = .ok (r, t)) :
    len ≠ 0 ∧ (s.cachetab.length ≤ len → len + 1 < 2 ^ 32) ∧ s.tabAt len = none ∧
      t = loaded s len := by
  obtain ⟨f, u, h₁, h₂⟩ := bind_eq_ok h
  unfold openFile at h₁
  rw [get_bind] at h₁
  split at h₁
  · cases h₁
  · next h0 =>
      cases h₁
      rw [get_bind] at h₂
      split at h₂
      · cases h₂
      · next hfit =>
          have hfit' : s.cachetab.length ≤ len → len + 1 < 2 ^ 32 := fun hle => by
            by_contra hge
            exact hfit ⟨hle, not_lt.1 hge⟩
          cases hn : s.tabAt len with
          | some f =>
              unfold FragState.tabAt at hn
              rw [hn] at h₂
              cases h₂
          | none =>
              have := loadCacheFile_ok h0 hfit' hn
              rw [this] at h
              cases h
              exact ⟨h0, hfit', rfl, rfl⟩

theorem loaded_frags (n : ℕ) : (loaded s len).frags n = s.frags n := by
  unfold FragState.frags loaded
  rw [frags_insert]
  split
  · next hn => rw [hn]; rfl
  · rfl

theorem loaded_tabAt (n : ℕ) : (loaded s len).tabAt n =
    if n = len then some ⟨len, mmapSize len (s.frags len).length, []⟩ else s.tabAt n :=
  join_set_resized

theorem mem_loaded_files (n : ℕ) : n ∈ (loaded s len).files ↔ n = len ∨ n ∈ s.files := by
  unfold loaded
  exact AList.mem_insert _

theorem Good.loaded (h : Good A s) (h0 : len ≠ 0) (hfit : len + 1 < 2 ^ 32)
    (hnone : s.tabAt len = none) : Good A (loaded s len) := by
  refine ⟨h.hash, ?_, fun n hn => ?_, fun n => ?_, fun n f hf => ?_, fun g => ?_⟩
  · have := h.room
    unfold FragCache.loaded resized
    rw [List.length_set, List.length_append, List.length_replicate]
    omega
  · rcases (mem_loaded_files n).1 hn with rfl | hn
    · exact ⟨Nat.pos_of_ne_zero h0, hfit⟩
    · exact h.names n hn
  · rw [loaded_frags]
    exact h.files n
  · rw [loaded_tabAt] at hf
    split at hf
    · next hn =>
        subst hn
        cases hf
        exact ⟨rfl, (mem_loaded_files n).2 (.inl rfl), by rw [loaded_frags], by simp⟩
    · have := h.tab n f hf
      exact ⟨this.named, (mem_loaded_files n).2
        (.inr this.mem), by rw [loaded_frags]; exact this.size,
        this.buffer⟩
  · rw [h.stored g, loaded_frags, loaded_tabAt]
    by_cases hg : g.length = len
    · rw [hg, hnone]
      simp
    · rw [if_neg hg]

def withFile (s : FragState) (len : ℕ) (frags : List Frag) : FragState :=
  { s with files := s.files.insert len frags }

theorem withFile_frags (n : ℕ) (l : List Frag) :
    (withFile s len l).frags n = if n = len then l else s.frags n :=
  frags_insert s.files l

def sortedFile (len : ℕ) (l : List Frag) : List Frag :=
  qsort memKey (region len l) ++ l.drop (mmapSize len l.length / len)

theorem sortedFile_perm (len : ℕ) (l : List Frag) : (sortedFile len l).Perm l :=
  (qsort_append_perm _).trans (by rw [region, List.take_append_drop])

theorem mem_sortedFile {l : List Frag} {g : Frag} : g ∈ sortedFile len l ↔ g ∈ l :=
  (sortedFile_perm len l).mem_iff

theorem length_sortedFile {l : List Frag} : (sortedFile len l).length = l.length :=
  (sortedFile_perm len l).length_eq

theorem region_sortedFile {l : List Frag} :
    region len (sortedFile len l) = qsort memKey (region len l) := by
  have hle : mmapSize len l.length / len ≤ l.length :=
    Nat.div_le_of_le_mul (Nat.mod_le _ _)
  change (sortedFile len l).take (mmapSize len (sortedFile len l).length / len) = _
  rw [length_sortedFile]
  exact take_qsort_append_drop hle

structure Flushed (f : FCFile) (s : FragState) (f' : FCFile) (t : FragState) : Prop where
  hash : t.hash = s.hash
  cachetab : t.cachetab = s.cachetab
  added : t.added = s.added
  files : ∀ n, n ∈ t.files ↔ n ∈ s.files
  other : ∀ n, n ≠ f.len → t.frags n = s.frags n
  file : FileOK f.len (t.frags f.len)
  mem : ∀ g, g ∈ t.frags f.len ↔ g ∈ s.frags f.len ∨ g ∈ f.buffer
  named : f'.len = f.len
  size : f.f_mmap_sz = mmapSize f.len (s.frags f.len).length →
    f'.f_mmap_sz = mmapSize f.len (t.frags f.len).length
  buffer : f'.buffer = []

theorem flushFile_inv {f f' : FCFile} (hfile : FileOK f.len (s.frags f.len))
    (hmem : f.len ∈ s.files) (hbuf : ∀ g ∈ f.buffer, g.length = f.len)
    (h : flushFile f s = .ok (f', t)) :
    Flushed f s f' t := by
  unfold flushFile at h
  split at h
  · next hb =>
      cases h
      exact ⟨rfl, rfl, rfl, fun _ => .rfl, fun _ _ => rfl, hfile, fun g => by simp [hb],
        rfl, id, hb⟩
  · have ht : t = withFile s f.len (sortedFile f.len (s.frags f.len ++ f.buffer)) := by
      cases h
      rfl
    have hf' : f' = ⟨f.len, mmapSize f.len (s.frags f.len ++ f.buffer).length, []⟩ := by
      cases h
      rfl
    have hself : t.frags f.len = sortedFile f.len (s.frags f.len ++ f.buffer) := by
      rw [ht, withFile_frags, if_pos rfl]
    subst hf'
    refine ⟨by rw [ht]; rfl, by rw [ht]; rfl, by rw [ht]; rfl, fun n => ?_, fun n hn => ?_,
      ⟨fun g hg => ?_, ?_⟩,
      fun g => ?_, rfl, fun _ => ?_, rfl⟩
    · rw [ht]
      refine (AList.mem_insert _).trans ⟨?_, .inr⟩
      rintro (rfl | hn)
      · exact hmem
      · exact hn
    · rw [ht, withFile_frags, if_neg hn]
    · rw [hself, mem_sortedFile] at hg
      rcases List.mem_append.1 hg with hg | hg
      · exact hfile.length g hg
      · exact hbuf g hg
    · rw [hself, region_sortedFile]
      exact sorted_qsort
    · rw [hself, mem_sortedFile, List.mem_append]
    · rw [hself, length_sortedFile]

def opened (s : FragState) (len : ℕ) : FCFile := ⟨len, mmapSize len (s.frags len).length, []⟩

/-- Every file of a list is loaded. -/
theorem forM_loadCacheFile {l : List ℕ} (hs : Good A s) (hl : l.Nodup)
    (hnone : ∀ n ∈ l, s.tabAt n = none) (hfit : ∀ n ∈ l, 1 ≤ n ∧ n + 1 < 2 ^ 32) :
    ∃ t, l.forM loadCacheFile s = .ok ((), t) ∧ Good A t ∧ t.added = s.added ∧
      (∀ n, t.frags n = s.frags n) ∧ ∀ n, t.tabAt n =
        if n ∈ l then some (opened s n) else s.tabAt n := by
  induction l generalizing s with
  | nil => exact ⟨s, rfl, hs, rfl, fun _ => rfl, fun n => by simp⟩
  | cons m l ih =>
      have hm := hfit m (by simp)
      have hm0 : m ≠ 0 := Nat.one_le_iff_ne_zero.1 hm.1
      have hmn := hnone m (by simp)
      have hload := loadCacheFile_ok hm0 (fun _ => hm.2) hmn
      obtain ⟨t, ht, hg, hadd, hfr, htab⟩ := ih (hs.loaded hm0 hm.2 hmn) hl.of_cons
        (fun n hn => by
          rw [loaded_tabAt, if_neg (ne_of_mem_of_not_mem hn (List.nodup_cons.1 hl).1)]
          exact hnone n (List.mem_cons_of_mem _ hn))
        (fun n hn => hfit n (List.mem_cons_of_mem _ hn))
      refine ⟨t, ?_, hg, hadd, fun n => (hfr n).trans (loaded_frags n), fun n => ?_⟩
      · exact (bind_ok hload).trans ht
      · rw [htab n, loaded_tabAt]
        have : opened (loaded s m) n = opened s n := by
          unfold opened
          rw [loaded_frags]
        rw [this]
        by_cases hn : n = m
        · subst hn
          simp [opened]
        · simp [hn]

theorem loadDir_ok (hs : Good A s) (hempty : s.cachetab = []) :
    ∃ t, loadDir s = .ok ((), t) ∧ Good A t ∧ t.added = s.added ∧ (∀ n, t.frags n = s.frags n) ∧
      ∀ n, t.tabAt n = if n ∈ s.files then some (opened s n) else none := by
  have hnone : ∀ n, s.tabAt n = none := fun n => by
    unfold FragState.tabAt
    rw [hempty]
    rfl
  obtain ⟨t, ht, hg, hadd, hfr, htab⟩ := forM_loadCacheFile hs s.files.keys_nodup
    (fun n _ => hnone n) hs.names
  refine ⟨t, ht, hg, hadd, hfr, fun n => ?_⟩
  rw [htab n, hnone]
  exact if_congr AList.mem_keys.symm rfl rfl

theorem loadIfEmpty_ok (hs : Good A s) :
    ∃ t, loadIfEmpty s = .ok ((), t) ∧ Good A t ∧ t.added = s.added ∧ (∀ n, t.frags n = s.frags n) ∧
      ∀ n, t.tabAt n =
        if s.cachetab = [] then if n ∈ s.files then some (opened s n) else none else s.tabAt n := by
  unfold loadIfEmpty
  by_cases h : s.cachetab = []
  · obtain ⟨t, ht, hg, hadd, hfr, htab⟩ := loadDir_ok hs h
    refine ⟨t, ?_, hg, hadd, hfr, fun n => by rw [if_pos h, htab n]⟩
    rw [get_bind, if_pos (List.length_eq_zero_iff.2 h)]
    exact ht
  · refine ⟨s, ?_, hs, rfl, fun _ => rfl, fun n => by rw [if_neg h]⟩
    rw [get_bind, if_neg fun h' => h (List.length_eq_zero_iff.1 h')]
    rfl

theorem Good.withFile (h : Good A s) (h0 : len ≠ 0) (hfit : len + 1 < 2 ^ 32) :
    Good A (withFile s len (s.frags len)) := by
  have hfr : ∀ n, (FragCache.withFile s len (s.frags len)).frags n = s.frags n := fun n => by
    rw [withFile_frags]
    split
    · next hn => rw [hn]
    · rfl
  have hmem : ∀ n, n ∈ (FragCache.withFile s len (s.frags len)).files ↔ n = len ∨ n ∈ s.files :=
    fun n => AList.mem_insert _
  refine ⟨h.hash, h.room, fun n hn => ?_, fun n => ?_, fun n f hf => ?_, fun g => ?_⟩
  · rcases (hmem n).1 hn with rfl | hn
    · exact ⟨Nat.pos_of_ne_zero h0, hfit⟩
    · exact h.names n hn
  · rw [hfr]
    exact h.files n
  · have := h.tab n f hf
    exact ⟨this.named, (hmem n).2 (.inr this.mem), by rw [hfr]; exact this.size, this.buffer⟩
  · rw [h.stored g, hfr]
    rfl

theorem Good.congr {B : List Frag} (h : Good A s) (hAB : ∀ g, g ∈ B ↔ g ∈ A) : Good B s :=
  ⟨h.hash, h.room, h.names, h.files, h.tab, fun g => (hAB g).trans (h.stored g)⟩

theorem getFCFile_inv {f : FCFile} (hs : Good A s) (hlen : len < 2 ^ 32)
    (h : getFCFile len s = .ok (f, t)) :
    Good A t ∧ t.added = s.added ∧ t.tabAt len = some f := by
  unfold getFCFile at h
  rw [get_bind] at h
  cases hf : s.tabAt len with
  | some f' =>
      unfold FragState.tabAt at hf
      rw [hf] at h
      cases h
      exact ⟨hs, rfl, hf⟩
  | none =>
      have hf' := hf
      unfold FragState.tabAt at hf'
      rw [hf'] at h
      obtain ⟨f₁, u, h₁, h₂⟩ := bind_eq_ok h
      unfold openFile at h₁
      rw [get_bind] at h₁
      split at h₁
      · cases h₁
      · next h0 =>
          have hu : u = withFile s len (s.frags len) := by
            cases h₁
            rfl
          obtain ⟨r, v, h₃, h₄⟩ := bind_eq_ok h₂
          obtain ⟨-, hfit, hnone, hv⟩ := loadCacheFile_inv h₃
          have hlen' : len + 1 < 2 ^ 32 := by
            by_contra hge
            have := hs.room
            have hv : ¬ s.cachetab.length ≤ len := fun hle => hge (hfit (by rw [hu]; exact hle))
            omega
          have hgu : Good A u := by
            rw [hu]
            exact hs.withFile h0 hlen'
          have hgv : Good A v := by
            rw [hv]
            exact hgu.loaded h0 hlen' hnone
          rw [get_bind] at h₄
          have htab : v.tabAt len = some (opened u len) := by
            rw [hv, loaded_tabAt, if_pos rfl]
            rfl
          have htab' := htab
          unfold FragState.tabAt at htab'
          rw [htab'] at h₄
          cases h₄
          refine ⟨hgv, ?_, htab⟩
          rw [hv, hu]
          rfl

def withObj (s : FragState) (len : ℕ) (f : FCFile) : FragState :=
  { s with cachetab := s.cachetab.set len (some f) }

theorem withObj_tabAt {f f' : FCFile} (hf : s.tabAt len = some f) (n : ℕ) :
    (withObj s len f').tabAt n = if n = len then some f' else s.tabAt n :=
  join_set (by rw [show (s.cachetab[len]?).join = some f from hf]; rfl)

def FCFile.push (f : FCFile) (g : Frag) : FCFile := { f with buffer := f.buffer ++ [g] }

/-- The fragment waits to be written. -/
theorem Good.buffered {f : FCFile} {g : Frag} (hs : Good A s) (hf : s.tabAt len = some f)
    (hg : g.length = len) : Good (g :: A) (withObj s len (f.push g)) := by
  have hOK := hs.tab len f hf
  refine ⟨hs.hash, ?_, hs.names, hs.files, fun n f' hf' => ?_, fun g' => ?_⟩
  · unfold withObj
    rw [List.length_set]
    exact hs.room
  · rw [withObj_tabAt hf] at hf'
    split at hf'
    · next hn =>
        subst hn
        cases hf'
        refine ⟨hOK.named, hOK.mem, hOK.size, fun g' hg' => ?_⟩
        rcases List.mem_append.1 hg' with hg' | hg'
        · exact hOK.buffer g' hg'
        · rw [List.mem_singleton.1 hg', hg]
    · have := hs.tab n f' hf'
      exact ⟨this.named, this.mem, this.size, this.buffer⟩
  · rw [List.mem_cons, hs.stored g', withObj_tabAt hf]
    change _ ↔ g' ∈ s.frags g'.length ∨ _
    by_cases hn : g'.length = len
    · rw [hn, if_pos rfl, hf]
      simp only [Option.some.injEq, exists_eq_left', FCFile.push, List.mem_append,
        List.mem_singleton]
      tauto
    · rw [if_neg hn]
      have : g' ≠ g := fun h => hn (h ▸ hg)
      simp [this]

/-- The object is written, and is in the table as it is after that. -/
theorem Good.flushed {f f' : FCFile} (hs : Good A s) (hf : s.tabAt len = some f)
    (h : Flushed f s f' t) : Good A (withObj t len f') := by
  have hOK := hs.tab len f hf
  have hlen := hOK.named
  subst hlen
  have htabt : ∀ n, t.tabAt n = s.tabAt n := fun n => by
    unfold FragState.tabAt
    rw [h.cachetab]
  have htab : ∀ n, (withObj t f.len f').tabAt n = if n = f.len then some f' else s.tabAt n :=
    fun n => by
    rw [withObj_tabAt ((htabt _).trans hf), htabt]
  have hfr : ∀ n, (withObj t f.len f').frags n = t.frags n := fun _ => rfl
  refine ⟨?_, ?_, fun n hn => hs.names n ((h.files n).1 hn), fun n => ?_, fun n f'' hf'' => ?_,
    fun g => ?_⟩
  · change t.hash.Blank
    rw [h.hash]
    exact hs.hash
  · unfold withObj
    rw [List.length_set, h.cachetab]
    exact hs.room
  · rw [hfr]
    by_cases hn : n = f.len
    · rw [hn]
      exact h.file
    · rw [h.other n hn]
      exact hs.files n
  · rw [htab n] at hf''
    split at hf''
    · next hn =>
        subst hn
        cases hf''
        exact ⟨h.named, (h.files _).2 hOK.mem, h.size hOK.size, by simp [h.buffer]⟩
    · next hn =>
        have := hs.tab n f'' hf''
        exact ⟨this.named, (h.files _).2 this.mem, by rw [hfr, h.other n hn]; exact this.size,
          this.buffer⟩
  · rw [hs.stored g, htab, hfr]
    by_cases hn : g.length = f.len
    · rw [hn, if_pos rfl, hf, h.mem]
      simp [h.buffer]
    · rw [if_neg hn, h.other _ hn]

theorem addToFile_inv {f : FCFile} {b : Bytes} {r : Unit} (hs : Good A s)
    (hf : s.tabAt len = some f)
    (h : addToFile f b s = .ok (r, t)) : Good (firstBytes b len :: A) t ∧ t.added = s.added := by
  have hlen := (hs.tab len f hf).named
  subst hlen
  have hbuf := hs.buffered hf (length_firstBytes b f.len)
  have htab : (withObj s f.len (f.push (firstBytes b f.len))).tabAt f.len =
      some (f.push (firstBytes b f.len)) := by
    rw [withObj_tabAt hf, if_pos rfl]
  have hOK := hbuf.tab _ _ htab
  unfold addToFile at h
  dsimp only at h
  split at h
  · obtain ⟨f', u, h₁, h₂⟩ := bind_eq_ok h
    have hfl : Flushed (f.push (firstBytes b f.len)) s f' u :=
      flushFile_inv (hs.files _) hOK.mem hOK.buffer h₁
    -- The table is set once, and not before the file is written.
    have hfl' : Flushed (f.push (firstBytes b f.len))
      (withObj s f.len (f.push (firstBytes b f.len))) f'
        (withObj u f.len (f.push (firstBytes b f.len))) :=
      ⟨hfl.hash, congrArg (fun tab =>
        tab.set f.len (some (f.push (firstBytes b f.len)))) hfl.cachetab,
        hfl.added, hfl.files, hfl.other, hfl.file, hfl.mem, hfl.named, hfl.size, hfl.buffer⟩
    have ht : t = withObj (withObj u f.len (f.push (firstBytes b f.len))) f.len f' := by
      cases h₂
      unfold withObj
      rw [List.set_set]
    rw [ht]
    exact ⟨hbuf.flushed htab hfl', hfl.added⟩
  · cases h
    exact ⟨hbuf, rfl⟩

/-- What is left of the table still waits to be written. -/
structure Closing (A : List Frag) (rest : List FCFile) (s : FragState) : Prop where
  hash : s.hash.Blank
  names : ∀ len ∈ s.files, 1 ≤ len ∧ len + 1 < 2 ^ 32
  files : ∀ len, FileOK len (s.frags len)
  left : ∀ f ∈ rest, f.len ∈ s.files ∧ ∀ g ∈ f.buffer, g.length = f.len
  stored : ∀ g, g ∈ A ↔ g ∈ s.frags g.length ∨ ∃ f ∈ rest, f.len = g.length ∧ g ∈ f.buffer

theorem Good.closing (h : Good A s) : Closing A (s.cachetab.filterMap id) s := by
  have hmem : ∀ f, f ∈ s.cachetab.filterMap id ↔ ∃ n, s.tabAt n = some f := fun f => by
    rw [← mem_cachetab_iff]
    simp
  refine ⟨h.hash, h.names, h.files, fun f hf => ?_, fun g => ?_⟩
  · obtain ⟨n, hn⟩ := (hmem f).1 hf
    have := h.tab n f hn
    rw [this.named]
    exact ⟨this.mem, this.buffer⟩
  · rw [h.stored g]
    refine or_congr_right ⟨?_, ?_⟩
    · rintro ⟨f, hf, hg⟩
      exact ⟨f, (hmem f).2 ⟨_, hf⟩, (h.tab _ f hf).named, hg⟩
    · rintro ⟨f, hf, hlen, hg⟩
      obtain ⟨n, hn⟩ := (hmem f).1 hf
      have := (h.tab n f hn).named
      exact ⟨f, by rw [← hlen, this]; exact hn, hg⟩

theorem Closing.flushFile {f f' : FCFile} {rest : List FCFile} (h : Closing A (f :: rest) s)
    (hf : flushFile f s = .ok (f', t)) : Closing A rest t ∧ t.added = s.added := by
  have hleft := h.left f (by simp)
  have hfl := flushFile_inv (h.files _) hleft.1 hleft.2 hf
  refine ⟨⟨?_, fun n hn => h.names n ((hfl.files n).1 hn), fun n => ?_, fun f₂ hf₂ => ?_,
    fun g => ?_⟩,
    hfl.added⟩
  · rw [hfl.hash]
    exact h.hash
  · by_cases hn : n = f.len
    · rw [hn]
      exact hfl.file
    · rw [hfl.other n hn]
      exact h.files n
  · have := h.left f₂ (List.mem_cons_of_mem _ hf₂)
    exact ⟨(hfl.files _).2 this.1, this.2⟩
  · rw [h.stored g]
    by_cases hn : g.length = f.len
    · rw [hn, hfl.mem]
      simp only [List.mem_cons, exists_eq_or_imp, true_and]
      tauto
    · rw [hfl.other _ hn]
      simp [Ne.symm hn]

theorem Closing.forM {l : List FCFile} {r : Unit} (hc : Closing A l s)
    (h : (l.forM fun f => do
      let _ ← FragCache.flushFile f
      pure ()) s = .ok (r, t)) : Closing A [] t ∧ t.added = s.added := by
  induction l generalizing s with
  | nil =>
      cases h
      exact ⟨hc, rfl⟩
  | cons f l ih =>
      obtain ⟨_, v, h₁, h₂⟩ := bind_eq_ok h
      obtain ⟨f', w, h₃, h₄⟩ := bind_eq_ok h₁
      cases h₄
      obtain ⟨hc', hadd⟩ := hc.flushFile h₃
      obtain ⟨hc'', hadd'⟩ := ih hc' h₂
      exact ⟨hc'', hadd'.trans hadd⟩

theorem reopen_inv {r : Unit} (hs : Good A s) (h : reopen s = .ok (r, t)) :
    Good A t ∧ t.added = s.added := by
  unfold reopen at h
  rw [get_bind] at h
  obtain ⟨_, u, h₁, h₂⟩ := bind_eq_ok h
  obtain ⟨hc, hadd⟩ := hs.closing.forM h₁
  rw [get_bind] at h₂
  cases hh : u.hash.flush with
  | error e => rw [hh] at h₂; cases h₂
  | ok h' =>
      rw [hh] at h₂
      have ht : t = { u with hash := FCHash.mmapFD { h' with pending := [] }, cachetab := [] } := by
        cases h₂
        rfl
      subst ht
      have hb : h'.Blank := hc.hash.flush hh
      have htab : ∀ (u : FragState) (k : FCHash) (n : ℕ),
          FragState.tabAt { u with hash := k, cachetab := [] } n = none := fun _ _ _ => rfl
      refine ⟨⟨FCHash.Blank.mmapFD ⟨hb.file, by simp⟩, by simp, hc.names, hc.files,
        fun n f hf => ?_,
        fun g => ?_⟩, hadd⟩
      · rw [htab] at hf
        cases hf
      · rw [hc.stored g]
        simp only [htab]
        simp [FragState.frags]

end Files

section Contains

variable {A : List Frag} {s : FragState} {len : ℕ} {f : FCFile} {b : Bytes}

theorem TabOK.mapped (h : TabOK s len f) : f.mapped (s.frags f.len) = region len (s.frags len) := by
  unfold FCFile.mapped region
  rw [h.named, h.size]

/-- An object answers for what is mapped and what is not yet written. -/
theorem TabOK.contains_iff (h : TabOK s len f) (hfile : FileOK len (s.frags len)) :
    f.contains (s.frags f.len) b = true ↔
      firstBytes b len ∈ region len (s.frags len) ∨ firstBytes b len ∈ f.buffer := by
  have hF : f.containsFile (s.frags f.len) b = true ↔ firstBytes b len ∈ region len
    (s.frags len) := by
    unfold FCFile.containsFile
    rw [h.mapped, h.named]
    split
    · next h0 =>
        rw [h.size] at h0
        simp [region, h0]
    · rw [bsearch_isSome_iff hfile.sorted]
      constructor
      · rintro ⟨x, hx, he⟩
        exact memKey_injective he ▸ hx
      · exact fun hx => ⟨_, hx, rfl⟩
  have hB : f.containsBuffer b = true ↔ firstBytes b len ∈ f.buffer := by
    unfold FCFile.containsBuffer
    rw [h.named]
    simp [List.any_eq_true]
  unfold FCFile.contains
  rw [Bool.or_eq_true, hF, hB]

end Contains

section Runs

variable {A : List Frag} {s t : FragState} {b : Bytes} {sha1 : Frag → Frag} {junk : ℕ → Frag}

theorem addFragment_inv {len : ℕ} {r : Bool} (hlen : len < 2 ^ 32) (hs : Good s.added s)
    (h : addFragment sha1 b len junk s = .ok (r, t)) : Good t.added t := by
  unfold addFragment at h
  rw [modify_bind] at h
  obtain ⟨f, u, h₁, h₂⟩ := bind_eq_ok h
  have hs' : Good s.added { s with added := firstBytes b len :: s.added } :=
    ⟨hs.hash, hs.room, hs.names, hs.files, fun n f hf => hs.tab n f hf |> fun h =>
      ⟨h.named, h.mem, h.size, h.buffer⟩, hs.stored⟩
  obtain ⟨hu, hadd, htab⟩ := getFCFile_inv hs' hlen h₁
  have hadd : u.added = firstBytes b len :: s.added := hadd
  have hOK := hu.tab len f htab
  rw [get_bind] at h₂
  split at h₂
  · next hc =>
      cases h₂
      rw [hadd]
      refine hu.congr fun g => ⟨fun hg => ?_, List.mem_cons_of_mem _⟩
      rcases List.mem_cons.1 hg with rfl | hg
      · rw [hu.stored, length_firstBytes]
        rcases (hOK.contains_iff (hu.files len)).1 hc with hc | hc
        · exact .inl (List.mem_of_mem_take hc)
        · exact .inr ⟨f, htab, hc⟩
      · exact hg
  · cases hh : u.hash.add sha1 b junk len with
    | error e => rw [hh] at h₂; cases h₂
    | ok k =>
        rw [hh] at h₂
        obtain ⟨_, v, h₃, h₄⟩ := bind_eq_ok h₂
        have hv : v = { u with hash := k } := by
          cases h₃
          rfl
        have hgv : Good s.added v := by
          rw [hv]
          exact ⟨hu.hash.add hh, hu.room, hu.names, hu.files,
            fun n f hf => hu.tab n f hf |> fun h =>
            ⟨h.named, h.mem, h.size, h.buffer⟩, hu.stored⟩
        obtain ⟨_, w, h₅, h₆⟩ := bind_eq_ok h₄
        cases h₆
        obtain ⟨hw, hadd'⟩ := addToFile_inv hgv (by rw [hv]; exact htab) h₅
        rw [hadd', hv, show FragState.added _ = u.added from rfl, hadd]
        exact hw

/-- A fragment that a lookup sees: it is mapped or waits to be written, and its file is
loaded or gets loaded. -/
def Reaches (s : FragState) (g : Frag) : Prop :=
  if s.cachetab = [] then g ∈ region g.length (s.frags g.length)
  else ∃ f, s.tabAt g.length = some f ∧ (g ∈ f.mapped (s.frags g.length) ∨ g ∈ f.buffer)

/-- The files as they are when they are searched. -/
theorem loadIfEmpty_reaches (hs : Good A s) :
    ∃ t, loadIfEmpty s = .ok ((), t) ∧ Good A t ∧ t.added = s.added ∧
      ∀ n, (∃ f, t.tabAt n = some f ∧ f.contains (t.frags f.len) b = true) ↔
        Reaches s (firstBytes b n) := by
  obtain ⟨t, ht, hg, hadd, hfr, htab⟩ := loadIfEmpty_ok hs
  refine ⟨t, ht, hg, hadd, fun n => ?_⟩
  unfold Reaches
  rw [length_firstBytes]
  by_cases he : s.cachetab = []
  · rw [if_pos he]
    have htab := htab n
    rw [if_pos he] at htab
    by_cases hn : n ∈ s.files
    · rw [if_pos hn] at htab
      rw [htab]
      simp only [Option.some.injEq, exists_eq_left']
      rw [(hg.tab n _ htab).contains_iff (hg.files n), hfr]
      simp [opened]
    · rw [if_neg hn] at htab
      rw [htab]
      have : s.frags n = [] := by
        unfold FragState.frags
        rw [AList.lookup_eq_none.2 hn]
        rfl
      simp [this, region]
  · rw [if_neg he]
    have htab := htab n
    rw [if_neg he] at htab
    rw [htab]
    refine exists_congr fun f => and_congr_right fun hf => ?_
    have hOK := hs.tab n f hf
    have hm := hOK.mapped
    rw [hOK.named] at hm
    rw [(hg.tab n f (htab.trans hf)).contains_iff (hg.files n), hm, hfr]

theorem searchTab_eq_some {n : ℕ} (hs : Good A s) (h : searchTab s b = some n) :
    ∃ f, s.tabAt n = some f ∧ f.contains (s.frags f.len) b = true := by
  unfold searchTab at h
  obtain ⟨o, ho, h'⟩ := List.exists_of_findSome?_eq_some h
  obtain ⟨f, rfl, h''⟩ := Option.bind_eq_some_iff.1 h'
  split at h''
  · next hc =>
      obtain ⟨m, hm⟩ := mem_cachetab_iff.1 ho
      have hn : m = n := (hs.tab m f hm).named.symm.trans (Option.some.inj h'')
      exact ⟨f, hn ▸ hm, hc⟩
  · cases h''

theorem searchTab_eq_none (h : searchTab s b = none) {n : ℕ} {f : FCFile}
    (hf : s.tabAt n = some f) :
    f.contains (s.frags f.len) b = false := by
  unfold searchTab at h
  have := List.findSome?_eq_none_iff.1 h _ (mem_cachetab_iff.2 ⟨n, hf⟩)
  rw [Option.bind_some] at this
  split at this
  · cases this
  · next hc => exact Bool.eq_false_iff.2 hc

/-- A lookup fails only where it sees no fragment, and what it answers otherwise is the
length of one that it sees. -/
theorem findLength_spec (sha1 : Frag → Frag) (b : Bytes) (junk : ℕ → Frag) (hs : Good A s) :
    ∃ r t, findLength sha1 b junk s = .ok (r, t) ∧ Good A t ∧ t.added = s.added ∧
      ((r = -1 ∧ ∀ n, ¬ Reaches s (firstBytes b n)) ∨
        ∃ n, n + 1 < 2 ^ 32 ∧ r = toInt n ∧ firstBytes b n ∈ A ∧ Reaches s (firstBytes b n)) := by
  obtain ⟨t, ht, hg, hadd, hreach⟩ := loadIfEmpty_reaches hs
  have hle : ∀ n, ¬ 0 < s.hash.lookup sha1 b junk n := fun n =>
    not_lt.2 (hs.hash.lookup_le sha1 b junk n)
  have hrun : findLength sha1 b junk s =
      .ok (((searchTab t b).map toInt).getD (-1), t) := by
    unfold findLength
    rw [get_bind]
    rw [if_neg (hle _), bind_ok ht, get_bind]
    cases searchTab t b <;> rfl
  refine ⟨_, t, hrun, hg, hadd, ?_⟩
  cases h : searchTab t b with
  | none =>
      refine .inl ⟨rfl, fun n hr => ?_⟩
      obtain ⟨f, hf, hc⟩ := (hreach n).2 hr
      rw [searchTab_eq_none h hf] at hc
      cases hc
  | some n =>
      obtain ⟨f, hf, hc⟩ := searchTab_eq_some hg h
      have hOK := hg.tab n f hf
      refine .inr ⟨n, (hg.names n hOK.mem).2, rfl, ?_, (hreach n).1 ⟨f, hf, hc⟩⟩
      rw [hg.stored, length_firstBytes]
      rcases (hOK.contains_iff (hg.files n)).1 hc with hc | hc
      · exact .inl (List.mem_of_mem_take hc)
      · exact .inr ⟨f, hf, hc⟩

theorem History.good (hs : History sha1 s) : Good s.added s := by
  induction hs with
  | init =>
      have htab : ∀ n, FragState.init.tabAt n = none := fun _ => rfl
      have hfr : ∀ n, FragState.init.frags n = [] := fun _ => rfl
      refine ⟨⟨by simp [FragState.init], by simp [FragState.init]⟩, by simp [FragState.init],
        fun n hn => absurd hn (AList.notMem_empty n), fun n => ?_, fun n f hf => ?_, fun g => ?_⟩
      · rw [hfr]
        exact ⟨by simp, by simp [region, Sorted]⟩
      · rw [htab] at hf
        cases hf
      · rw [hfr, htab]
        simp [FragState.init]
  | @step s t op prev hop h ih =>
      cases op with
      | addFragment b len junk =>
          obtain ⟨_, u, h₁, h₂⟩ := bind_eq_ok h
          cases h₂
          exact addFragment_inv (hop b len junk rfl).2 ih h₁
      | findLength b junk =>
          obtain ⟨_, u, h₁, h₂⟩ := bind_eq_ok h
          cases h₂
          obtain ⟨r, t', h₃, hg, hadd, -⟩ := findLength_spec sha1 b junk ih
          rw [h₁] at h₃
          cases h₃
          rw [hadd]
          exact hg
      | reopen =>
          obtain ⟨hg, hadd⟩ := reopen_inv ih h
          rw [hadd]
          exact hg

theorem toInt_eq {n : ℕ} (hn : n < 2 ^ 32) :
    toInt n = if n < 2 ^ 31 then (n : ℤ) else n - 2 ^ 32 := by
  unfold toInt
  rw [BitVec.toInt_eq_toNat_cond, BitVec.toNat_ofNat, Nat.mod_eq_of_lt hn]
  split <;> split <;> omega

/-- What an answer means: a positive one is the length of a fragment that the bytes start
with, and `-1` that there is none. -/
def Answers (s : FragState) (b : Bytes) (r : ℤ) : Prop :=
  (0 < r → ∃ f ∈ s.added, (f.length : ℤ) = r ∧ f = firstBytes b f.length) ∧
    (r = -1 → ∀ f ∈ s.added, f ≠ firstBytes b f.length)

/-- A lookup answers correctly where one of the fragments it should find, if there is any,
is one that it sees. -/
theorem findLength_answers_iff (hs : History sha1 s) (b : Bytes) (junk : ℕ → Frag) :
    (∃ r t, findLength sha1 b junk s = .ok (r, t) ∧ Answers s b r) ↔
      ((∃ f ∈ s.added, f = firstBytes b f.length) →
        ∃ g ∈ s.added, Reaches s g ∧ g = firstBytes b g.length) := by
  obtain ⟨r, t, hrun, -, -, hr⟩ := findLength_spec sha1 b junk hs.good
  constructor
  · rintro ⟨r', t', hrun', -, hnone⟩ ⟨f, hf, hpre⟩
    rw [hrun] at hrun'
    cases hrun'
    rcases hr with ⟨hr, -⟩ | ⟨n, -, -, hmem, hreach⟩
    · exact absurd hpre (hnone hr f hf)
    · exact ⟨_, hmem, hreach, by rw [length_firstBytes]⟩
  · intro hcond
    refine ⟨r, t, hrun, fun hpos => ?_, fun hr1 f hf hpre => ?_⟩
    · rcases hr with ⟨rfl, -⟩ | ⟨n, hn, rfl, hmem, -⟩
      · omega
      · refine ⟨_, hmem, ?_, by rw [length_firstBytes]⟩
        rw [toInt_eq (by omega)] at hpos ⊢
        rw [length_firstBytes]
        split at hpos <;> omega
    · rcases hr with ⟨-, hno⟩ | ⟨n, hn, hrn, -, -⟩
      · obtain ⟨g, -, hreach, hg⟩ := hcond ⟨f, hf, hpre⟩
        rw [hg] at hreach
        exact hno _ hreach
      · rw [toInt_eq (by omega)] at hrn
        split at hrn <;> omega

def FragOp.execAll (sha1 : Frag → Frag) : List FragOp → FragM Unit
  | [] => pure ()
  | op :: ops => do
      op.exec sha1
      execAll sha1 ops

theorem History.of_execAll {ops : List FragOp} (hs : History sha1 s)
    (hops : ∀ op ∈ ops, ∀ b len junk, op = .addFragment b len junk → 1 ≤ len ∧ len < 2 ^ 32)
    (h : FragOp.execAll sha1 ops s = .ok ((), t)) : History sha1 t := by
  induction ops generalizing s with
  | nil =>
      cases h
      exact hs
  | cons op ops ih =>
      obtain ⟨_, u, h₁, h₂⟩ := bind_eq_ok h
      exact ih (hs.step (hops op (by simp)) h₁) (fun o ho => hops o (by simp [ho])) h₂

/-- A state that some operations on an empty directory lead to. -/
theorem exists_history (sha1 : Frag → Frag) (ops : List FragOp) (P : FragState → Bool)
    (hops : ∀ op ∈ ops, ∀ b len junk, op = .addFragment b len junk → 1 ≤ len ∧ len < 2 ^ 32)
    (h : (match FragOp.execAll sha1 ops .init with
      | .ok (_, s) => P s
      | .error _ => false) = true) : ∃ s, History sha1 s ∧ P s = true := by
  cases he : FragOp.execAll sha1 ops .init with
  | error e => rw [he] at h; cases h
  | ok q =>
      rw [he] at h
      exact ⟨q.2, History.init.of_execAll hops he, h⟩

end Runs

/-- A digest of twenty bytes without collisions among the first bytes at an address. -/
def plainDigest (f : Frag) : Frag :=
  [BitVec.ofNat 8 f.length, BitVec.ofNat 8 (f.length / 256)] ++ (f ++ List.replicate 18 0).take 18

def zeroJunk : ℕ → Frag := fun _ => [0, 0]

def sevenBytes : Bytes := fun i => if i = 0 then 7 else 0

theorem findLength_answers_seven : ∃ s, History plainDigest s ∧ s.added = [[7]] ∧
    ∃ r t, findLength plainDigest sevenBytes zeroJunk s = .ok (r, t) ∧ Answers s sevenBytes r := by
  obtain ⟨s, hs, hP⟩ := exists_history plainDigest [.addFragment sevenBytes 1 zeroJunk]
    (fun s => decide (s.added = [[7]]) && decide (s.cachetab.length = 2) &&
      (s.tabAt 1).any fun f : FCFile => decide ([7] ∈ f.buffer))
    (by simp) (by decide +kernel)
  simp only [Bool.and_eq_true, decide_eq_true_eq, Option.any_eq_true] at hP
  obtain ⟨⟨hadd, hlen⟩, f, hf, hbuf⟩ := hP
  refine ⟨s, hs, hadd, (findLength_answers_iff hs sevenBytes zeroJunk).2 fun _ => ?_⟩
  refine ⟨[7], by simp [hadd], ?_, rfl⟩
  unfold Reaches
  rw [if_neg (by rintro h; simp [h] at hlen)]
  exact ⟨f, hf, .inr hbuf⟩

/-- The file from the session before is not loaded, because one of this session is. -/
theorem findLength_not_answers : ¬∀ s, History plainDigest s → ∀ b junk r t,
    findLength plainDigest b junk s = .ok (r, t) → Answers s b r := by
  intro hall
  obtain ⟨s, hs, hP⟩ := exists_history plainDigest
    [.addFragment sevenBytes 1 zeroJunk, .reopen, .addFragment (fun _ => 9) 2 zeroJunk]
    (fun s => decide ([7] ∈ s.added) && match findLength plainDigest sevenBytes zeroJunk s with
      | .ok (r, _) => decide (r = -1)
      | .error _ => false)
    (by simp) (by decide +kernel)
  rw [Bool.and_eq_true, decide_eq_true_eq] at hP
  cases hf : findLength plainDigest sevenBytes zeroJunk s with
  | error e => simp [hf] at hP
  | ok q =>
      rw [hf] at hP
      exact (hall s hs _ _ _ _ hf).2 (of_decide_eq_true hP.2) [7] hP.1 rfl

end FragCache

end VexLLVM
