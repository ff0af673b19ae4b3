import VexLLVM.Frag.Answers

/-!
# A file of fragments is a set

The fragments of one length: a sorted file and a buffer. Below four gigabytes the whole
file is mapped, and the two together are the set of the fragments that were added. The
file is sorted when it is written, so that it needs no sorting when it is opened.
-/

namespace VexLLVM

open StateExcept Search

namespace FragCache

def FCFile.add (f : FCFile) (b : Bytes) : FragM FCFile := do
  let s ← get
  if f.contains (s.frags f.len) b then throw "!contains(guest_bytes)"
  else do
    let f' : FCFile := { f with buffer := f.buffer ++ [firstBytes b f.len] }
    if FLUSH_FCF_TRIGGER < f'.buffer.length then flushFile f' else pure f'

/-- The objects for one file that was empty at first, and the strings that were added. An
object that is destroyed is written, and the file stays below four gigabytes. -/
inductive FileRun (len : ℕ) : FCFile → FragState → List Frag → Prop where
  | create {f : FCFile} {s t : FragState} (hempty : s.frags len = []) (hopen : openFile len s = .ok (f, t)) :
      FileRun len f t []
  | add {f f' : FCFile} {s t : FragState} {A : List Frag} {b : Bytes} (prev : FileRun len f s A)
      (habsent : firstBytes b len ∉ A) (hadd : f.add b s = .ok (f', t))
      (hfits : len * (t.frags len).length < 2 ^ 32) : FileRun len f' t (firstBytes b len :: A)
  | flush {f f' : FCFile} {s t : FragState} {A : List Frag} (prev : FileRun len f s A)
      (hflush : flushFile f s = .ok (f', t)) (hfits : len * (t.frags len).length < 2 ^ 32) :
      FileRun len f' t A
  | reopen {f f₁ f' : FCFile} {s s₁ t : FragState} {A : List Frag} (prev : FileRun len f s A)
      (hflush : flushFile f s = .ok (f₁, s₁)) (hopen : openFile len s₁ = .ok (f', t))
      (hfits : len * (t.frags len).length < 2 ^ 32) : FileRun len f' t A

structure Stores (len : ℕ) (f : FCFile) (s : FragState) (A : List Frag) : Prop where
  pos : 1 ≤ len
  fits : len * (s.frags len).length < 2 ^ 32
  tab : TabOK s len f
  file : FileOK len (s.frags len)
  nodup : (s.frags len ++ f.buffer).Nodup
  stored : ∀ g, g ∈ A ↔ g ∈ s.frags len ∨ g ∈ f.buffer

/-- A file below four gigabytes is mapped whole. -/
theorem region_of_fits {len : ℕ} {l : List Frag} (hpos : 1 ≤ len)
    (hfits : len * l.length < 2 ^ 32) :
    region len l = l := by
  unfold region mmapSize
  rw [Nat.mod_eq_of_lt hfits, Nat.mul_div_cancel_left _ hpos, List.take_length]

section Steps

variable {len : ℕ} {f f' : FCFile} {s t : FragState} {A : List Frag} {b : Bytes}

theorem openFile_inv (h : openFile len s = .ok (f, t)) :
    1 ≤ len ∧ f = opened s len ∧ t = withFile s len (s.frags len) := by
  unfold openFile at h
  rw [get_bind] at h
  split at h
  · cases h
  · next h0 =>
      cases h
      exact ⟨Nat.pos_of_ne_zero h0, rfl, rfl⟩

theorem flushFile_ok (f : FCFile) (s : FragState) : ∃ f' t, flushFile f s = .ok (f', t) := by
  unfold flushFile
  split
  · exact ⟨_, _, rfl⟩
  · exact ⟨_, _, rfl⟩

/-- A flush moves the buffer to the file. -/
theorem flushFile_perm (h : flushFile f s = .ok (f', t)) :
    (t.frags f.len).Perm (s.frags f.len ++ f.buffer) := by
  unfold flushFile at h
  split at h
  · next hb =>
      cases h
      rw [hb, List.append_nil]
  · have ht : t = withFile s f.len (sortedFile f.len (s.frags f.len ++ f.buffer)) := by
      cases h
      rfl
    rw [ht, withFile_frags, if_pos rfl]
    exact sortedFile_perm _ _

namespace Stores

theorem contains_iff (h : Stores len f s A) :
    f.contains (s.frags f.len) b = true ↔ firstBytes b len ∈ A := by
  rw [h.tab.contains_iff h.file, region_of_fits h.pos h.fits, h.stored]

/-- A file that was just opened holds what it held before. -/
theorem opened (hs : (s.frags len).Nodup) (hfile : FileOK len (s.frags len))
    (hopen : openFile len s = .ok (f, t)) (hfits : len * (t.frags len).length < 2 ^ 32) :
    Stores len f t (s.frags len) := by
  obtain ⟨hpos, rfl, rfl⟩ := openFile_inv hopen
  have hfr : (withFile s len (s.frags len)).frags len = s.frags len := by
    rw [withFile_frags, if_pos rfl]
  rw [hfr] at hfits
  refine ⟨hpos, by rw [hfr]; exact hfits,
    ⟨rfl, ?_, by rw [hfr]; rfl, ?_⟩, by rw [hfr]; exact hfile, ?_,
    fun g => ?_⟩
  · exact (AList.mem_insert _).2 (.inl rfl)
  · exact fun g hg => absurd hg List.not_mem_nil
  · rw [hfr]
    exact (List.append_nil _).symm ▸ hs
  · rw [hfr]
    exact (or_iff_left List.not_mem_nil).symm

theorem congr {B : List Frag} (h : Stores len f s A) (hAB : ∀ g, g ∈ B ↔ g ∈ A) :
    Stores len f s B :=
  ⟨h.pos, h.fits, h.tab, h.file, h.nodup, fun g => (hAB g).trans (h.stored g)⟩

/-- A string that is absent goes to the buffer. -/
theorem push (h : Stores len f s A) (habsent : firstBytes b len ∉ A) :
    Stores len (f.push (firstBytes b len)) s (firstBytes b len :: A) := by
  refine ⟨h.pos, h.fits, ⟨h.tab.named, h.tab.mem, h.tab.size, fun g hg => ?_⟩, h.file, ?_,
    fun g => ?_⟩
  · rcases List.mem_append.1 hg with hg | hg
    · exact h.tab.buffer g hg
    · rw [List.mem_singleton.1 hg, length_firstBytes]
  · change (s.frags len ++ (f.buffer ++ [firstBytes b len])).Nodup
    rw [← List.append_assoc, ← List.concat_eq_append]
    refine h.nodup.concat fun hmem => ?_
    exact habsent ((h.stored _).2 (List.mem_append.1 hmem))
  · change _ ↔ g ∈ s.frags len ∨ g ∈ f.buffer ++ [firstBytes b len]
    rw [List.mem_cons, h.stored, List.mem_append, List.mem_singleton]
    tauto

theorem flush (h : Stores len f s A) (hflush : flushFile f s = .ok (f', t))
    (hfits : len * (t.frags len).length < 2 ^ 32) : Stores len f' t A ∧ f'.buffer = [] := by
  obtain rfl := h.tab.named
  have hfl := flushFile_inv h.file h.tab.mem h.tab.buffer hflush
  have hbuf := hfl.buffer
  refine ⟨⟨h.pos, hfits, ⟨hfl.named, (hfl.files _).2 h.tab.mem,
    hfl.size h.tab.size, by simp [hbuf]⟩, hfl.file,
    ?_, fun g => ?_⟩, hbuf⟩
  · rw [hbuf, List.append_nil, (flushFile_perm hflush).nodup_iff]
    exact h.nodup
  · rw [h.stored, hfl.mem, hbuf]
    exact (or_iff_left List.not_mem_nil).symm

/-- `add` accepts a string that is absent. -/
theorem add_eq (h : Stores len f s A) (habsent : firstBytes b len ∉ A) : f.add b s =
    if FLUSH_FCF_TRIGGER < (f.push (firstBytes b len)).buffer.length then flushFile
      (f.push (firstBytes b len)) s
    else .ok (f.push (firstBytes b len), s) := by
  have hc : ¬ f.contains (s.frags f.len) b = true := fun hc => habsent (h.contains_iff.1 hc)
  have hn := h.tab.named
  unfold FCFile.add
  rw [get_bind, if_neg hc, hn]
  dsimp only
  unfold FCFile.push
  rw [hn]
  split <;> rfl

theorem add (h : Stores len f s A) (habsent : firstBytes b len ∉ A) (hadd : f.add b s = .ok (f', t))
    (hfits : len * (t.frags len).length < 2 ^ 32) : Stores len f' t (firstBytes b len :: A) := by
  rw [h.add_eq habsent] at hadd
  split at hadd
  · exact ((h.push habsent).flush hadd hfits).1
  · cases hadd
    exact h.push habsent

end Stores

theorem FileRun.stores (hr : FileRun len f s A) : Stores len f s A := by
  induction hr with
  | create hempty hopen =>
      have ht := (openFile_inv hopen).2.2
      have hlen : ∀ u : FragState, u.frags len = [] →
        (withFile u len (u.frags len)).frags len = [] :=
        fun u hu => by rw [withFile_frags, if_pos rfl, hu]
      have := Stores.opened (by rw [hempty]; exact List.nodup_nil)
        (by rw [hempty]; exact ⟨by simp, by simp [region, Sorted]⟩) hopen
        (by rw [ht, hlen _ hempty]; exact Nat.two_pow_pos 32)
      rwa [hempty] at this
  | add _ habsent hadd hfits ih => exact ih.add habsent hadd hfits
  | flush _ hflush hfits ih => exact (ih.flush hflush hfits).1
  | @reopen f f₁ f' s s₁ t A _ hflush hopen hfits ih =>
      have hfr : t.frags len = s₁.frags len := by
        rw [(openFile_inv hopen).2.2, withFile_frags, if_pos rfl]
      obtain ⟨h₁, hbuf⟩ := ih.flush hflush (by rw [← hfr]; exact hfits)
      have hnodup := h₁.nodup
      rw [hbuf, List.append_nil] at hnodup
      refine (Stores.opened hnodup h₁.file hopen hfits).congr fun g => ?_
      rw [h₁.stored, hbuf]
      exact or_iff_left List.not_mem_nil

end Steps

/-- An object and its file are the set of the strings that were added. -/
structure FileSet (len : ℕ) (f : FCFile) (s : FragState) (A : List Frag) : Prop where
  contains : ∀ b, f.contains (s.frags len) b = true ↔ firstBytes b len ∈ A
  sorted : Sorted memKey (s.frags len)
  nodup : (s.frags len).Nodup
  disjoint : List.Disjoint (s.frags len) f.buffer
  multiple : len ∣ (s.frags len).flatten.length
  accepts : ∀ b, firstBytes b len ∉ A → ∃ f' t, f.add b s = .ok (f', t)

theorem length_flatten_of_length {len : ℕ} {l : List Frag} (h : ∀ g ∈ l, g.length = len) :
    l.flatten.length = l.length * len := by
  rw [List.length_flatten, List.map_congr_left h, List.map_const', List.sum_replicate_nat]

theorem fileRun_set {len : ℕ} {f : FCFile} {s : FragState} {A : List Frag} (hr : FileRun len f s A) :
    FileSet len f s A := by
  have hs := hr.stores
  have hcontains := fun b : Bytes => hs.contains_iff (b := b)
  rw [hs.tab.named] at hcontains
  have hsorted := hs.file.sorted
  rw [region_of_fits hs.pos hs.fits] at hsorted
  have hnodup := List.nodup_append'.1 hs.nodup
  refine ⟨hcontains, hsorted, hnodup.1, hnodup.2.2, ?_, fun b habsent => ?_⟩
  · rw [length_flatten_of_length hs.file.length]
    exact Dvd.intro_left _ rfl
  · rw [hs.add_eq habsent]
    split
    · exact flushFile_ok _ _
    · exact ⟨_, _, rfl⟩

/-- A string is found after the file is closed and opened again. -/
theorem fileRun_set_seven : ∃ f s, FileRun 1 f s [[7]] ∧ FileSet 1 f s [[7]] := by
  have h₀ : FileRun 1 ⟨1, 0, []⟩ ⟨(∅ : AList _).insert 1 [], ⟨[], 0, []⟩, [], []⟩ [] :=
    .create (s := .init) rfl rfl
  have h₁ : FileRun 1 ⟨1, 0, [[7]]⟩ ⟨(∅ : AList _).insert 1 [], ⟨[], 0, []⟩, [], []⟩ [[7]] :=
    @FileRun.add 1 _ _ _ _ _ sevenBytes h₀ (by simp) rfl (by decide)
  have h₂ : FileRun 1 (opened _ 1) _ [[7]] := .reopen h₁ rfl rfl (by decide)
  exact ⟨_, _, h₂, fileRun_set h₂⟩

end FragCache

end VexLLVM
