import VexLLVM.Elf.ElfCore
import Mathlib.Algebra.BigOperators.Group.List.Basic
import Mathlib.Algebra.Order.BigOperators.Group.List
import Mathlib.Algebra.Order.Ring.Nat

/-!
# The layout of a core file

Every byte of the data comes from a guest address, which `sourceAt` computes. The
headers are right when all mappings before the last one end at a page boundary and
everything fits in 32 bits. Where the pages of the mappings are disjoint, they are not
right otherwise.
-/

namespace VexLLVM

/-- Rows of equal length, one after the other. -/
theorem flatMap_range_map {α : Type} (n k : ℕ) (f : ℕ → ℕ → α) :
    ((List.range n).flatMap fun i => (List.range k).map (f i)) =
      (List.range (n * k)).map fun t => f (t / k) (t % k) := by
  induction n with
  | zero => simp
  | succ n ih =>
      rw [List.range_succ, List.flatMap_append, ih, Nat.succ_mul, List.range_add, List.map_append]
      refine congrArg _ ?_
      simp only [List.flatMap_cons, List.flatMap_nil, List.append_nil, List.map_map]
      refine List.map_congr_left fun t ht => ?_
      have ht : t < k := List.mem_range.1 ht
      have hk : 0 < k := Nat.zero_lt_of_lt ht
      simp [Nat.mul_comm n k, Nat.mul_add_div hk, Nat.div_eq_of_lt ht, Nat.mod_eq_of_lt ht]

namespace ElfImg

/-- The address that byte `t` of the data of a mapping is read from. -/
def source (gm : Mapping) (t : ℕ) : GuestPtr := gm.offset + BitVec.ofNat 64 (t % 2 ^ 32)

theorem source_of_lt {gm : Mapping} {t : ℕ} (h : t < 2 ^ 32) :
    source gm t = gm.offset + BitVec.ofNat 64 t := by
  rw [source, Nat.mod_eq_of_lt h]

theorem writeMap_eq (mem : GuestPtr → Byte) (gm : Mapping) :
    writeMap mem gm = if pages gm < 2 ^ 32 then
      some ((List.range (pages gm * 4096)).map fun t => mem (source gm t)) else none := by
  unfold writeMap page
  rw [flatMap_range_map]
  refine if_congr Iff.rfl (congrArg some (List.map_congr_left fun t _ => congrArg mem ?_)) rfl
  unfold source
  rw [BitVec.add_assoc]
  congr 1
  apply BitVec.eq_of_toNat_eq
  have h4096 : (4096 : BitVec 32).toNat = 4096 := rfl
  simp only [BitVec.toNat_add, BitVec.toNat_setWidth, BitVec.toNat_mul, BitVec.toNat_ofNat, h4096]
  omega

def sourceAt : List Mapping → ℕ → Option GuestPtr
  | [], _ => none
  | gm :: gms, t =>
      if t < pages gm * 4096 then some (source gm t) else sourceAt gms (t - pages gm * 4096)

def dataSum (maps : List Mapping) : ℕ := (maps.map fun gm => pages gm * 4096).sum

/-- The sum of the lengths of some mappings, as the headers have it. -/
def lenSum (maps : List Mapping) : BitVec 32 := (maps.map fun gm => gm.length.setWidth 32).sum

section Data

variable {mem : GuestPtr → Byte} {maps pre post : List Mapping} {gm : Mapping} {t : ℕ}

theorem writeMaps_eq_some (mem : GuestPtr → Byte) :
    (∀ gm ∈ maps, pages gm < 2 ^ 32) ↔ ∃ data, writeMaps mem maps = some data := by
  induction maps with
  | nil => exact ⟨fun _ => ⟨[], rfl⟩, fun _ gm h => by cases h⟩
  | cons gm gms ih =>
      rw [List.forall_mem_cons, ih, writeMaps, writeMap_eq]
      by_cases hp : pages gm < 2 ^ 32
      · rw [if_pos hp]
        cases writeMaps mem gms with
        | none =>
            constructor
            · rintro ⟨-, data, h⟩
              cases h
            · rintro ⟨data, h⟩
              cases h
        | some bs => exact ⟨fun _ => ⟨_, rfl⟩, fun _ => ⟨hp, bs, rfl⟩⟩
      · rw [if_neg hp]
        refine ⟨fun h => absurd h.1 hp, ?_⟩
        rintro ⟨data, h⟩
        cases h

theorem getElem?_writeMaps {data : List Byte} (h : writeMaps mem maps = some data) :
    data[t]? = (sourceAt maps t).map mem := by
  induction maps generalizing data t with
  | nil =>
      cases h
      rfl
  | cons gm gms ih =>
      rw [writeMaps, writeMap_eq] at h
      by_cases hp : pages gm < 2 ^ 32
      · rw [if_pos hp] at h
        cases hw : writeMaps mem gms with
        | none => rw [hw] at h; cases h
        | some bs =>
            rw [hw] at h
            cases h
            rw [List.getElem?_append, sourceAt, List.length_map, List.length_range]
            split
            · next ht => simp [List.getElem?_range ht]
            · exact ih hw
      · rw [if_neg hp] at h
        cases h

theorem sourceAt_append (ht : t < pages gm * 4096) :
    sourceAt (pre ++ gm :: post) (dataSum pre + t) = some (source gm t) := by
  induction pre with
  | nil => simp [sourceAt, dataSum, ht]
  | cons g gs ih =>
      have hs : dataSum (g :: gs) = pages g * 4096 + dataSum gs := by simp [dataSum]
      rw [List.cons_append, sourceAt, if_neg (by omega), hs,
        show pages g * 4096 + dataSum gs + t - pages g * 4096 = dataSum gs + t by omega]
      exact ih

/-- Where a byte is read from. -/
theorem sourceAt_eq_some {a : GuestPtr} (h : sourceAt maps t = some a) :
    ∃ pre gm post t', maps = pre ++ gm :: post ∧ t = dataSum pre + t' ∧ t' < pages gm * 4096 ∧
      a = source gm t' := by
  induction maps generalizing t with
  | nil => cases h
  | cons g gs ih =>
      rw [sourceAt] at h
      split at h
      · next ht => exact ⟨[], g, gs, t, rfl, by simp [dataSum], ht, by cases h; rfl⟩
      · next ht =>
          obtain ⟨pre, gm, post, t', rfl, hts, ht', ha⟩ := ih h
          refine ⟨g :: pre, gm, post, t', rfl, ?_, ht', ha⟩
          have hs : dataSum (g :: pre) = pages g * 4096 + dataSum pre := by simp [dataSum]
          omega

/-- The headers of the mappings. -/
theorem mem_loadPhdrs {all : List Mapping} {s : BitVec 32} {ph : Phdr} :
    ph ∈ loadPhdrs all s maps ↔
      ∃ pre gm post, maps = pre ++ gm :: post ∧ ph = loadPhdr all (s + lenSum pre) gm := by
  induction maps generalizing s with
  | nil =>
      refine ⟨fun h => (List.not_mem_nil h).elim, ?_⟩
      rintro ⟨pre, gm, post, h, -⟩
      exact absurd h (by simp)
  | cons g gs ih =>
      rw [loadPhdrs, List.mem_cons, ih]
      constructor
      · rintro (rfl | ⟨pre, gm, post, rfl, rfl⟩)
        · exact ⟨[], g, gs, rfl, by simp [lenSum]⟩
        · refine ⟨g :: pre, gm, post, rfl, ?_⟩
          simp only [lenSum, List.map_cons, List.sum_cons]
          rw [BitVec.add_assoc]
      · rintro ⟨pre, gm, post, h, rfl⟩
        cases pre with
        | nil =>
            cases h
            exact .inl (by simp [lenSum])
        | cons p pre =>
            obtain ⟨rfl, rfl⟩ := List.cons.inj h
            refine .inr ⟨pre, gm, post, rfl, ?_⟩
            simp only [lenSum, List.map_cons, List.sum_cons]
            rw [BitVec.add_assoc]

theorem length_loadPhdrs (all : List Mapping) (s : BitVec 32) :
    (loadPhdrs all s maps).length = maps.length := by
  induction maps generalizing s with
  | nil => rfl
  | cons g gs ih => simp [loadPhdrs, ih]

/-- A sum of lengths that fits in 32 bits. -/
theorem toNat_lenSum : (lenSum maps).toNat = (maps.map fun gm => gm.length.toNat).sum % 2 ^ 32 := by
  induction maps with
  | nil => rfl
  | cons g gs ih =>
      simp only [lenSum, List.map_cons, List.sum_cons] at ih ⊢
      rw [BitVec.toNat_add, ih, BitVec.toNat_setWidth, ← Nat.add_mod]

end Data

section Front

variable (maps : List Mapping) (notes : Notes)

@[simp] theorem length_phdr_bytes (h : Phdr) : h.bytes.length = sizeofPhdr := by
  simp [Phdr.bytes, sizeofPhdr]

theorem length_headers : (headers maps).length = sizeofEhdr + (maps.length + 1) * sizeofPhdr := by
  have hl : ∀ l : List Phdr, (l.flatMap Phdr.bytes).length = l.length * sizeofPhdr := by
    intro l
    induction l with
    | nil => simp
    | cons p l ih => simp [ih, Nat.add_mul, Nat.add_comm]
  rw [headers, List.length_append, List.length_append, hl, length_loadPhdrs, length_phdr_bytes,
    Nat.add_mul, Nat.one_mul, Nat.add_assoc, Nat.add_comm sizeofPhdr]
  simp [Ehdr.bytes, ehdr, sizeofEhdr]

theorem length_noteBytes : (noteBytes notes).length = 1044 := by
  simp [noteBytes, writeNote, notes.prs_length, notes.prps_length, notes.fpr_length]

theorem length_front :
    (front maps notes).length = sizeofEhdr + (maps.length + 1) * sizeofPhdr + 1044 +
      (slack maps).toNat := by
  rw [front, List.length_append, List.length_append, length_headers, length_noteBytes,
    List.length_replicate]

theorem toNat_note_off :
    (note_off maps).toNat = sizeofEhdr + (maps.length + 1) % 2 ^ 16 * sizeofPhdr := by
  simp only [note_off, ehdr, e_phnum, sizeofEhdr, sizeofPhdr, BitVec.toNat_setWidth,
    BitVec.toNat_add, BitVec.toNat_mul, BitVec.toNat_ofNat]
  have : (maps.length + 1) % 2 ^ 16 < 2 ^ 16 := Nat.mod_lt _ (by decide)
  omega

theorem toNat_note_sz : note_sz.toNat = 1044 := rfl

theorem toNat_notePhdr_offset : (notePhdr maps).p_offset.toNat = (note_off maps).toNat := by
  have h : (note_off maps).toNat < 2 ^ 32 := (note_off maps).isLt
  change ((note_off maps).setWidth 64).toNat = _
  rw [BitVec.toNat_setWidth]
  omega

/-- The header of the notes is right as long as the number of headers fits. -/
theorem note_offset_iff :
    (notePhdr maps).p_offset.toNat = (headers maps).length ↔ maps.length + 1 < 2 ^ 16 := by
  rw [length_headers, toNat_notePhdr_offset, toNat_note_off]
  have : (maps.length + 1) % 2 ^ 16 < 2 ^ 16 := Nat.mod_lt _ (Nat.two_pow_pos 16)
  unfold sizeofPhdr
  omega

variable {maps}

/-- Rounding up to a page. -/
theorem toNat_add_slack (x : BitVec 32) (h : x.toNat + 0xfff < 2 ^ 32) :
    (x + (0x1000 * ((x + 0xfff) / 0x1000) - x)).toNat =
      x.toNat + (0x1000 * ((x + 0xfff) / 0x1000) - x).toNat := by
  have h₁ : (0x1000 : BitVec 32).toNat = 4096 := rfl
  have h₂ : (0xfff : BitVec 32).toNat = 4095 := rfl
  simp only [BitVec.toNat_add, BitVec.toNat_sub, BitVec.toNat_mul, BitVec.toNat_udiv, h₁, h₂]
  omega

/-- The data starts where the offsets of the headers start. -/
theorem toNat_load_off (h : maps.length + 1 < 2 ^ 16) :
    (load_off maps).toNat = (front maps notes).length := by
  have hn := toNat_note_off maps
  rw [Nat.mod_eq_of_lt h] at hn
  have hs : (note_off maps + note_sz).toNat = (note_off maps).toNat + 1044 := by
    rw [BitVec.toNat_add, toNat_note_sz, hn]
    unfold sizeofEhdr sizeofPhdr
    omega
  have hr : (note_off maps + note_sz).toNat + 0xfff < 2 ^ 32 := by
    rw [hs, hn]
    unfold sizeofEhdr sizeofPhdr
    omega
  rw [length_front, load_off, slack, toNat_add_slack _ hr, hs, hn]

end Front

/-- The address is in the mapping, when the mapping is extended to a page boundary. -/
def Covers (gm : Mapping) (a : GuestPtr) : Prop :=
  ∃ t < (gm.length.toNat + 4095) / 4096 * 4096, a = gm.offset + BitVec.ofNat 64 t

def PageDisjoint (maps : List Mapping) : Prop :=
  maps.Pairwise fun g h => ∀ a, ¬(Covers g a ∧ Covers h a)

/-- The layouts that are right: the number of headers fits in 16 bits, and what lies
before a mapping with contents ends at page boundaries, with offsets in 32 bits. -/
structure LayoutOK (maps : List Mapping) : Prop where
  phnum : maps.length + 1 < 2 ^ 16
  loads : ∀ pre gm post, maps = pre ++ gm :: post → gm.length ≠ 0 →
    (∀ g ∈ pre, 4096 ∣ g.length.toNat) ∧
      (load_off maps).toNat + (pre.map fun g => g.length.toNat).sum < 2 ^ 32 ∧
      gm.length.toNat ≤ 2 ^ 32

section Layout

variable {maps pre post : List Mapping} {gm : Mapping} {mem : GuestPtr → Byte} {notes : Notes}

theorem pages_eq (h : gm.length.toNat ≤ 2 ^ 64 - 4096) :
    pages gm = (gm.length.toNat + 4095) / 4096 := by
  have h₁ : (4096 : BitVec 64).toNat = 4096 := rfl
  have h₂ : (4095 : BitVec 64).toNat = 4095 := rfl
  rw [pages, BitVec.toNat_udiv, BitVec.toNat_add, h₁, h₂]
  omega

theorem pages_le : pages gm ≤ (gm.length.toNat + 4095) / 4096 := by
  have h₁ : (4096 : BitVec 64).toNat = 4096 := rfl
  have h₂ : (4095 : BitVec 64).toNat = 4095 := rfl
  rw [pages, BitVec.toNat_udiv, BitVec.toNat_add, h₁, h₂]
  omega

/-- A mapping for which a page is written is written up to its end. -/
theorem length_le_of_pages (h : 1 ≤ pages gm) : gm.length.toNat ≤ pages gm * 4096 := by
  have h₁ : (4096 : BitVec 64).toNat = 4096 := rfl
  have h₂ : (4095 : BitVec 64).toNat = 4095 := rfl
  have := gm.length.isLt
  rw [pages, BitVec.toNat_udiv, BitVec.toNat_add, h₁, h₂] at h ⊢
  omega

/-- Mappings that end at page boundaries take no more room than their length. -/
theorem dataSum_eq (h : ∀ g ∈ pre, 4096 ∣ g.length.toNat) :
    dataSum pre = (pre.map fun g => g.length.toNat).sum := by
  unfold dataSum
  congr 1
  refine List.map_congr_left fun g hg => ?_
  have := g.length.isLt
  obtain ⟨k, hk⟩ := h g hg
  rw [pages_eq (by omega)]
  omega

/-- The bytes of the stream, by their addresses. -/
theorem getElem?_stream {stream : List Byte} (h : writeElfCore maps mem notes = some stream)
    (t : ℕ) : stream[(front maps notes).length + t]? = (sourceAt maps t).map mem := by
  unfold writeElfCore at h
  cases hw : writeMaps mem maps with
  | none => rw [hw] at h; cases h
  | some data =>
      rw [hw, Option.map_some] at h
      rw [← Option.some.inj h, List.getElem?_append_right (Nat.le_add_right _ _),
        Nat.add_sub_cancel_left]
      exact getElem?_writeMaps hw

theorem getElem?_stream_front {stream : List Byte} (h : writeElfCore maps mem notes = some stream)
    {t : ℕ} (ht : t < (front maps notes).length) : stream[t]? = (front maps notes)[t]? := by
  unfold writeElfCore at h
  cases hw : writeMaps mem maps with
  | none => rw [hw] at h; cases h
  | some data =>
      rw [hw, Option.map_some] at h
      rw [← Option.some.inj h]
      exact List.getElem?_append_left ht

/-- A core file with such a layout is right, whatever the memory holds. -/
theorem coreConsistent_of_layoutOK (h : LayoutOK maps) (mem : GuestPtr → Byte) (notes : Notes) :
    CoreConsistent maps mem notes := by
  have hpages : ∀ gm ∈ maps, pages gm < 2 ^ 32 := by
    intro gm hgm
    obtain ⟨pre, post, rfl⟩ := List.append_of_mem hgm
    by_cases h0 : gm.length = 0
    · rw [pages, h0]
      decide
    · obtain ⟨-, -, hl⟩ := h.loads pre gm post rfl h0
      exact lt_of_le_of_lt pages_le (by omega)
  obtain ⟨data, hdata⟩ := (writeMaps_eq_some mem).1 hpages
  have hstream : writeElfCore maps mem notes = some (front maps notes ++ data) := by
    rw [writeElfCore, hdata]
    rfl
  refine ⟨_, hstream, (note_offset_iff maps).2 h.phnum, ?_, fun ph hph j hj => ?_⟩
  · rw [length_noteBytes]
    rfl
  · obtain ⟨pre, gm, post, hm, rfl⟩ := mem_loadPhdrs.1 hph
    have hsum : 0 + lenSum pre = lenSum pre := BitVec.zero_add _
    rw [hsum] at hj ⊢
    have hj : j < gm.length.toNat := hj
    have h0 : gm.length ≠ 0 := by
      rintro h0
      rw [h0] at hj
      exact absurd hj (Nat.not_lt_zero _)
    obtain ⟨hdvd, hfit, hlen⟩ := h.loads pre gm post hm h0
    have hoff : (loadPhdr maps (lenSum pre) gm).p_offset.toNat =
        (front maps notes).length + dataSum pre := by
      change ((load_off maps + lenSum pre).setWidth 64).toNat = _
      rw [BitVec.toNat_setWidth, BitVec.toNat_add, toNat_lenSum, dataSum_eq hdvd,
        ← toNat_load_off notes h.phnum]
      omega
    have hp : pages gm = (gm.length.toNat + 4095) / 4096 := pages_eq (by omega)
    have hsrc : sourceAt maps (dataSum pre + j) = some (source gm j) := by
      rw [hm]
      exact sourceAt_append (by omega)
    rw [hoff, Nat.add_assoc, getElem?_stream hstream, hsrc, source_of_lt (by omega)]
    rfl

/-- A byte of the stream that follows a byte of memory was read from it. -/
theorem sourceAt_of_forall {pos : ℕ} {a : GuestPtr}
    (h : ∀ mem, ∃ stream, writeElfCore maps mem notes = some stream ∧ stream[pos]? = some (mem a)) :
    ∃ t, pos = (front maps notes).length + t ∧ sourceAt maps t = some a := by
  -- Memory that is zero everywhere, and memory that is zero everywhere but at `a`.
  obtain ⟨s₀, hs₀, h₀⟩ := h fun _ => 0
  obtain ⟨s₁, hs₁, h₁⟩ := h fun b => if b = a then 1 else 0
  rw [if_pos rfl] at h₁
  by_cases hpos : pos < (front maps notes).length
  · rw [getElem?_stream_front hs₀ hpos] at h₀
    rw [getElem?_stream_front hs₁ hpos, h₀] at h₁
    exact absurd h₁ (by decide)
  · refine ⟨pos - (front maps notes).length, by omega, ?_⟩
    obtain ⟨t, rfl⟩ : ∃ t, pos = (front maps notes).length + t :=
      ⟨pos - (front maps notes).length, by omega⟩
    rw [Nat.add_sub_cancel_left]
    rw [getElem?_stream hs₁] at h₁
    cases hs : sourceAt maps t with
    | none => rw [hs] at h₁; cases h₁
    | some b =>
        rw [hs] at h₁
        by_cases hb : b = a
        · rw [hb]
        · simp [hb] at h₁

/-- Two mappings of a list that share an address are the same one. -/
theorem PageDisjoint.unique {pre' post' : List Mapping} {gm' : Mapping} {a : GuestPtr}
    (hd : PageDisjoint maps) (h : maps = pre ++ gm :: post) (h' : maps = pre' ++ gm' :: post')
    (ha : Covers gm a) (ha' : Covers gm' a) : pre' = pre ∧ gm' = gm := by
  -- Where the one list of predecessors is longer, the other mapping comes first.
  have before : ∀ {p q r s : List Mapping} {g g' : Mapping}, maps = p ++ g :: q →
      maps = r ++ g' :: s → Covers g a → Covers g' a → ∀ c, c ≠ [] → r ≠ p ++ c := by
    rintro p q r s g g' hp hr hg hg' c hc rfl
    cases c with
    | nil => exact hc rfl
    | cons x c =>
        rw [hp, List.append_assoc, List.cons_append] at hr
        obtain ⟨rfl, rfl⟩ := List.cons.inj (List.append_cancel_left hr)
        rw [PageDisjoint, hp, List.pairwise_append, List.pairwise_cons] at hd
        exact hd.2.1.1 g' (by simp) a ⟨hg, hg'⟩
  rcases List.append_eq_append_iff.1 (h.symm.trans h') with ⟨c, hc, hc'⟩ | ⟨c, hc, hc'⟩
  · cases c with
    | nil =>
        obtain ⟨rfl, -⟩ := List.cons.inj hc'
        exact ⟨by simpa using hc, rfl⟩
    | cons x c => exact absurd hc (before h h' ha ha' _ (by simp))
  · cases c with
    | nil =>
        obtain ⟨rfl, -⟩ := List.cons.inj hc'
        exact ⟨by simpa using hc.symm, rfl⟩
    | cons x c => exact absurd hc (before h' h ha' ha _ (by simp))

/-- Of a mapping with contents that is found where its header says, the first page is
written there. -/
theorem located (hd : PageDisjoint maps) (notes : Notes)
    (h : ∀ mem, CoreConsistent maps mem notes) (hm : maps = pre ++ gm :: post)
    (h0 : gm.length ≠ 0) :
    1 ≤ pages gm ∧
      (front maps notes).length + dataSum pre = (load_off maps + lenSum pre).toNat ∧
      ∀ j < gm.length.toNat, sourceAt maps (dataSum pre + j) =
        some (gm.offset + BitVec.ofNat 64 j) := by
  have hpos : 0 < gm.length.toNat := Nat.pos_of_ne_zero fun hz => h0 (BitVec.eq_of_toNat_eq hz)
  have hlt := (load_off maps + lenSum pre).isLt
  have found : ∀ j < gm.length.toNat, ∃ t,
      (load_off maps + lenSum pre).toNat + j = (front maps notes).length + t ∧
        sourceAt maps t = some (gm.offset + BitVec.ofNat 64 j) := by
    intro j hj
    refine sourceAt_of_forall fun mem => ?_
    obtain ⟨stream, hs, hc⟩ := h mem
    have hsum : 0 + lenSum pre = lenSum pre := BitVec.zero_add _
    have hj' := hc.loads (loadPhdr maps (lenSum pre) gm)
      (mem_loadPhdrs.2 ⟨pre, gm, post, hm, by rw [hsum]⟩) j hj
    refine ⟨stream, hs, ?_⟩
    have hoff : (loadPhdr maps (lenSum pre) gm).p_offset.toNat =
      (load_off maps + lenSum pre).toNat := by
      change ((load_off maps + lenSum pre).setWidth 64).toNat = _
      rw [BitVec.toNat_setWidth]
      omega
    rw [hoff] at hj'
    exact hj'
  obtain ⟨t, ht, hst⟩ := found 0 hpos
  obtain ⟨pre', gm', post', t', hm', htt, ht', ha⟩ := sourceAt_eq_some hst
  rw [BitVec.add_zero] at ha
  have hcov : Covers gm gm.offset := ⟨0, by omega, by simp⟩
  have hcov' : Covers gm' gm.offset := by
    refine ⟨t' % 2 ^ 32, ?_, ha⟩
    have : pages gm' ≤ (gm'.length.toNat + 4095) / 4096 := pages_le
    have := Nat.mod_le t' (2 ^ 32)
    omega
  obtain ⟨rfl, rfl⟩ := hd.unique hm hm' hcov hcov'
  have hz : t' % 2 ^ 32 = 0 := by
    have h₁ : BitVec.ofNat 64 (t' % 2 ^ 32) = 0 := by
      have := ha.symm
      unfold source at this
      simpa using this
    have h₂ := congrArg BitVec.toNat h₁
    rw [BitVec.toNat_ofNat, Nat.mod_eq_of_lt] at h₂
    · exact h₂
    · exact (Nat.mod_lt _ (by decide)).trans (by decide)
  obtain rfl : t' = 0 := by omega
  refine ⟨by omega, by omega, fun j hj => ?_⟩
  obtain ⟨u, hu, hsu⟩ := found j hj
  rw [show dataSum pre' + j = u by omega]
  exact hsu

/-- The layout of a core file that is right whatever the memory holds. -/
theorem layoutOK_of_coreConsistent (hd : PageDisjoint maps) (notes : Notes)
    (h : ∀ mem, CoreConsistent maps mem notes) : LayoutOK maps := by
  have hn : maps.length + 1 < 2 ^ 16 := by
    obtain ⟨stream, -, hc⟩ := h fun _ => 0
    exact (note_offset_iff maps).1 hc.note_offset
  refine ⟨hn, fun pre gm post hm h0 => ?_⟩
  obtain ⟨hp, hoff, hsrc⟩ := located hd notes h hm h0
  rw [← toNat_load_off notes hn] at hoff
  have hlt := (load_off maps + lenSum pre).isLt
  -- Each mapping before this one is empty or written up to its end.
  have hle : ∀ g ∈ pre, g.length.toNat ≤ pages g * 4096 := by
    intro g hg
    by_cases hg0 : g.length = 0
    · simp [hg0]
    · obtain ⟨p, q, rfl⟩ := List.append_of_mem hg
      have hm' : maps = p ++ g :: (q ++ gm :: post) := by rw [hm]; simp
      exact length_le_of_pages (located hd notes h hm' hg0).1
  have hsum : (pre.map fun g => g.length.toNat).sum ≤ dataSum pre := by
    unfold dataSum
    exact List.sum_le_sum hle
  have heq : dataSum pre = (pre.map fun g => g.length.toNat).sum := by
    rw [BitVec.toNat_add, toNat_lenSum] at hoff
    omega
  refine ⟨fun g hg => ?_, by omega, ?_⟩
  · by_contra hdvd
    have hlt : (pre.map fun g => g.length.toNat).sum < dataSum pre := by
      unfold dataSum
      refine List.sum_lt_sum _ _ hle ⟨g, hg, lt_of_le_of_ne (hle g hg) fun he => hdvd ?_⟩
      exact ⟨pages g, by omega⟩
    omega
  · by_contra hlen
    have hj := hsrc (2 ^ 32) (by omega)
    have := length_le_of_pages hp
    rw [hm, sourceAt_append (by omega)] at hj
    have hj := Option.some.inj hj
    unfold source at hj
    have h₁ : (BitVec.ofNat 64 (2 ^ 32 % 2 ^ 32)).toNat = 0 := rfl
    have h₂ : (BitVec.ofNat 64 (2 ^ 32)).toNat = 2 ^ 32 := rfl
    bv_omega

/-- Whole pages that end below 4 GiB of the file are laid out right. -/
theorem layoutOK_of_pages (hn : maps.length + 1 < 2 ^ 16) (hd : ∀ g ∈ maps, 4096 ∣ g.length.toNat)
    (hs : (load_off maps).toNat + (maps.map fun g => g.length.toNat).sum < 2 ^ 32) :
    LayoutOK maps := by
  refine ⟨hn, fun pre gm post hm _ => ⟨fun g hg => ?_, ?_, ?_⟩⟩
  · exact hd g (by rw [hm]; exact List.mem_append_left _ hg)
  all_goals
    have hsum : (maps.map fun g => g.length.toNat).sum =
        (pre.map fun g => g.length.toNat).sum + (gm.length.toNat +
          (post.map fun g => g.length.toNat).sum) := by
      rw [hm, List.map_append, List.sum_append, List.map_cons, List.sum_cons]
    omega

end Layout

/-- The layout of core files. -/
theorem writeElfCore_consistent (maps : List Mapping) (notes : Notes) :
    (LayoutOK maps → ∀ mem, CoreConsistent maps mem notes) ∧
      (PageDisjoint maps → (∀ mem, CoreConsistent maps mem notes) → LayoutOK maps) :=
  ⟨fun h mem => coreConsistent_of_layoutOK h mem notes,
    fun hd h => layoutOK_of_coreConsistent hd notes h⟩

def codeAndData : List Mapping :=
  [⟨0x400000, 0x2000, ⟨true, false, true⟩, ⟨true, false, true⟩⟩,
    ⟨0x600000, 0x1000, ⟨true, true, false⟩, ⟨true, true, false⟩⟩]

theorem writeElfCore_codeAndData :
    CoreConsistent codeAndData (fun a => a.setWidth 8) zeroNotes :=
  (writeElfCore_consistent codeAndData zeroNotes).1
    (layoutOK_of_pages (by decide) (by decide) (by decide)) _

def partOfPage (offset : GuestPtr) : Mapping := ⟨offset, 1, ⟨true, false, false⟩, ⟨true, false, false⟩⟩

/-- The data of a mapping that follows another one of a single byte is out of place. -/
theorem writeElfCore_not_consistent : ¬∀ (maps : List Mapping) (mem : GuestPtr → Byte)
    (notes : Notes), CoreConsistent maps mem notes := by
  intro h
  have hd : PageDisjoint [partOfPage 0x1000, partOfPage 0x3000] := by
    refine List.pairwise_pair.2 ?_
    rintro a ⟨⟨t, ht, rfl⟩, t', ht', ha⟩
    simp only [partOfPage] at ht ht' ha
    have h1 : (1 : BitVec 64).toNat = 1 := rfl
    rw [h1] at ht ht'
    bv_omega
  have hl := layoutOK_of_coreConsistent hd zeroNotes fun mem => h _ mem _
  have := (hl.loads [partOfPage 0x1000] (partOfPage 0x3000) [] rfl (by decide)).1 _
    (List.mem_singleton_self _)
  exact absurd this (by decide)

end ElfImg

end VexLLVM
