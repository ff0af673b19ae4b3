import VexLLVM.Qemu.Ioctl
import VexLLVM.Qemu.Termbits

/-!
# The settings of a terminal

`termios` is the structure that is not converted field by field: its words are translated by
the tables, and its control characters are moved to their indices. A guest that reads the
settings of a terminal and sets what it read leaves every setting that the tables list.
-/

namespace VexLLVM

open BitTable LLVM

/-- `host->c_iflag = target_to_host_bitmask(tswap32(target->c_iflag), iflag_tbl)` and the like,
where `tswap32` is the identity. -/
def convertFlags (bitmask : BitVec 32 → List BitmaskTranstbl → BitVec 32)
    (host : Termbit → BitVec 32) (dst src : BitVec 64) (mem : ProcMem) (word : FlagWord) :
    ProcMem :=
  let flags := BitVec.ofNat 32 (readBytes mem (src + BitVec.ofNat 64 word.offset) 4)
  writeBytes mem (dst + BitVec.ofNat 64 word.offset) 4 (bitmask flags (word.tbl host)).toNat

def copyChar (dstCc srcCc : ControlChar → ℕ) (dst src : BitVec 64) (mem : ProcMem)
    (c : ControlChar) : ProcMem :=
  copyWord 1 mem (dst + BitVec.ofNat 64 (cCc + dstCc c)) (src + BitVec.ofNat 64 (cCc + srcCc c))

/-- The two conversions: they differ in the direction of the tables, and in the number of
control characters, all cleared first, and their indices. -/
def convertTermios (bitmask : BitVec 32 → List BitmaskTranstbl → BitVec 32)
    (host : Termbit → BitVec 32) (nccs : ℕ) (dstCc srcCc : ControlChar → ℕ) (mem : ProcMem)
    (dst src : BitVec 64) : ProcMem :=
  let mem := FlagWord.all.foldl (convertFlags bitmask host dst src) mem
  let mem := copyWord 1 mem (dst + BitVec.ofNat 64 cLine) (src + BitVec.ofNat 64 cLine)
  let mem := writeBytes mem (dst + BitVec.ofNat 64 cCc) nccs 0
  ControlChar.all.foldl (copyChar dstCc srcCc dst src) mem

def HostTermbits.targetToHostTermios (h : HostTermbits) :
    ProcMem → BitVec 64 → BitVec 64 → ProcMem :=
  convertTermios targetToHostBitmask h.bits h.nccs h.cc ControlChar.target

def HostTermbits.hostToTargetTermios (h : HostTermbits) :
    ProcMem → BitVec 64 → BitVec 64 → ProcMem :=
  convertTermios hostToTargetBitmask h.bits targetNccs ControlChar.target h.cc

/-- `{ host_to_target_termios, target_to_host_termios }`. -/
def HostTermbits.convert (h : HostTermbits) : Side → ProcMem → BitVec 64 → BitVec 64 → ProcMem
  | .target => h.hostToTargetTermios
  | .host => h.targetToHostTermios

def targetTermiosSize : ℕ := 36

def HostTermbits.structTermiosDef (h : HostTermbits) : StructEntry where
  fieldTypes := []
  nbFields := 0
  fieldOffsets := fun _ => []
  convert := fun side => some (h.convert side)
  size := fun
    | .target => targetTermiosSize
    | .host => h.size
  align := fun
    | .target => 4
    | .host => h.align
  name := ""

/-! ## Settings -/

/-- What a `termios` says, whatever the numbers that its side has for it. -/
@[ext]
structure Termios where
  flags : FlagWord → BitVec 32
  line : BitVec 8
  cc : ControlChar → BitVec 8

def termiosAt (cc : ControlChar → ℕ) (mem : ProcMem) (p : BitVec 64) : Termios where
  flags word := BitVec.ofNat 32 (readBytes mem (p + BitVec.ofNat 64 word.offset) 4)
  line := mem (p + BitVec.ofNat 64 cLine)
  cc c := mem (p + BitVec.ofNat 64 (cCc + cc c))

def Termios.mapFlags (f : FlagWord → BitVec 32 → BitVec 32) (t : Termios) : Termios :=
  { t with flags := fun word => f word (t.flags word) }

variable {bitmask : BitVec 32 → List BitmaskTranstbl → BitVec 32} {host : Termbit → BitVec 32}
    {nccs : ℕ} {dstCc srcCc : ControlChar → ℕ} {mem mem' : ProcMem} {dst src a : BitVec 64}

/-- What a conversion does: the settings stand at their new place with their words translated,
the other control characters are zero, and the rest is as it was. -/
structure TermiosMoved (bitmask : BitVec 32 → List BitmaskTranstbl → BitVec 32)
    (host : Termbit → BitVec 32) (nccs : ℕ) (dstCc srcCc : ControlChar → ℕ)
    (mem mem' : ProcMem) (dst src : BitVec 64) : Prop where
  settings : termiosAt dstCc mem' dst =
    (termiosAt srcCc mem src).mapFlags fun word x => bitmask x (word.tbl host)
  blank : ∀ i < nccs, (∀ c, dstCc c ≠ i) → mem' (dst + BitVec.ofNat 64 (cCc + i)) = 0
  frame : ∀ a ∉ span dst (cCc + nccs), mem' a = mem a

theorem mem_span_one {p : BitVec 64} : a ∈ span p 1 ↔ a = p := by
  have hzero : (a - p).toNat = 0 ↔ a - p = 0 :=
    ⟨fun h => BitVec.eq_of_toNat_eq h, fun h => congrArg BitVec.toNat h⟩
  change (a - p).toNat < 1 ↔ _
  rw [Nat.lt_one_iff, hzero, sub_eq_zero]

theorem local_copyByte {O : Type*} (d s : O → BitVec 64) :
    Scatter.Local (fun mem o => copyWord 1 mem (d o) (s o)) (fun o => {d o}) fun o => {s o} where
  frame f o a ha := writeBytes_of_le (Nat.not_lt.mp fun h => ha (mem_span_one.mp h))
  congr f g o h a ha := by
    have hread : readBytes f (s o) 1 = readBytes g (s o) 1 := by
      rw [readBytes, readBytes, h _ rfl]
      rfl
    rw [copyWord, copyWord, hread]
    have hin : (a - d o).toNat < 1 := mem_span_one.mpr ha
    exact (if_pos hin).trans (if_pos hin).symm

theorem copyWord_one_self {p q : BitVec 64} : copyWord 1 mem p q p = mem q := by
  have hb := (mem q).isLt
  rw [copyWord, writeBytes, sub_self]
  exact (if_pos Nat.one_pos).trans (by simp [readBytes])

theorem local_convertFlags : Scatter.Local (convertFlags bitmask host dst src)
    (fun word => span (dst + BitVec.ofNat 64 word.offset) 4)
    fun word => span (src + BitVec.ofNat 64 word.offset) 4 where
  frame f word a ha := writeBytes_of_le (Nat.not_lt.mp ha)
  congr f g word h a ha := by
    have hread : readBytes f (src + BitVec.ofNat 64 word.offset) 4 =
        readBytes g (src + BitVec.ofNat 64 word.offset) 4 := by
      refine readBytes_congr fun i hi => h _ ?_
      change (_ + BitVec.ofNat 64 i - _).toNat < _
      rwa [toNat_add_sub (by omega)]
    rw [convertFlags, convertFlags, hread]
    exact (if_pos ha).trans (if_pos ha).symm

theorem FlagWord.offset_add_le (word : FlagWord) : word.offset + 4 ≤ cLine := by
  cases word <;> decide

/-- Two words of settings do not meet. -/
theorem FlagWord.pairwise_all : FlagWord.all.Pairwise fun w w' => w.offset + 4 ≤ w'.offset := by
  decide

section Places

variable {n k N : ℕ}

/-- A part of a structure. -/
theorem span_add_subset {p : BitVec 64} (h : n + k ≤ N) (hN : N ≤ 2 ^ 64) :
    span (p + BitVec.ofNat 64 n) k ⊆ span p N := by
  intro a ha
  rw [mem_span_add (h.trans hN)] at ha
  exact ha.2.trans_le h

theorem add_mem_span {p : BitVec 64} (h : n < N) (hN : N ≤ 2 ^ 64) :
    p + BitVec.ofNat 64 n ∈ span p N := by
  change (p + BitVec.ofNat 64 n - p).toNat < N
  rwa [toNat_add_sub (by omega)]

theorem add_ofNat_inj {p : BitVec 64} (hn : n < 2 ^ 64) (hk : k < 2 ^ 64) :
    p + BitVec.ofNat 64 n = p + BitVec.ofNat 64 k ↔ n = k := by
  refine ⟨fun h => ?_, fun h => h ▸ rfl⟩
  rw [← toNat_add_sub (a := p) hn, h, toNat_add_sub hk]

end Places

/-- The words after they have been converted. -/
theorem readBytes_convertFlags_all (word : FlagWord)
    (hdisj : ∀ a ∈ span dst cLine, a ∉ span src cLine) :
    readBytes (FlagWord.all.foldl (convertFlags bitmask host dst src) mem)
        (dst + BitVec.ofNat 64 word.offset) 4 =
      (bitmask (BitVec.ofNat 32 (readBytes mem (src + BitVec.ofNat 64 word.offset) 4))
        (word.tbl host)).toNat := by
  have hsub : ∀ (w : FlagWord) (p : BitVec 64),
      span (p + BitVec.ofNat 64 w.offset) 4 ⊆ span p cLine :=
    fun w p => span_add_subset w.offset_add_le (by decide)
  have hle : ∀ w : FlagWord, w.offset + 4 ≤ 2 ^ 64 :=
    fun w => w.offset_add_le.trans (by decide)
  have hapart : Scatter.Apart (fun w : FlagWord => span (dst + BitVec.ofNat 64 w.offset) 4)
      (fun w => span (src + BitVec.ofNat 64 w.offset) 4) FlagWord.all := by
    constructor
    · refine FlagWord.pairwise_all.imp fun {w w'} hww a ha ha' => ?_
      rw [mem_span_add (hle w)] at ha
      rw [mem_span_add (hle w')] at ha'
      omega
    · exact fun w _ w' _ a ha ha' => hdisj a (hsub w dst ha) (hsub w' src ha')
  have hread : readBytes (FlagWord.all.foldl (convertFlags bitmask host dst src) mem)
      (dst + BitVec.ofNat 64 word.offset) 4 =
      readBytes (convertFlags bitmask host dst src mem word)
        (dst + BitVec.ofNat 64 word.offset) 4 :=
    readBytes_congr fun i hi => Scatter.foldl_owned local_convertFlags hapart word.mem_all
      (add_mem_span hi (by decide))
  rw [hread, convertFlags, readBytes_writeBytes (by decide)]
  exact Nat.mod_eq_of_lt (BitVec.isLt _)

theorem convertFlags_frame (ha : a ∉ span dst cLine) :
    FlagWord.all.foldl (convertFlags bitmask host dst src) mem a = mem a :=
  Scatter.foldl_frame local_convertFlags fun w _ hw =>
    ha (span_add_subset w.offset_add_le (by decide) hw)

theorem ControlChar.nodup_all : ControlChar.all.Nodup := by
  decide

/-- The indices of the control characters on either side, for structures that do not meet. -/
structure TermiosApart (nccs nsrc : ℕ) (dstCc srcCc : ControlChar → ℕ) (dst src : BitVec 64) :
    Prop where
  injective : Function.Injective dstCc
  dst_lt : ∀ c, dstCc c < nccs
  src_lt : ∀ c, srcCc c < nsrc
  dst_le : cCc + nccs ≤ 2 ^ 64
  src_le : cCc + nsrc ≤ 2 ^ 64
  disjoint : ∀ a ∈ span dst (cCc + nccs), a ∉ span src (cCc + nsrc)

section Chars

variable {nsrc : ℕ} (h : TermiosApart nccs nsrc dstCc srcCc dst src)
include h

theorem TermiosApart.char_lt (c : ControlChar) : cCc + dstCc c < 2 ^ 64 :=
  (Nat.add_lt_add_left (h.dst_lt c) cCc).trans_le h.dst_le

theorem TermiosApart.char_mem (c : ControlChar) :
    dst + BitVec.ofNat 64 (cCc + dstCc c) ∈ span (dst + BitVec.ofNat 64 cCc) nccs := by
  rw [mem_span_add h.dst_le, toNat_add_sub (h.char_lt c)]
  exact ⟨Nat.le_add_right _ _, Nat.add_lt_add_left (h.dst_lt c) cCc⟩

theorem TermiosApart.src_notMem {n : ℕ} (hn : n < cCc + nsrc) :
    src + BitVec.ofNat 64 n ∉ span dst (cCc + nccs) :=
  fun hmem => h.disjoint _ hmem (add_mem_span hn h.src_le)

/-- Only control characters are written when they are cleared and copied. -/
theorem TermiosApart.chars_frame (ha : a ∉ span (dst + BitVec.ofNat 64 cCc) nccs) :
    ControlChar.all.foldl (copyChar dstCc srcCc dst src)
      (writeBytes mem (dst + BitVec.ofNat 64 cCc) nccs 0) a = mem a := by
  refine (Scatter.foldl_frame (local_copyByte _ _) fun c _ hc => ha ?_).trans
    (writeBytes_of_le (Nat.not_lt.mp ha))
  exact hc ▸ h.char_mem c

theorem TermiosApart.chars_blank {i : ℕ} (hi : i < nccs) (hne : ∀ c, dstCc c ≠ i) :
    ControlChar.all.foldl (copyChar dstCc srcCc dst src)
      (writeBytes mem (dst + BitVec.ofNat 64 cCc) nccs 0) (dst + BitVec.ofNat 64 (cCc + i)) =
        0 := by
  have hi64 : cCc + i < 2 ^ 64 := (Nat.add_lt_add_left hi cCc).trans_le h.dst_le
  have hkept : ∀ c ∈ ControlChar.all, dst + BitVec.ofNat 64 (cCc + i) ∉
      ({dst + BitVec.ofNat 64 (cCc + dstCc c)} : Set (BitVec 64)) := by
    intro c _ hc
    rw [Set.mem_singleton_iff, add_ofNat_inj hi64 (h.char_lt c)] at hc
    exact hne c (Nat.add_left_cancel hc).symm
  refine (Scatter.foldl_frame (local_copyByte _ _) hkept).trans ?_
  rw [BitVec.ofNat_add, ← add_assoc, writeBytes_at hi ((Nat.le_add_left _ _).trans h.dst_le),
    Nat.zero_div]
  rfl

theorem TermiosApart.chars_copied (c : ControlChar) :
    ControlChar.all.foldl (copyChar dstCc srcCc dst src)
      (writeBytes mem (dst + BitVec.ofNat 64 cCc) nccs 0)
        (dst + BitVec.ofNat 64 (cCc + dstCc c)) = mem (src + BitVec.ofNat 64 (cCc + srcCc c)) := by
  have hsrc : ∀ c, src + BitVec.ofNat 64 (cCc + srcCc c) ∉ span (dst + BitVec.ofNat 64 cCc) nccs :=
    fun c hmem => h.src_notMem (Nat.add_lt_add_left (h.src_lt c) cCc)
      (span_add_subset le_rfl h.dst_le hmem)
  have hapart : Scatter.Apart
      (fun c => ({dst + BitVec.ofNat 64 (cCc + dstCc c)} : Set (BitVec 64)))
      (fun c => {src + BitVec.ofNat 64 (cCc + srcCc c)}) ControlChar.all := by
    constructor
    · refine ControlChar.nodup_all.imp fun {c c'} hne a ha ha' => hne (h.injective ?_)
      have heq := ha.symm.trans ha'
      rw [add_ofNat_inj (h.char_lt c) (h.char_lt c')] at heq
      exact Nat.add_left_cancel heq
    · exact fun c _ c' _ a ha ha' => hsrc c' (ha'.symm.trans ha ▸ h.char_mem c)
  refine (Scatter.foldl_owned (local_copyByte _ _) hapart c.mem_all rfl).trans ?_
  rw [copyWord_one_self]
  exact writeBytes_of_le (Nat.not_lt.mp (hsrc c))

/-- The four writes of a conversion, of which no two are at one place but the clearing of the
control characters and their copies. -/
theorem TermiosApart.moved (mem : ProcMem) : TermiosMoved bitmask host nccs dstCc srcCc mem
    (convertTermios bitmask host nccs dstCc srcCc mem dst src) dst src := by
  rw [convertTermios]
  set mem₁ := FlagWord.all.foldl (convertFlags bitmask host dst src) mem with hmem₁
  set mem₂ := copyWord 1 mem₁ (dst + BitVec.ofNat 64 cLine) (src + BitVec.ofNat 64 cLine) with hmem₂
  have hline : cLine < cCc := by decide
  have hframe₁ : ∀ a ∉ span dst cLine, mem₁ a = mem a := fun a => convertFlags_frame
  have hframe₂ : ∀ a ∉ span dst cCc, mem₂ a = mem a := by
    intro a ha
    have hne : a ∉ span (dst + BitVec.ofNat 64 cLine) 1 := fun hmem =>
      ha (span_add_subset hline (by decide) hmem)
    rw [← hframe₁ a fun hmem => ha (span_mono hline.le hmem)]
    exact writeBytes_of_le (Nat.not_lt.mp hne)
  -- below the control characters nothing is written after the line, and below the line nothing
  -- after the words
  have hlow : ∀ n < cCc, ControlChar.all.foldl (copyChar dstCc srcCc dst src)
      (writeBytes mem₂ (dst + BitVec.ofNat 64 cCc) nccs 0) (dst + BitVec.ofNat 64 n) =
        mem₂ (dst + BitVec.ofNat 64 n) := by
    refine fun n hn => h.chars_frame fun hmem => ?_
    rw [mem_span_add h.dst_le, toNat_add_sub (hn.trans (by decide))] at hmem
    omega
  have hwords : ∀ n < cLine, mem₂ (dst + BitVec.ofNat 64 n) = mem₁ (dst + BitVec.ofNat 64 n) := by
    refine fun n hn => writeBytes_of_le (Nat.not_lt.mp fun hmem => ?_)
    exact hn.ne ((add_ofNat_inj (hn.trans (by decide)) (by decide)).mp (mem_span_one.mp hmem))
  refine ⟨Termios.ext (funext fun word => ?_) ?_ (funext fun c => ?_), fun i => h.chars_blank,
    fun a ha => ?_⟩
  · have hoff := word.offset_add_le
    simp only [termiosAt, Termios.mapFlags]
    rw [readBytes_congr (g := mem₁) fun i hi => ?_, hmem₁,
      readBytes_convertFlags_all word fun a ha hmem => ?_, BitVec.ofNat_toNat, BitVec.setWidth_eq]
    · exact h.disjoint a (span_mono (by omega) ha) (span_mono (by omega) hmem)
    · rw [add_assoc, ← BitVec.ofNat_add, hlow _ (by omega), hwords _ (by omega)]
  · simp only [termiosAt, Termios.mapFlags]
    rw [hlow _ hline, hmem₂, copyWord_one_self, hframe₁ _ fun hmem => ?_]
    exact h.src_notMem (Nat.lt_add_right nsrc hline) (span_mono (by omega) hmem)
  · simp only [termiosAt, Termios.mapFlags]
    rw [h.chars_copied, hframe₂ _ fun hmem => ?_]
    exact h.src_notMem (Nat.add_lt_add_left (h.src_lt c) cCc)
      (span_mono (Nat.le_add_right _ _) hmem)
  · rw [h.chars_frame fun hmem => ha (span_add_subset le_rfl h.dst_le hmem),
      hframe₂ a fun hmem => ha (span_mono (Nat.le_add_right _ _) hmem)]

end Chars

/-! ## There and back -/

variable {h : HostTermbits} {t : Termios}

def Termios.toHost (h : HostTermbits) (t : Termios) : Termios :=
  t.mapFlags fun word x => targetToHostBitmask x (word.tbl h.bits)

def Termios.toTarget (h : HostTermbits) (t : Termios) : Termios :=
  t.mapFlags fun word x => hostToTargetBitmask x (word.tbl h.bits)

def Termios.keepTarget (h : HostTermbits) (t : Termios) : Termios :=
  t.mapFlags fun word => keep (transRows (word.tbl h.bits))

def Termios.keepHost (h : HostTermbits) (t : Termios) : Termios :=
  t.mapFlags fun word => keep ((transRows (word.tbl h.bits)).map Row.swap)

theorem Termios.toTarget_toHost : (t.toHost h).toTarget h = t.keepTarget h :=
  Termios.ext (funext fun word => translate_swap_translate (h.fields word)) rfl rfl

theorem Termios.toHost_toTarget : (t.toTarget h).toHost h = t.keepHost h := by
  refine Termios.ext (funext fun word => ?_) rfl rfl
  have hswap : ((transRows (word.tbl h.bits)).map Row.swap).map Row.swap =
      transRows (word.tbl h.bits) := by
    rw [List.map_map]
    exact List.map_id _
  simp only [toTarget, toHost, keepHost, mapFlags, targetToHostBitmask, hostToTargetBitmask]
  rw [← translate_swap_translate (h.fields word).swap, hswap]

/-- Nothing is lost of settings that are all listed. -/
theorem Termios.keepHost_eq_iff : t.keepHost h = t ↔
    ∀ word : FlagWord, Listed ((transRows (word.tbl h.bits)).map Row.swap) (t.flags word) := by
  rw [Termios.ext_iff]
  refine ⟨fun heq word => keep_eq_iff.mp (congrFun heq.1 word), fun hl => ⟨?_, rfl, rfl⟩⟩
  exact funext fun word => keep_eq_iff.mpr (hl word)

section Moves

variable {p bufTemp : BitVec 64}

theorem HostTermbits.moved_targetToHostTermios (hsize : h.size ≤ maxStructSize) (mem : ProcMem)
    (hdisj : ∀ a ∈ span bufTemp maxStructSize, a ∉ span p targetTermiosSize) :
    TermiosMoved targetToHostBitmask h.bits h.nccs h.cc ControlChar.target mem
      (h.targetToHostTermios mem bufTemp p) bufTemp p := by
  have hle := h.le_size.trans hsize
  have hapart : TermiosApart h.nccs targetNccs h.cc ControlChar.target bufTemp p :=
    ⟨h.cc_injective, h.cc_lt, ControlChar.target_lt, hle.trans (by decide), by decide,
      fun a ha => hdisj a (span_mono hle ha)⟩
  exact hapart.moved mem

theorem HostTermbits.moved_hostToTargetTermios (hsize : h.size ≤ maxStructSize) (mem : ProcMem)
    (hdisj : ∀ a ∈ span bufTemp maxStructSize, a ∉ span p targetTermiosSize) :
    TermiosMoved hostToTargetBitmask h.bits targetNccs ControlChar.target h.cc mem
      (h.hostToTargetTermios mem p bufTemp) p bufTemp := by
  have hle := h.le_size.trans hsize
  have hapart : TermiosApart targetNccs h.nccs ControlChar.target h.cc p bufTemp :=
    ⟨ControlChar.target_injective, ControlChar.target_lt, h.cc_lt, by decide,
      hle.trans (by decide), fun a ha ha' => hdisj a (span_mono hle ha') ha⟩
  exact hapart.moved mem

end Moves

/-! ## The registered structure -/

variable {abi : Abi} {entries entries' : StructEntries} {k : ℕ} {rs : List Registration}

theorem Registration.run_of_ne {r : Registration} (hrun : r.run abi entries = some entries')
    (hid : r.id ≠ k) : entries' k = entries k := by
  cases r with
  | struct id name types =>
      obtain ⟨se, _, hrun⟩ := Option.bind_eq_some_iff.mp hrun
      obtain ⟨nbFields, _, hrun⟩ := Option.bind_eq_some_iff.mp hrun
      obtain ⟨target, _, hrun⟩ := Option.bind_eq_some_iff.mp hrun
      obtain ⟨host, _, hrun⟩ := Option.bind_eq_some_iff.mp hrun
      cases hrun
      exact Function.update_of_ne (Ne.symm hid) _ _
  | direct id name se =>
      obtain ⟨_, _, rfl⟩ := Option.map_eq_some_iff.mp hrun
      exact Function.update_of_ne (Ne.symm hid) _ _

/-- An entry is as its own registration leaves it. -/
theorem foldlM_run_of_forall_ne (hrun : rs.foldlM (Registration.run abi) entries = some entries')
    (hid : ∀ r ∈ rs, r.id ≠ k) : entries' k = entries k := by
  induction rs generalizing entries with
  | nil =>
      cases hrun
      rfl
  | cons r rs ih =>
      rw [List.foldlM_cons] at hrun
      obtain ⟨entries₁, hr, hrest⟩ := Option.bind_eq_some_iff.mp hrun
      rw [ih hrest fun r' hr' => hid r' (List.mem_cons_of_mem r hr'),
        r.run_of_ne hr (hid r List.mem_cons_self)]

/-- After `syscall_init` number 0 is converted as `struct_termios_def` says. -/
theorem convert_of_registerAll
    (hrun : registerAll abi (syscallRegistrations h.structTermiosDef) = some entries)
    (side : Side) : (entries 0).convert side = some (h.convert side) := by
  rw [registerAll, syscallRegistrations, List.foldlM_cons] at hrun
  obtain ⟨entries₁, hr, hrest⟩ := Option.bind_eq_some_iff.mp hrun
  cases hr
  rw [foldlM_run_of_forall_ne hrest fun r hr => ?_]
  · rfl
  · obtain ⟨i, hi, rfl⟩ := List.mem_mapIdx.mp hr
    exact Nat.succ_ne_zero i

theorem thunkConvert_termios (hconv : ∀ side, (entries 0).convert side = some (h.convert side))
    (toHost : Side) (fuel : ℕ) (mem : ProcMem) (dst src : BitVec 64) :
    thunkConvert abi entries toHost (fuel + 1) mem dst src (mkStruct 0) =
      some (h.convert toHost mem dst src, []) := by
  have hcode : ArgType.ofCode ArgType.struct.code = some .struct := rfl
  have hentry : structEntry entries 0 = some (entries 0) := rfl
  rw [mkStruct]
  simp only [thunkConvert, hcode, hentry, hconv, Option.bind_eq_bind, Option.bind_some,
    Option.map_some]

/-! ## The controls of a terminal -/

/-- A control that is given the settings of a terminal, or gives them. -/
structure IsTermios (ies : List IOCTLEntry) (cmd access : ℕ) (ie : IOCTLEntry) : Prop where
  find : findIoctl ies cmd = some ie
  plain : ie.doIoctl = none
  argType : ie.argType = ArgType.ptr.code :: mkStruct 0
  access : ie.access = access

/-- What is left of the kernel's answer: unless it is an error, the guest has its settings. -/
def HostTermbits.got (h : HostTermbits) (abi : Abi) (table : ℕ → ℕ) (p bufTemp : BitVec 64)
    (r : IoctlResult) : ProcMem :=
  if isError abi (getErrno table r) then r.mem else h.convert .target r.mem p bufTemp

section doIoctl

variable {ies : List IOCTLEntry} {ie : IOCTLEntry} {cmd arg : ℕ} {base : BitVec 64}
    (table : ℕ → ℕ) (kernel : HostIoctl) (bufTemp : BitVec 64) (fd : ℤ)

theorem doIoctl_of_iocR (hconv : ∀ side, (entries 0).convert side = some (h.convert side))
    (hie : IsTermios ies cmd iocR ie) (hptr : lockUser base arg ≠ 0) (fuel : ℕ) (mem : ProcMem) :
    doIoctl abi entries table kernel base bufTemp (fuel + 1) ies fd cmd arg mem =
      let r := kernel fd ie.hostCmd (.ptr bufTemp) mem
      some (getErrno table r, h.got abi table (lockUser base arg) bufTemp r) := by
  have hcode : ArgType.ofCode ArgType.ptr.code = some .ptr := rfl
  simp only [doIoctl, hie.find, hie.plain, hie.argType, hcode, hie.access, if_true, ioctlRead,
    HostTermbits.got, hptr, if_false, thunkConvert_termios hconv, Option.map_some]
  split <;> rfl

theorem doIoctl_of_iocW (hconv : ∀ side, (entries 0).convert side = some (h.convert side))
    (hie : IsTermios ies cmd iocW ie) (hptr : lockUser base arg ≠ 0) (fuel : ℕ) (mem : ProcMem) :
    doIoctl abi entries table kernel base bufTemp (fuel + 1) ies fd cmd arg mem =
      let r := kernel fd ie.hostCmd (.ptr bufTemp)
        (h.convert .host mem bufTemp (lockUser base arg))
      some (getErrno table r, r.mem) := by
  have hcode : ArgType.ofCode ArgType.ptr.code = some .ptr := rfl
  have hne : iocW ≠ iocR := by decide
  simp only [doIoctl, hie.find, hie.plain, hie.argType, hcode, hie.access, if_true, if_neg hne,
    ioctlWrite, hptr, if_false, thunkConvert_termios hconv, Option.bind_some]

end doIoctl

/-- What becomes of the settings, where `asked` is the kernel's answer to a guest that reads them,
`got` the memory after, and `given` the memory with which the kernel is told to set them. -/
structure TerminalControls (h : HostTermbits) (abi : Abi) (table : ℕ → ℕ) (p bufTemp : BitVec 64)
    (asked : ProcMem → IoctlResult) (got given : ProcMem → ProcMem) : Prop where
  failed : ∀ mem, isError abi (getErrno table (asked mem)) = true → got mem = (asked mem).mem
  taken : ∀ mem, isError abi (getErrno table (asked mem)) = false →
    TermiosMoved hostToTargetBitmask h.bits targetNccs ControlChar.target h.cc (asked mem).mem
      (got mem) p bufTemp
  handed : ∀ mem, TermiosMoved targetToHostBitmask h.bits h.nccs h.cc ControlChar.target mem
    (given mem) bufTemp p
  readThenSet : ∀ mem mem', isError abi (getErrno table (asked mem)) = false →
    termiosAt ControlChar.target mem' p = termiosAt ControlChar.target (got mem) p →
    termiosAt h.cc (given mem') bufTemp = (termiosAt h.cc (asked mem).mem bufTemp).keepHost h
  lossless : ∀ mem mem', isError abi (getErrno table (asked mem)) = false →
    termiosAt ControlChar.target mem' p = termiosAt ControlChar.target (got mem) p →
    (termiosAt h.cc (given mem') bufTemp = termiosAt h.cc (asked mem).mem bufTemp ↔
      ∀ word : FlagWord, Listed ((transRows (word.tbl h.bits)).map Row.swap)
        ((termiosAt h.cc (asked mem).mem bufTemp).flags word))
  setThenRead : ∀ mem mem', isError abi (getErrno table (asked mem')) = false →
    termiosAt h.cc (asked mem').mem bufTemp = termiosAt h.cc (given mem) bufTemp →
    termiosAt ControlChar.target (got mem') p =
      (termiosAt ControlChar.target mem p).keepTarget h

theorem terminalControls {p bufTemp : BitVec 64} (hsize : h.size ≤ maxStructSize)
    (hdisj : ∀ a ∈ span bufTemp maxStructSize, a ∉ span p targetTermiosSize) (abi : Abi)
    (table : ℕ → ℕ) (asked : ProcMem → IoctlResult) :
    TerminalControls h abi table p bufTemp asked
      (fun mem => h.got abi table p bufTemp (asked mem))
      (fun mem => h.convert .host mem bufTemp p) := by
  have hgiven := fun mem => h.moved_targetToHostTermios hsize mem hdisj
  have hgot : ∀ r, isError abi (getErrno table r) = false →
      TermiosMoved hostToTargetBitmask h.bits targetNccs ControlChar.target h.cc r.mem
        (h.got abi table p bufTemp r) p bufTemp := by
    intro r hr
    rw [HostTermbits.got, hr]
    exact h.moved_hostToTargetTermios hsize r.mem hdisj
  have hset : ∀ mem mem', isError abi (getErrno table (asked mem)) = false →
      termiosAt ControlChar.target mem' p =
        termiosAt ControlChar.target (h.got abi table p bufTemp (asked mem)) p →
      termiosAt h.cc (h.convert .host mem' bufTemp p) bufTemp =
        (termiosAt h.cc (asked mem).mem bufTemp).keepHost h := by
    intro mem mem' hr hsame
    calc
      termiosAt h.cc (h.convert .host mem' bufTemp p) bufTemp
          = (termiosAt ControlChar.target mem' p).toHost h := (hgiven mem').settings
      _ = ((termiosAt h.cc (asked mem).mem bufTemp).toTarget h).toHost h := by
        rw [hsame, (hgot _ hr).settings]
        rfl
      _ = (termiosAt h.cc (asked mem).mem bufTemp).keepHost h := Termios.toHost_toTarget
  refine ⟨fun mem hr => if_pos hr, fun mem => hgot _, hgiven, hset, fun mem mem' hr hsame => ?_,
    fun mem mem' hr hsame => ?_⟩
  · rw [hset mem mem' hr hsame]
    exact Termios.keepHost_eq_iff
  · calc
      termiosAt ControlChar.target (h.got abi table p bufTemp (asked mem')) p
          = (termiosAt h.cc (asked mem').mem bufTemp).toTarget h := (hgot _ hr).settings
      _ = ((termiosAt ControlChar.target mem p).toHost h).toTarget h := by
        rw [hsame]
        exact congrArg (Termios.toTarget h) (hgiven mem).settings
      _ = (termiosAt ControlChar.target mem p).keepTarget h := Termios.toTarget_toHost

/-- The controls that read the settings of a terminal and that set them, whatever numbers the host
has for them: the guest is given the kernel's settings and the kernel the guest's, in words that
the tables translate, and nothing else changes. Settings that are read and then set are what the
kernel gave but for the values that no table lists, and all of it if and only if every value is
listed; settings that are set and then read are what the guest set but for such values. -/
theorem termiosControls_statement (h : HostTermbits) (abi : Abi) (ies : List IOCTLEntry)
    (getCmd setCmd : ℕ) (get set : IOCTLEntry) (hget : IsTermios ies getCmd iocR get)
    (hset : IsTermios ies setCmd iocW set) (table : ℕ → ℕ) (kernel : HostIoctl)
    (base bufTemp : BitVec 64) (fd : ℤ) (arg : ℕ) (hptr : lockUser base arg ≠ 0)
    (hsize : h.size ≤ maxStructSize)
    (hdisj : ∀ a ∈ span bufTemp maxStructSize, a ∉ span (lockUser base arg) targetTermiosSize) :
    ∃ entries got given,
      registerAll abi (syscallRegistrations h.structTermiosDef) = some entries ∧
      (∀ mem fuel,
        doIoctl abi entries table kernel base bufTemp (fuel + 1) ies fd getCmd arg mem =
          let r := kernel fd get.hostCmd (.ptr bufTemp) mem
          some (getErrno table r, got mem)) ∧
      (∀ mem fuel,
        doIoctl abi entries table kernel base bufTemp (fuel + 1) ies fd setCmd arg mem =
          let r := kernel fd set.hostCmd (.ptr bufTemp) (given mem)
          some (getErrno table r, r.mem)) ∧
      TerminalControls h abi table (lockUser base arg) bufTemp
        (kernel fd get.hostCmd (.ptr bufTemp)) got given := by
  obtain ⟨decls, hdecls⟩ := Option.isSome_iff_exists.mp (isSome_declareAll h.structTermiosDef)
  obtain ⟨entries, hrun, _⟩ := represents_of_declareAll hdecls (fit_of_declareAll hdecls abi)
  have hconv := convert_of_registerAll hrun
  exact ⟨entries, _, _, hrun,
    fun mem fuel => doIoctl_of_iocR table kernel bufTemp fd hconv hget hptr fuel mem,
    fun mem fuel => doIoctl_of_iocW table kernel bufTemp fd hconv hset hptr fuel mem,
    terminalControls hsize hdisj abi table _⟩

def termiosIoctls : List IOCTLEntry :=
  [⟨0x5401, 0x5401, "TCGETS", iocR, none, [9, 11, 0]⟩,
    ⟨0x5402, 0x5402, "TCSETS", iocW, none, [9, 11, 0]⟩]

/-- A kernel whose terminals map a return to a line feed and say nothing else. -/
def icrnlKernel : HostIoctl := fun _ _ _ mem => ⟨0, 0, writeBytes mem 0x1000 4 0o400⟩

/-- A guest that reads the settings and sets what it has read hands the kernel its own. -/
theorem termiosControls_icrnl :
    ∃ entries got given,
      registerAll ⟨.b64, .b64⟩ (syscallRegistrations linuxTermbits.structTermiosDef) =
        some entries ∧
      doIoctl ⟨.b64, .b64⟩ entries id icrnlKernel 0 0x1000 1 termiosIoctls 0 0x5401 0x8000
        lowBytes = some (0, got) ∧
      (termiosAt ControlChar.target got 0x8000).flags .iflag = Termbit.icrnl.target ∧
      doIoctl ⟨.b64, .b64⟩ entries id icrnlKernel 0 0x1000 1 termiosIoctls 0 0x5402 0x8000 got =
        some (0, writeBytes given 0x1000 4 0o400) ∧
      (termiosAt linuxTermbits.cc given 0x1000).flags .iflag = linuxTermbits.bits .icrnl := by
  obtain ⟨entries, got, given, hrun, hgets, hsets, hcontrols⟩ := termiosControls_statement
    linuxTermbits ⟨.b64, .b64⟩ termiosIoctls 0x5401 0x5402 _ _ ⟨rfl, rfl, rfl, rfl⟩
    ⟨rfl, rfl, rfl, rfl⟩ id icrnlKernel 0 0x1000 0 0x8000 (by decide) (by decide)
    (notMem_span (by decide) (by decide))
  have herr : isError ⟨.b64, .b64⟩ 0 = false := by decide
  have hflags : (termiosAt linuxTermbits.cc (writeBytes lowBytes 0x1000 4 0o400) 0x1000).flags
      .iflag = 0o400 := by
    change BitVec.ofNat 32 (readBytes _ (0x1000 + 0) 4) = _
    rw [add_zero, readBytes_writeBytes (by decide)]
    rfl
  have hgot := (hcontrols.taken lowBytes herr).settings
  have hgiven := hcontrols.readThenSet lowBytes (got lowBytes) herr rfl
  refine ⟨entries, got lowBytes, given (got lowBytes), hrun, hgets lowBytes 0, ?_,
    hsets (got lowBytes) 0, ?_⟩
  · refine (congrArg (fun t => t.flags .iflag) hgot).trans ?_
    change hostToTargetBitmask ((termiosAt _ (writeBytes lowBytes 0x1000 4 0o400) 0x1000).flags
      .iflag) _ = _
    rw [hflags]
    decide +kernel
  · refine (congrArg (fun t => t.flags .iflag) hgiven).trans ?_
    change keep _ ((termiosAt _ (writeBytes lowBytes 0x1000 4 0o400) 0x1000).flags .iflag) = _
    rw [hflags]
    decide +kernel

end VexLLVM
