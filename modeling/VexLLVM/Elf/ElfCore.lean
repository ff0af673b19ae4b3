import VexLLVM.Exec.GuestMem
import Mathlib.Data.BitVec
import Mathlib.Data.List.Pairwise

/-!
# Core files

`writeElfCore` for an X86_64 guest. The program headers are written before the data,
with offsets that are accumulated from the lengths of the mappings, in 32 bits. The
data is written in pages.
-/

namespace VexLLVM

abbrev Byte := BitVec 8

def leBytes (n : ℕ) {w : ℕ} (x : BitVec w) : List Byte :=
  (List.range n).map fun i => x.extractLsb' (8 * i) 8

@[simp] theorem length_leBytes (n : ℕ) {w : ℕ} (x : BitVec w) : (leBytes n x).length = n := by
  simp [leBytes]

namespace ElfImg

structure Ehdr where
  e_ident : List Byte
  e_type : BitVec 16
  e_machine : BitVec 16
  e_version : BitVec 32
  e_entry : BitVec 64
  e_phoff : BitVec 64
  e_shoff : BitVec 64
  e_flags : BitVec 32
  e_ehsize : BitVec 16
  e_phentsize : BitVec 16
  e_phnum : BitVec 16
  e_shentsize : BitVec 16
  e_shnum : BitVec 16
  e_shstrndx : BitVec 16

structure Phdr where
  p_type : BitVec 32
  p_flags : BitVec 32
  p_offset : BitVec 64
  p_vaddr : BitVec 64
  p_paddr : BitVec 64
  p_filesz : BitVec 64
  p_memsz : BitVec 64
  p_align : BitVec 64

def Ehdr.bytes (h : Ehdr) : List Byte :=
  h.e_ident ++ leBytes 2 h.e_type ++ leBytes 2 h.e_machine ++ leBytes 4 h.e_version ++
    leBytes 8 h.e_entry ++ leBytes 8 h.e_phoff ++ leBytes 8 h.e_shoff ++ leBytes 4 h.e_flags ++
    leBytes 2 h.e_ehsize ++ leBytes 2 h.e_phentsize ++ leBytes 2 h.e_phnum ++
    leBytes 2 h.e_shentsize ++ leBytes 2 h.e_shnum ++ leBytes 2 h.e_shstrndx

def Phdr.bytes (h : Phdr) : List Byte :=
  leBytes 4 h.p_type ++ leBytes 4 h.p_flags ++ leBytes 8 h.p_offset ++ leBytes 8 h.p_vaddr ++
    leBytes 8 h.p_paddr ++ leBytes 8 h.p_filesz ++ leBytes 8 h.p_memsz ++ leBytes 8 h.p_align

def sizeofEhdr : ℕ := 64
def sizeofPhdr : ℕ := 56
def sizeofNhdr : ℕ := 12

/-- The contents of the three notes: `prstatus_t`, `prpsinfo_t` and `_libc_fpstate`. -/
structure Notes where
  prs : List Byte
  prps : List Byte
  fpr : List Byte
  prs_length : prs.length = 336
  prps_length : prps.length = 136
  fpr_length : fpr.length = 512

def zeroNotes : Notes :=
  ⟨List.replicate 336 0, List.replicate 136 0, List.replicate 512 0, List.length_replicate,
    List.length_replicate, List.length_replicate⟩

/-- A note: its header, its name and its contents. -/
def writeNote (ty : BitVec 32) (b : List Byte) : List Byte :=
  leBytes 4 (5 : BitVec 32) ++ leBytes 4 (BitVec.ofNat 32 b.length) ++ leBytes 4 ty ++
    [0x43, 0x4f, 0x52, 0x45, 0, 0, 0, 0] ++ b

variable (maps : List Mapping)

def e_phnum : BitVec 16 := BitVec.ofNat 16 (maps.length + 1)

def ehdr : Ehdr where
  e_ident := [0x7f, 0x45, 0x4c, 0x46, 2, 1, 1, 0, 0, 0, 0, 0, 0, 0, 0, 0]
  e_type := 4
  e_machine := 62
  e_version := 1
  e_entry := 0
  e_phoff := BitVec.ofNat 64 sizeofEhdr
  e_shoff := 0
  e_flags := 0
  e_ehsize := BitVec.ofNat 16 sizeofEhdr
  e_phentsize := BitVec.ofNat 16 sizeofPhdr
  e_phnum := e_phnum maps
  e_shentsize := 0
  e_shnum := 0
  e_shstrndx := 0

def note_off : BitVec 32 :=
  ((ehdr maps).e_phoff + (e_phnum maps).setWidth 64 * BitVec.ofNat 64 sizeofPhdr).setWidth 32

def note_sz : BitVec 32 := BitVec.ofNat 32 (3 * (sizeofNhdr + 8) + 336 + 136 + 512)

def notePhdr : Phdr where
  p_type := 4
  p_flags := 0
  p_offset := (note_off maps).setWidth 64
  p_vaddr := 0
  p_paddr := 0
  p_filesz := note_sz.setWidth 64
  p_memsz := 0
  p_align := 0

def slack : BitVec 32 :=
  0x1000 * ((note_off maps + note_sz + 0xfff) / 0x1000) - (note_off maps + note_sz)

def load_off : BitVec 32 := note_off maps + note_sz + slack maps

def pFlags (p : Prot) : BitVec 32 :=
  (if p.read then 4 else 0) ||| (if p.write then 2 else 0) ||| (if p.exec then 1 else 0)

def loadPhdr (load_sz : BitVec 32) (gm : Mapping) : Phdr where
  p_type := 1
  p_flags := pFlags gm.curProt
  p_offset := (load_off maps + load_sz).setWidth 64
  p_vaddr := gm.offset
  p_paddr := 0
  p_filesz := gm.length
  p_memsz := gm.length
  p_align := 0x1000

/-- The loop over the mappings, with the sum of the lengths so far. -/
def loadPhdrs : BitVec 32 → List Mapping → List Phdr
  | _, [] => []
  | load_sz, gm :: gms => loadPhdr maps load_sz gm :: loadPhdrs (load_sz + gm.length.setWidth 32) gms

def pages (gm : Mapping) : ℕ := ((gm.length + 4095) / 4096).toNat

variable (mem : GuestPtr → Byte)

def page (a : GuestPtr) : List Byte := (List.range 4096).map fun b => mem (a + BitVec.ofNat 64 b)

/-- The pages of a mapping. The 32-bit counter never gets to a number of pages that does
not fit in it, and the loop does not end. -/
def writeMap (gm : Mapping) : Option (List Byte) :=
  if pages gm < 2 ^ 32 then
    some ((List.range (pages gm)).flatMap fun i =>
      page mem (gm.offset + (4096 * BitVec.ofNat 32 i).setWidth 64))
  else none

def writeMaps : List Mapping → Option (List Byte)
  | [] => some []
  | gm :: gms =>
      match writeMap mem gm, writeMaps gms with
      | some b, some bs => some (b ++ bs)
      | _, _ => none

def headers : List Byte :=
  (ehdr maps).bytes ++ (notePhdr maps).bytes ++ (loadPhdrs maps 0 maps).flatMap Phdr.bytes

variable (notes : Notes)

def noteBytes : List Byte :=
  writeNote 1 notes.prs ++ writeNote 3 notes.prps ++ writeNote 2 notes.fpr

def front : List Byte :=
  headers maps ++ noteBytes notes ++ List.replicate (slack maps).toNat 0

def writeElfCore : Option (List Byte) := (writeMaps mem maps).map fun data => front maps notes ++ data

/-- The header of the notes covers them, and each mapping is found where its header says. -/
structure Consistent (stream : List Byte) : Prop where
  note_offset : (notePhdr maps).p_offset.toNat = (headers maps).length
  note_size : (notePhdr maps).p_filesz.toNat = (noteBytes notes).length
  loads : ∀ ph ∈ loadPhdrs maps 0 maps, ∀ j < ph.p_filesz.toNat,
    stream[ph.p_offset.toNat + j]? = some (mem (ph.p_vaddr + BitVec.ofNat 64 j))

def CoreConsistent : Prop :=
  ∃ stream, writeElfCore maps mem notes = some stream ∧ Consistent maps mem notes stream

end ElfImg

end VexLLVM
