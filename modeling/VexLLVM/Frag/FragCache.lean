import VexLLVM.Lib.Search
import VexLLVM.Lib.Triple
import Mathlib.Algebra.Ring.Int.Defs
import Mathlib.Data.BitVec
import Mathlib.Data.List.AList
import Mathlib.Data.List.Lex

/-!
# The fragment cache

`FragCache`: a hash table, and a file of sorted fragments for each length, both with
a part that is not written yet. The directory outlives the object, so both are in one
state. A fragment is looked up among the bytes at an address, which have no end.

The record of a pending hash never gets a length, and the bytes behind a digest are
whatever is behind it on the stack. They are an argument of the operations.
-/

namespace VexLLVM

open StateExcept Search

namespace FragCache

abbrev Bytes := ℕ → BitVec 8
abbrev Frag := List (BitVec 8)

def firstBytes (b : Bytes) (n : ℕ) : Frag := (List.range n).map b

@[simp] theorem length_firstBytes (b : Bytes) (n : ℕ) : (firstBytes b n).length = n := by
  simp [firstBytes]

/-- What `memcmp` compares. -/
def memKey (f : Frag) : List ℕ := f.map BitVec.toNat

theorem memKey_injective : Function.Injective memKey :=
  List.map_injective_iff.2 fun _ _ h => BitVec.eq_of_toNat_eq h

/-- The conversion of an `unsigned` to an `int`. -/
def toInt (n : ℕ) : ℤ := (BitVec.ofNat 32 n).toInt

def FLUSH_FCF_TRIGGER : ℕ := 1024
def FLUSH_FCH_TRIGGER : ℕ := 1024
def FCHASH_NOTFOUND : ℤ := -1
def FCHASH_COLLISION : ℤ := -2

structure FchashRec where
  md : Frag
  len : BitVec 16
  deriving DecidableEq

namespace FchashRec

def bytes (r : FchashRec) : Frag := r.md ++ [r.len.extractLsb' 0 8, r.len.extractLsb' 8 8]

def key (r : FchashRec) : List ℕ := memKey r.bytes

end FchashRec

def sizeofRec : ℕ := 22

structure FCHash where
  file : List FchashRec
  f_mmap_sz : ℕ
  pending : List (FchashRec × ℤ)

/-- `FCFile`. Its file is in the directory. -/
structure FCFile where
  len : ℕ
  f_mmap_sz : ℕ
  buffer : List Frag

structure FragState where
  files : AList fun _ : ℕ => List Frag
  hash : FCHash
  cachetab : List (Option FCFile)
  /-- All fragments that were added so far. Nothing in the cache looks at it. -/
  added : List Frag

def FragState.init : FragState := ⟨∅, ⟨[], 0, []⟩, [], []⟩

abbrev FragM := StateT FragState (Except String)

def mmapSize (len count : ℕ) : ℕ := len * count % 2 ^ 32

namespace FCHash

variable (h : FCHash)

def mapped : List FchashRec := h.file.take (h.f_mmap_sz / sizeofRec)

def findHashRec (bytes : Frag) : Option FchashRec :=
  if h.f_mmap_sz = 0 then none else bsearch FchashRec.key h.mapped (memKey bytes)

def findHashInFile (md junk : Frag) : ℤ :=
  match h.findHashRec (md ++ junk) with
  | none => FCHASH_NOTFOUND
  | some r => if r.len = 0 then FCHASH_COLLISION else r.len.toNat

def findHashInPending (md : Frag) : ℤ :=
  match h.pending.find? fun p => p.1.md = md with
  | none => FCHASH_NOTFOUND
  | some p => p.1.len.toNat

def findHash (md junk : Frag) : ℤ :=
  let ret := h.findHashInFile md junk
  if 0 < ret ∨ ret = FCHASH_COLLISION then ret else h.findHashInPending md

variable (sha1 : Frag → Frag) (b : Bytes) (junk : ℕ → Frag)

/-- The loop of `lookup`: `n` more lengths, from `i` on. -/
def lookupFrom : ℕ → ℕ → ℤ
  | 0, _ => -1
  | n + 1, i =>
      let ret := h.findHash (sha1 (firstBytes b (i + 1))) (junk i)
      if 0 < ret ∨ ret = FCHASH_COLLISION then ret else lookupFrom n (i + 1)

def lookup (max_len : ℕ) : ℤ := h.lookupFrom sha1 b junk max_len 1

def markCollisions : List (FchashRec × ℤ) → FCHash → Except String FCHash
  | [], h => .ok h
  | p :: ps, h =>
      if p.2 ≤ 0 then markCollisions ps h
      else
        match h.findHashRec p.1.bytes with
        | none => .error "r != NULL && r->len != 0"
        | some r =>
            if r.len = 0 then .error "r != NULL && r->len != 0"
            else markCollisions ps { h with file := h.file.replace r { r with len := 0 } }

def mmapFD : FCHash := { h with f_mmap_sz := mmapSize sizeofRec h.file.length }

def sortFile : FCHash :=
  { h with file := qsort FchashRec.key h.mapped ++ h.file.drop (h.f_mmap_sz / sizeofRec) }

def flush : Except String FCHash :=
  match markCollisions h.pending h with
  | .error e => .error e
  | .ok h' =>
      let new := h.pending.filter fun p => p.2 ≤ 0
      if new = [] then .ok { h' with pending := [] }
      else
        let h' := mmapFD { h' with file := h'.file ++ new.map Prod.fst, pending := [] }
        if h'.f_mmap_sz = 0 then .error "f_mmap != NULL" else .ok h'.sortFile

/-- `add`. The length of the record stays what the constructor of the pair makes it. -/
def add (len : ℕ) : Except String FCHash :=
  let rc := h.lookup sha1 b junk len
  if rc = toInt len ∨ rc = FCHASH_COLLISION then .ok h
  else
    let h' := { h with pending := h.pending ++ [(⟨sha1 (firstBytes b len), 0⟩, rc)] }
    if FLUSH_FCH_TRIGGER < h'.pending.length then h'.flush else .ok h'

end FCHash

def FragState.frags (s : FragState) (len : ℕ) : List Frag := (s.files.lookup len).getD []

def FCFile.mapped (f : FCFile) (frags : List Frag) : List Frag := frags.take (f.f_mmap_sz / f.len)

def FCFile.containsFile (f : FCFile) (frags : List Frag) (b : Bytes) : Bool :=
  if f.f_mmap_sz = 0 then false
  else (bsearch memKey (f.mapped frags) (memKey (firstBytes b f.len))).isSome

def FCFile.containsBuffer (f : FCFile) (b : Bytes) : Bool :=
  f.buffer.any fun g => g = firstBytes b f.len

def FCFile.contains (f : FCFile) (frags : List Frag) (b : Bytes) : Bool :=
  f.containsFile frags b || f.containsBuffer b

/-- `FCFile::open`. The file is made if there is none. -/
def openFile (len : ℕ) : FragM FCFile := do
  let s ← get
  if len = 0 then throw "in_len > 0"
  else do
    set { s with files := s.files.insert len (s.frags len) }
    pure ⟨len, mmapSize len (s.frags len).length, []⟩

def resized (tab : List (Option FCFile)) (len : ℕ) : List (Option FCFile) :=
  tab ++ List.replicate (len + 1 - tab.length) none

/-- `loadCacheFile`. The size of the table is an `unsigned`. -/
def loadCacheFile (len : ℕ) : FragM Unit := do
  let fcf ← openFile len
  let s ← get
  if s.cachetab.length ≤ len ∧ 2 ^ 32 ≤ len + 1 then throw "cachetab[len]"
  else
    match (s.cachetab[len]?).join with
    | some _ => throw "cachetab[len] == NULL"
    | none => set { s with cachetab := (resized s.cachetab len).set len (some fcf) }

/-- `loadDir`: the files with a number for a name. -/
def loadDir : FragM Unit := do
  let s ← get
  s.files.keys.forM loadCacheFile

/-- `FCFile::flush`, with the sorting of the mapped part. -/
def flushFile (f : FCFile) : FragM FCFile := do
  if f.buffer = [] then pure f
  else do
    let s ← get
    let all := s.frags f.len ++ f.buffer
    let f' : FCFile := ⟨f.len, mmapSize f.len all.length, []⟩
    let sorted := qsort memKey (f'.mapped all) ++ all.drop (f'.f_mmap_sz / f'.len)
    set { s with files := s.files.insert f.len sorted }
    pure f'

def getFCFile (len : ℕ) : FragM FCFile := do
  let s ← get
  match (s.cachetab[len]?).join with
  | some f => pure f
  | none => do
      let _ ← openFile len
      loadCacheFile len
      let s ← get
      match (s.cachetab[len]?).join with
      | some f => pure f
      | none => throw "fcf != NULL"

/-- `FCFile::add`, which leaves the object in the table. -/
def addToFile (f : FCFile) (b : Bytes) : FragM Unit := do
  let f' : FCFile := { f with buffer := f.buffer ++ [firstBytes b f.len] }
  if FLUSH_FCF_TRIGGER < f'.buffer.length then do
    let f'' ← flushFile f'
    modify fun s => { s with cachetab := s.cachetab.set f.len (some f'') }
  else modify fun s => { s with cachetab := s.cachetab.set f.len (some f') }

variable (sha1 : Frag → Frag)

def addFragment (b : Bytes) (len : ℕ) (junk : ℕ → Frag) : FragM Bool := do
  modify fun s => { s with added := firstBytes b len :: s.added }
  let f ← getFCFile len
  let s ← get
  if f.contains (s.frags f.len) b then pure false
  else
    match s.hash.add sha1 b junk len with
    | .error e => throw e
    | .ok h => do
        set { s with hash := h }
        addToFile f b
        pure true

def searchTab (s : FragState) (b : Bytes) : Option ℕ :=
  s.cachetab.findSome? fun o => o.bind fun f => if f.contains (s.frags f.len) b then some f.len else none

def loadIfEmpty : FragM Unit := do
  let s ← get
  if s.cachetab.length = 0 then loadDir else pure ()

def findLength (b : Bytes) (junk : ℕ → Frag) : FragM ℤ := do
  let s ← get
  let ret := s.hash.lookup sha1 b junk (if s.cachetab.length ≠ 0 then s.cachetab.length else 1024)
  if 0 < ret then pure ret
  else do
    loadIfEmpty
    let s ← get
    match searchTab s b with
    | some len => pure (toInt len)
    | none => pure (-1)

/-- The end of an object, and a new one on the same directory. -/
def reopen : FragM Unit := do
  let s ← get
  (s.cachetab.filterMap id).forM fun f => do
    let _ ← flushFile f
    pure ()
  let s ← get
  match s.hash.flush with
  | .error e => throw e
  | .ok h => set { s with hash := FCHash.mmapFD { h with pending := [] }, cachetab := [] }

inductive FragOp where
  | addFragment (b : Bytes) (len : ℕ) (junk : ℕ → Frag)
  | findLength (b : Bytes) (junk : ℕ → Frag)
  | reopen

def FragOp.exec : FragOp → FragM Unit
  | addFragment b len junk => do
      let _ ← FragCache.addFragment sha1 b len junk
      pure ()
  | findLength b junk => do
      let _ ← FragCache.findLength sha1 b junk
      pure ()
  | reopen => FragCache.reopen

/-- The state that sessions on a directory that is empty at first lead to. Fragments are
not empty, and their lengths are `unsigned`. -/
inductive History : FragState → Prop where
  | init : History .init
  | step {s t : FragState} {op : FragOp} (prev : History s)
      (hop : ∀ b len junk, op = .addFragment b len junk → 1 ≤ len ∧ len < 2 ^ 32)
      (h : op.exec sha1 s = .ok ((), t)) : History t

end FragCache

end VexLLVM
