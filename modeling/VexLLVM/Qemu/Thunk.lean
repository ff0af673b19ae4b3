import VexLLVM.LLVM.Bytes
import Mathlib.Data.Int.Bitwise
import Mathlib.Logic.Function.Basic

/-!
# Thunks

The guest's structures are described by streams of codes, in which the code of an array is
followed by its length and the type of its elements, and the code of a structure by its
number. `thunk_register_struct` lays a structure out for the guest and for the host, and
`thunk_convert` copies a value from the layout of one to the layout of the other.

Streams are lists. What C leaves undefined has no result: a null or a dangling `type_ptr`, a
number past the end of `struct_entries`, and an `int` that overflows.
-/

namespace VexLLVM

open LLVM

inductive ArgType
  | null | char | short | int | long | ulong | ptrvoid | longlong | ulonglong | ptr | array | struct
  deriving DecidableEq, Repr

def ArgType.all : List ArgType :=
  [.null, .char, .short, .int, .long, .ulong, .ptrvoid, .longlong, .ulonglong, .ptr, .array,
    .struct]

/-- The type that an integer stands for, if it is one of the enumerators. -/
def ArgType.ofCode (code : ℕ) : Option ArgType := ArgType.all[code]?

/-- `THUNK_TARGET` and `THUNK_HOST`. -/
inductive Side
  | target
  | host
  deriving DecidableEq, Repr

/-- `1 - to_host`. -/
def Side.other : Side → Side
  | .target => .host
  | .host => .target

inductive LongBits
  | b32
  | b64
  deriving DecidableEq, Repr

def LongBits.size : LongBits → ℕ
  | .b32 => 4
  | .b64 => 8

/-- `HOST_LONG_BITS` and `TARGET_ABI_BITS`. -/
structure Abi where
  hostLongBits : LongBits
  targetAbiBits : LongBits
  deriving DecidableEq, Repr

/-- `HOST_LONG_SIZE` and `TARGET_ABI_BITS / 8`. -/
def Abi.longSize (abi : Abi) : Side → ℕ
  | .host => abi.hostLongBits.size
  | .target => abi.targetAbiBits.size

abbrev ProcMem := BitVec 64 → BitVec 8

structure StructEntry where
  fieldTypes : List ℕ
  nbFields : ℕ
  fieldOffsets : Side → List ℤ
  /-- Where a structure is not converted field by field. -/
  convert : Side → Option (ProcMem → BitVec 64 → BitVec 64 → ProcMem)
  size : Side → ℤ
  align : Side → ℤ
  name : String

def StructEntry.zero : StructEntry where
  fieldTypes := []
  nbFields := 0
  fieldOffsets := fun _ => []
  convert := fun _ => none
  size := fun _ => 0
  align := fun _ => 0
  name := ""

abbrev StructEntries := ℕ → StructEntry

def maxStructs : ℕ := 128

/-- `struct_entries + id`. -/
def structEntry (entries : StructEntries) (id : ℕ) : Option StructEntry :=
  if id < maxStructs then some (entries id) else none

/-- The value of an expression of type `int`. -/
def cInt (x : ℤ) : Option ℤ := if -0x80000000 ≤ x ∧ x ≤ 0x7fffffff then some x else none

def thunkTypeNext : List ℕ → Option (List ℕ)
  | [] => none
  | code :: types =>
      match ArgType.ofCode code, types with
      | some .char, _ | some .short, _ | some .int, _ | some .longlong, _ | some .ulonglong, _
      | some .long, _ | some .ulong, _ | some .ptrvoid, _ => some types
      | some .ptr, elem => thunkTypeNext elem
      | some .array, _ :: elem => thunkTypeNext elem
      | some .struct, _ :: rest => some rest
      | _, _ => none

def thunkTypeSize (abi : Abi) (entries : StructEntries) (isHost : Side) : List ℕ → Option ℤ
  | [] => none
  | code :: types =>
      match ArgType.ofCode code, types with
      | some .char, _ => some 1
      | some .short, _ => some 2
      | some .int, _ => some 4
      | some .longlong, _ | some .ulonglong, _ => some 8
      | some .long, _ | some .ulong, _ | some .ptrvoid, _ | some .ptr, _ =>
          some (abi.longSize isHost)
      | some .array, size :: elem =>
          (cInt size).bind fun size =>
            (thunkTypeSize abi entries isHost elem).bind fun elemSize => cInt (size * elemSize)
      | some .struct, id :: _ => (structEntry entries id).map fun se => se.size isHost
      | some .array, [] | some .struct, [] => none
      | _, _ => some (-1)

def thunkTypeAlign (abi : Abi) (entries : StructEntries) (isHost : Side) : List ℕ → Option ℤ
  | [] => none
  | code :: types =>
      match ArgType.ofCode code, types with
      | some .char, _ => some 1
      | some .short, _ => some 2
      | some .int, _ => some 4
      | some .longlong, _ | some .ulonglong, _ => some 8
      | some .long, _ | some .ulong, _ | some .ptrvoid, _ | some .ptr, _ =>
          some (abi.longSize isHost)
      | some .array, _ :: elem => thunkTypeAlign abi entries isHost elem
      | some .struct, id :: _ => (structEntry entries id).map fun se => se.align isHost
      | some .array, [] | some .struct, [] => none
      | _, _ => some (-1)

/-! ## Registration -/

/-- The first loop of `thunk_register_struct`; each field takes at least one code, so that
as much fuel as there are codes is enough. -/
def countFields : ℕ → List ℕ → Option ℕ
  | 0, _ => none
  | _ + 1, [] => none
  | fuel + 1, code :: types =>
      if ArgType.ofCode code = some .null then some 0
      else
        (thunkTypeNext (code :: types)).bind fun rest =>
          (countFields fuel rest).bind fun n => (cInt (n + 1)).map Int.toNat

/-- `(offset + align - 1) & ~(align - 1)`. -/
def roundTo (offset align : ℤ) : Option ℤ :=
  (cInt (offset + align)).bind fun sum =>
    (cInt (sum - 1)).bind fun last =>
      (cInt (align - 1)).map fun mask => Int.land last (Int.lnot mask)

/-- The second loop of `thunk_register_struct` for one side: the offsets of the fields, where
they end, and the greatest alignment. -/
def placeFields (abi : Abi) (entries : StructEntries) (i : Side) :
    ℕ → List ℕ → ℤ → ℤ → Option (List ℤ × ℤ × ℤ)
  | 0, _, offset, maxAlign => some ([], offset, maxAlign)
  | n + 1, types, offset, maxAlign => do
      let size ← thunkTypeSize abi entries i types
      let align ← thunkTypeAlign abi entries i types
      let start ← roundTo offset align
      let stop ← cInt (start + size)
      let rest ← thunkTypeNext types
      let r ← placeFields abi entries i n rest stop (if align > maxAlign then align else maxAlign)
      pure (start :: r.1, r.2)

def placeStruct (abi : Abi) (entries : StructEntries) (i : Side) (nbFields : ℕ)
    (types : List ℕ) : Option (List ℤ × ℤ × ℤ) := do
  let (offsets, offset, maxAlign) ← placeFields abi entries i nbFields types 0 1
  let size ← roundTo offset maxAlign
  pure (offsets, size, maxAlign)

def thunkRegisterStruct (abi : Abi) (entries : StructEntries) (id : ℕ) (name : String)
    (types : List ℕ) : Option StructEntries := do
  let se ← structEntry entries id
  let nbFields ← countFields types.length types
  let target ← placeStruct abi entries .target nbFields types
  let host ← placeStruct abi entries .host nbFields types
  let sides : Side → List ℤ × ℤ × ℤ := fun | .target => target | .host => host
  pure (Function.update entries id
    { se with
      fieldTypes := types
      nbFields := nbFields
      name := name
      fieldOffsets := fun i => (sides i).1
      size := fun i => (sides i).2.1
      align := fun i => (sides i).2.2 })

def thunkRegisterStructDirect (entries : StructEntries) (id : ℕ) (name : String)
    (se : StructEntry) : Option StructEntries :=
  (structEntry entries id).map fun _ => Function.update entries id { se with name := name }

/-! ## Conversion -/

/-- `*(uintN_t *)dst = tswapN(*(uintN_t *)src)`, where `tswapN` is the identity. -/
def copyWord (n : ℕ) (mem : ProcMem) (dst src : BitVec 64) : ProcMem :=
  writeBytes mem dst n (readBytes mem src n)

/-- `*(uint64_t *)dst` set from four bytes, with their sign if there is one. -/
def widenWord (signed : Bool) (mem : ProcMem) (dst src : BitVec 64) : ProcMem :=
  let x := readBytes mem src 4
  writeBytes mem dst 8 (if signed then ((BitVec.ofNat 32 x).signExtend 64).toNat else x)

/-- The cases of `TYPE_LONG`, which is signed, `TYPE_ULONG` and `TYPE_PTRVOID`. -/
def convertLong (abi : Abi) (toHost : Side) (signed : Bool) (mem : ProcMem)
    (dst src : BitVec 64) : ProcMem :=
  match abi.hostLongBits, abi.targetAbiBits, toHost with
  | .b32, .b32, _ => copyWord 4 mem dst src
  | .b64, .b32, .host => widenWord signed mem dst src
  | .b64, .b32, .target => writeBytes mem dst 4 (readBytes mem src 8 &&& 0xffffffff)
  | .b64, .b64, _ => copyWord 8 mem dst src
  | .b32, .b64, .host => writeBytes mem dst 4 (readBytes mem src 8)
  | .b32, .b64, .target => widenWord signed mem dst src

def convertElems (conv : ProcMem → BitVec 64 → BitVec 64 → Option ProcMem) (dstSize srcSize : ℤ) :
    ℕ → ProcMem → BitVec 64 → BitVec 64 → Option ProcMem
  | 0, mem, _, _ => some mem
  | n + 1, mem, d, s =>
      (conv mem d s).bind fun mem =>
        convertElems conv dstSize srcSize n mem (d + BitVec.ofInt 64 dstSize)
          (s + BitVec.ofInt 64 srcSize)

/-- The loop over the fields of a structure, for a conversion that returns what is left of the
stream. -/
def convertFields (conv : ProcMem → BitVec 64 → BitVec 64 → List ℕ → Option (ProcMem × List ℕ))
    (d s : BitVec 64) : ℕ → List ℤ → List ℤ → ProcMem → List ℕ → Option ProcMem
  | 0, _, _, mem, _ => some mem
  | n + 1, dstOffset :: dstOffsets, srcOffset :: srcOffsets, mem, types =>
      (conv mem (d + BitVec.ofInt 64 dstOffset) (s + BitVec.ofInt 64 srcOffset) types).bind
        fun r => convertFields conv d s n dstOffsets srcOffsets r.1 r.2
  | _ + 1, _, _, _, _ => none

/-- The memory after the conversion, and what is left of the stream. Fuel bounds the depth of
the calls. -/
def thunkConvert (abi : Abi) (entries : StructEntries) (toHost : Side) :
    ℕ → ProcMem → BitVec 64 → BitVec 64 → List ℕ → Option (ProcMem × List ℕ)
  | 0, _, _, _, _ => none
  | _ + 1, _, _, _, [] => none
  | fuel + 1, mem, dst, src, code :: types =>
      match ArgType.ofCode code, types with
      | some .char, _ => some (copyWord 1 mem dst src, types)
      | some .short, _ => some (copyWord 2 mem dst src, types)
      | some .int, _ => some (copyWord 4 mem dst src, types)
      | some .longlong, _ | some .ulonglong, _ => some (copyWord 8 mem dst src, types)
      | some .long, _ => some (convertLong abi toHost true mem dst src, types)
      | some .ulong, _ | some .ptrvoid, _ =>
          some (convertLong abi toHost false mem dst src, types)
      | some .array, length :: elem => do
          let arrayLength ← cInt length
          let dstSize ← thunkTypeSize abi entries toHost elem
          let srcSize ← thunkTypeSize abi entries toHost.other elem
          let mem ← convertElems
            (fun mem d s => (thunkConvert abi entries toHost fuel mem d s elem).map Prod.fst)
            dstSize srcSize arrayLength.toNat mem dst src
          let rest ← thunkTypeNext elem
          pure (mem, rest)
      | some .struct, id :: rest => do
          let se ← structEntry entries id
          match se.convert .target with
          | some _ => (se.convert toHost).map fun convert => (convert mem dst src, rest)
          | none =>
              (convertFields (thunkConvert abi entries toHost fuel) dst src se.nbFields
                (se.fieldOffsets toHost) (se.fieldOffsets toHost.other) mem se.fieldTypes).map
                fun mem => (mem, rest)
      | some .array, [] | some .struct, [] => none
      -- `fprintf(stderr, "Invalid type 0x%x\n", type)`
      | _, _ => some (mem, types)

end VexLLVM
