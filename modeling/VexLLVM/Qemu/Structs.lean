import VexLLVM.Lib.CLayout
import VexLLVM.Qemu.Thunk

/-!
# Registered structures

A run of registrations declares structures, each in terms of those declared before. After
it, every entry of `struct_entries` has the layout that the rule of C gives the structure
on each side.
-/

namespace VexLLVM

open CLayout

/-- The types that are one word; `ptr` is a pointer to what has a type of its own. -/
inductive Prim
  | char | short | int | long | ulong | ptrvoid | longlong | ulonglong | ptr
  deriving DecidableEq, Repr

def Prim.ofArg : ArgType → Option Prim
  | .char => some .char
  | .short => some .short
  | .int => some .int
  | .long => some .long
  | .ulong => some .ulong
  | .ptrvoid => some .ptrvoid
  | .longlong => some .longlong
  | .ulonglong => some .ulonglong
  | .null | .ptr | .array | .struct => none

def Prim.size (abi : Abi) (side : Side) : Prim → ℕ
  | .char => 1
  | .short => 2
  | .int => 4
  | .longlong | .ulonglong => 8
  | .long | .ulong | .ptrvoid | .ptr => abi.longSize side

inductive Decl
  | standard (fields : List (CType Prim))
  | special

abbrev Decls := ℕ → Option Decl

def Decl.type? : Option Decl → Option (CType Prim)
  | some (.standard fields) => some (.struct fields)
  | _ => none

/-- The type at the head of a stream, and what is left of the stream. -/
def readType (decls : Decls) : List ℕ → Option (CType Prim × List ℕ)
  | [] => none
  | code :: types =>
      match ArgType.ofCode code, types with
      | some .ptr, pointee => (thunkTypeNext pointee).map fun rest => (.scalar .ptr, rest)
      | some .array, n :: elem =>
          if n < 2 ^ 31 then (readType decls elem).map fun r => (.array n r.1, r.2) else none
      | some .struct, id :: rest => (Decl.type? (decls id)).map fun t => (t, rest)
      | some a, rest => (Prim.ofArg a).map fun p => (.scalar p, rest)
      | none, _ => none

def readFields (decls : Decls) : ℕ → List ℕ → Option (List (CType Prim))
  | 0, _ => none
  | _ + 1, [] => none
  | fuel + 1, code :: types =>
      if ArgType.ofCode code = some .null then some []
      else (readType decls (code :: types)).bind fun r => (readFields decls fuel r.2).map (r.1 :: ·)

inductive Registration
  | struct (id : ℕ) (name : String) (types : List ℕ)
  | direct (id : ℕ) (name : String) (se : StructEntry)

def Registration.run (abi : Abi) (entries : StructEntries) : Registration → Option StructEntries
  | .struct id name types => thunkRegisterStruct abi entries id name types
  | .direct id name se => thunkRegisterStructDirect entries id name se

def registerAll (abi : Abi) (rs : List Registration) : Option StructEntries :=
  rs.foldlM (Registration.run abi) fun _ => .zero

def Registration.id : Registration → ℕ
  | .struct id _ _ => id
  | .direct id _ _ => id

def Registration.decl (decls : Decls) : Registration → Option Decl
  | .struct _ _ types => (readFields decls types.length types).map .standard
  | .direct _ _ _ => some .special

/-- A number of the table is declared once, by fields whose structures are declared already. -/
def Registration.declare (decls : Decls) (r : Registration) : Option Decls :=
  if (decls r.id).isSome ∨ maxStructs ≤ r.id then none
  else (r.decl decls).map fun d => Function.update decls r.id (some d)

def declareAll (rs : List Registration) : Option Decls :=
  rs.foldlM Registration.declare fun _ => none

/-- The sizes of a type, of the types it is made of, and of what it is padded from are those
of an `int`. -/
def IntSized (abi : Abi) (t : CType Prim) : Prop :=
  ∀ side, t.maxSize (Prim.size abi side) + 8 < 2 ^ 31

/-- Every structure that is declared has as many fields, and is as large, as an `int` counts. -/
def Decls.Fit (abi : Abi) (decls : Decls) : Prop :=
  ∀ id fields, decls id = some (.standard fields) →
    fields.length < 2 ^ 31 ∧ IntSized abi (.struct fields)

/-! ## Reading a stream -/

variable {abi : Abi} {entries : StructEntries} {decls decls' : Decls} {types rest : List ℕ}
    {t : CType Prim} {fields : List (CType Prim)} {side : Side} {fuel : ℕ}

inductive ReadsAs (decls : Decls) : List ℕ → CType Prim → List ℕ → Prop
  | scalar {code a p types} (hcode : ArgType.ofCode code = some a) (hp : Prim.ofArg a = some p) :
      ReadsAs decls (code :: types) (.scalar p) types
  | ptr {code pointee rest} (hcode : ArgType.ofCode code = some .ptr)
      (hnext : thunkTypeNext pointee = some rest) :
      ReadsAs decls (code :: pointee) (.scalar .ptr) rest
  | array {code n elem t rest} (hcode : ArgType.ofCode code = some .array) (hn : n < 2 ^ 31)
      (helem : ReadsAs decls elem t rest) : ReadsAs decls (code :: n :: elem) (.array n t) rest
  | struct {code id rest fields} (hcode : ArgType.ofCode code = some .struct)
      (hdecl : decls id = some (.standard fields)) :
      ReadsAs decls (code :: id :: rest) (.struct fields) rest

theorem Decl.type?_eq_some {d : Option Decl} (h : Decl.type? d = some t) :
    ∃ fields, d = some (.standard fields) ∧ t = .struct fields := by
  match d, h with
  | some (.standard fields), rfl => exact ⟨fields, rfl, rfl⟩

theorem readsAs_of_readType (h : readType decls types = some (t, rest)) :
    ReadsAs decls types t rest := by
  induction types using readType.induct generalizing t rest with
  | case1 => cases h
  | case2 code pointee hcode =>
      simp only [readType, hcode] at h
      obtain ⟨u, hu, heq⟩ := Option.map_eq_some_iff.mp h
      cases heq
      exact .ptr hcode hu
  | case3 code n elem hcode hn ih =>
      simp only [readType, hcode, if_pos hn] at h
      obtain ⟨r, hr, heq⟩ := Option.map_eq_some_iff.mp h
      cases heq
      exact .array hcode hn (ih hr)
  | case4 code n elem hcode hn =>
      simp only [readType, hcode, if_neg hn] at h
      cases h
  | case5 code id rest' hcode =>
      simp only [readType, hcode] at h
      obtain ⟨u, hu, heq⟩ := Option.map_eq_some_iff.mp h
      cases heq
      obtain ⟨fields, hd, rfl⟩ := Decl.type?_eq_some hu
      exact .struct hcode hd
  | case6 code a types h₁ h₂ h₃ hcode =>
      rw [readType.eq_5 decls code types a h₁ hcode h₂ h₃] at h
      obtain ⟨p, hp, heq⟩ := Option.map_eq_some_iff.mp h
      cases heq
      exact .scalar hcode hp
  | case7 code types hcode =>
      simp only [readType, hcode] at h
      cases h

theorem ReadsAs.mono (h : ReadsAs decls types t rest)
    (hle : ∀ id d, decls id = some d → decls' id = some d) : ReadsAs decls' types t rest := by
  induction h with
  | scalar hcode hp => exact .scalar hcode hp
  | ptr hcode hnext => exact .ptr hcode hnext
  | array hcode hn _ ih => exact .array hcode hn ih
  | struct hcode hdecl => exact .struct hcode (hle _ _ hdecl)

theorem ReadsAs.thunkTypeNext (h : ReadsAs decls types t rest) :
    thunkTypeNext types = some rest := by
  induction h with
  | scalar hcode hp =>
      rename_i a _ _
      cases a <;> cases hp <;> simp only [VexLLVM.thunkTypeNext, hcode]
  | ptr hcode hnext => simp only [VexLLVM.thunkTypeNext, hcode, hnext]
  | array hcode hn _ ih => simp only [VexLLVM.thunkTypeNext, hcode, ih]
  | struct hcode hdecl => simp only [VexLLVM.thunkTypeNext, hcode]

/-- The fields at the head of a stream, which a null code ends. -/
inductive Holds (decls : Decls) : List ℕ → List (CType Prim) → Prop
  | nil {code : ℕ} {types : List ℕ} (hcode : ArgType.ofCode code = some .null) :
      Holds decls (code :: types) []
  | cons {types rest : List ℕ} {t : CType Prim} {fields : List (CType Prim)}
      (hhead : ReadsAs decls types t rest) (htail : Holds decls rest fields) :
      Holds decls types (t :: fields)

theorem holds_of_readFields (h : readFields decls fuel types = some fields) :
    Holds decls types fields := by
  induction fuel generalizing types fields with
  | zero => cases h
  | succ fuel ih =>
      cases types with
      | nil => cases h
      | cons code types =>
          rw [readFields] at h
          split at h
          · next hcode =>
              cases h
              exact .nil hcode
          · obtain ⟨r, hr, hbind⟩ := Option.bind_eq_some_iff.mp h
            obtain ⟨fs, hfs, heq⟩ := Option.map_eq_some_iff.mp hbind
            cases heq
            exact .cons (readsAs_of_readType hr) (ih hfs)

theorem Holds.mono (h : Holds decls types fields)
    (hle : ∀ id d, decls id = some d → decls' id = some d) : Holds decls' types fields := by
  induction h with
  | nil hcode => exact .nil hcode
  | cons hhead _ ih => exact .cons (hhead.mono hle) ih

/-- A number that an `int` holds. -/
theorem cInt_natCast {n : ℕ} (h : n < 2 ^ 31) : cInt n = some (n : ℤ) := if_pos (by omega)

/-- The fuel of `countFields` lasts as long as that of `readFields`. -/
theorem countFields_of_readFields (h : readFields decls fuel types = some fields)
    (hlen : fields.length < 2 ^ 31) : countFields fuel types = some fields.length := by
  induction fuel generalizing types fields with
  | zero => cases h
  | succ fuel ih =>
      cases types with
      | nil => cases h
      | cons code types =>
          rw [readFields] at h
          rw [countFields]
          split at h
          · next hcode =>
              cases h
              rw [if_pos hcode]
              rfl
          · next hcode =>
              obtain ⟨r, hr, hbind⟩ := Option.bind_eq_some_iff.mp h
              obtain ⟨fs, hfs, heq⟩ := Option.map_eq_some_iff.mp hbind
              cases heq
              rw [List.length_cons] at hlen ⊢
              rw [if_neg hcode, (readsAs_of_readType hr).thunkTypeNext, Option.bind_some,
                ih hfs (by omega), Option.bind_some, ← Nat.cast_succ, cInt_natCast hlen,
                Option.map_some, Int.toNat_natCast]

/-! ## Layouts -/

theorem prim_binary (abi : Abi) (side : Side) : Binary (Prim.size abi side) := by
  intro p
  have hlong : ∃ k, abi.longSize side = 2 ^ k := by
    have hbits : ∀ b : LongBits, ∃ k, b.size = 2 ^ k
      | .b32 => ⟨2, rfl⟩
      | .b64 => ⟨3, rfl⟩
    cases side
    · exact hbits abi.targetAbiBits
    · exact hbits abi.hostLongBits
  cases p
  case char => exact ⟨0, rfl⟩
  case short => exact ⟨1, rfl⟩
  case int => exact ⟨2, rfl⟩
  case longlong | ulonglong => exact ⟨3, rfl⟩
  case long | ulong | ptrvoid | ptr => exact hlong

theorem LongBits.size_le (b : LongBits) : b.size ≤ 8 := by
  cases b <;> decide

theorem Prim.size_le (abi : Abi) (side : Side) (p : Prim) : p.size abi side ≤ 8 := by
  cases p
  case long | ulong | ptrvoid | ptr =>
    cases side
    · exact abi.targetAbiBits.size_le
    · exact abi.hostLongBits.size_le
  all_goals exact Nat.le_of_ble_eq_true rfl

theorem align_le (abi : Abi) (side : Side) (t : CType Prim) :
    t.align (Prim.size abi side) ≤ 8 :=
  align_le_of_size_le (Prim.size_le abi side) (by decide) t

structure EntryOK (abi : Abi) (decls : Decls) (fields : List (CType Prim)) (se : StructEntry) :
    Prop where
  fieldTypes : Holds decls se.fieldTypes fields
  nbFields : se.nbFields = fields.length
  convert : ∀ i, se.convert i = none
  fieldOffsets : ∀ i, se.fieldOffsets i = (fieldOffsets (Prim.size abi i) 0 fields).map (↑)
  size : ∀ i, se.size i = (CType.struct fields).size (Prim.size abi i)
  align : ∀ i, se.align i = fieldsAlign (Prim.size abi i) fields

structure Represents (abi : Abi) (entries : StructEntries) (decls : Decls) : Prop where
  bound : ∀ id, decls id ≠ none → id < maxStructs
  standard : ∀ id fields, decls id = some (.standard fields) →
    EntryOK abi decls fields (entries id)
  fresh : ∀ id, decls id = none → ∀ i, (entries id).convert i = none

theorem Represents.structEntry (hrep : Represents abi entries decls) {id : ℕ}
    (h : decls id = some (.standard fields)) : structEntry entries id = some (entries id) :=
  if_pos (hrep.bound id (h ▸ Option.some_ne_none _))

/-- The size of a type that an `int` holds, with those of the types inside. -/
theorem ReadsAs.thunkTypeSize (hrep : Represents abi entries decls)
    (h : ReadsAs decls types t rest) (ht : t.maxSize (Prim.size abi side) < 2 ^ 31) :
    thunkTypeSize abi entries side types = some (t.size (Prim.size abi side) : ℤ) := by
  induction h with
  | scalar hcode hp =>
      rename_i a _ _
      cases a <;> cases hp <;> simp only [VexLLVM.thunkTypeSize, hcode] <;> rfl
  | ptr hcode hnext =>
      simp only [VexLLVM.thunkTypeSize, hcode]
      rfl
  | array hcode hn _ ih =>
      obtain ⟨hsize, helem⟩ := max_lt_iff.mp ht
      simp only [VexLLVM.thunkTypeSize, hcode, cInt_natCast hn, ih helem, Option.bind_some]
      rw [← Nat.cast_mul, cInt_natCast hsize]
      rfl
  | struct hcode hdecl =>
      simp only [VexLLVM.thunkTypeSize, hcode, hrep.structEntry hdecl, Option.map_some,
        (hrep.standard _ _ hdecl).size]

theorem ReadsAs.thunkTypeAlign (hrep : Represents abi entries decls)
    (h : ReadsAs decls types t rest) :
    thunkTypeAlign abi entries side types = some (t.align (Prim.size abi side) : ℤ) := by
  induction h with
  | scalar hcode hp =>
      rename_i a _ _
      cases a <;> cases hp <;> simp only [VexLLVM.thunkTypeAlign, hcode] <;> rfl
  | ptr hcode hnext =>
      simp only [VexLLVM.thunkTypeAlign, hcode]
      rfl
  | array hcode hn _ ih => simp only [VexLLVM.thunkTypeAlign, hcode, ih, CType.align]
  | struct hcode hdecl =>
      simp only [VexLLVM.thunkTypeAlign, hcode, hrep.structEntry hdecl, Option.map_some,
        (hrep.standard _ _ hdecl).align, CType.align]

/-- Clearing the low bits rounds up. -/
theorem land_lnot_eq (n k : ℕ) : Int.land (n + 2 ^ k - 1 : ℕ) (Int.lnot (2 ^ k - 1 : ℕ)) =
    alignUp n (2 ^ k) := by
  rw [alignUp_eq]
  change ((Nat.ldiff (n + 2 ^ k - 1) (2 ^ k - 1) : ℕ) : ℤ) = _
  congr 1
  apply Nat.eq_of_testBit_eq
  intro i
  rw [Nat.testBit_ldiff, Nat.testBit_two_pow_sub_one, Nat.testBit_mul_two_pow,
    ← Nat.shiftRight_eq_div_pow, Nat.testBit_shiftRight]
  by_cases hi : i < k
  · simp [hi]
  · simp [Nat.not_lt.mp hi, Nat.add_sub_of_le (Nat.not_lt.mp hi)]

theorem roundTo_eq {n a : ℕ} (ha : ∃ k, a = 2 ^ k) (h : n + a < 2 ^ 31) :
    roundTo n a = some (alignUp n a : ℤ) := by
  obtain ⟨k, rfl⟩ := ha
  have hpos : 0 < 2 ^ k := Nat.two_pow_pos k
  have h₁ : ((n + 2 ^ k : ℕ) : ℤ) - 1 = (n + 2 ^ k - 1 : ℕ) := by omega
  have h₂ : ((2 ^ k : ℕ) : ℤ) - 1 = (2 ^ k - 1 : ℕ) := by omega
  rw [roundTo, ← Nat.cast_add, cInt_natCast h, Option.bind_some, h₁, cInt_natCast (by omega),
    Option.bind_some, h₂, cInt_natCast (by omega), Option.map_some, land_lnot_eq]

/-- The loop over the fields places them by the rule. -/
theorem placeFields_of_holds (hrep : Represents abi entries decls) (side : Side)
    (h : Holds decls types fields) (pos : ℕ) {a : ℕ} (ha : 0 < a)
    (hend : fieldsEnd (Prim.size abi side) pos fields + 8 < 2 ^ 31)
    (hmax : fieldsMaxSize (Prim.size abi side) fields < 2 ^ 31) :
    placeFields abi entries side fields.length types pos a =
      some ((fieldOffsets (Prim.size abi side) pos fields).map Nat.cast,
        (fieldsEnd (Prim.size abi side) pos fields : ℤ),
        ((max a (fieldsAlign (Prim.size abi side) fields) : ℕ) : ℤ)) := by
  induction h generalizing pos a with
  | nil hcode => rw [fieldsAlign, max_eq_left ha]; rfl
  | cons hhead htail ih =>
      rename_i t fields
      obtain ⟨hhmax, htmax⟩ := max_lt_iff.mp hmax
      have hpos : 0 < t.align (Prim.size abi side) := align_pos (prim_binary abi side) t
      have hle := le_alignUp (n := pos) hpos
      have hstop : alignUp pos (t.align (Prim.size abi side)) + t.size (Prim.size abi side) ≤
          fieldsEnd (Prim.size abi side) pos (t :: fields) := le_fieldsEnd (prim_binary abi side)
      have hal := align_le abi side t
      have hmaxAlign : (if (t.align (Prim.size abi side) : ℤ) > a
          then (t.align (Prim.size abi side) : ℤ) else a) =
          (max a (t.align (Prim.size abi side)) : ℕ) := by
        split <;> omega
      have hround := roundTo_eq (n := pos) (align_binary (prim_binary abi side) t) (by omega)
      simp only [List.length_cons, placeFields, hhead.thunkTypeSize hrep hhmax,
        hhead.thunkTypeAlign hrep, hhead.thunkTypeNext, hround, hmaxAlign, Option.bind_eq_bind,
        Option.bind_some]
      rw [← Nat.cast_add, cInt_natCast (by omega), Option.bind_some,
        ih _ (lt_max_of_lt_left ha) hend htmax, max_assoc]
      rfl

/-- A structure is laid out by the rule. -/
theorem placeStruct_of_holds (hrep : Represents abi entries decls) (side : Side)
    (h : Holds decls types fields) (hsize : IntSized abi (.struct fields)) :
    placeStruct abi entries side fields.length types =
      some ((fieldOffsets (Prim.size abi side) 0 fields).map Nat.cast,
        ((CType.struct fields).size (Prim.size abi side) : ℤ),
        (fieldsAlign (Prim.size abi side) fields : ℤ)) := by
  have hone : max 1 (fieldsAlign (Prim.size abi side) fields) =
      fieldsAlign (Prim.size abi side) fields :=
    max_eq_right (fieldsAlign_pos (prim_binary abi side) fields)
  have hbound := hsize side
  rw [CType.maxSize] at hbound
  have hle := le_alignUp (n := fieldsEnd (Prim.size abi side) 0 fields)
    (fieldsAlign_pos (prim_binary abi side) fields)
  have hal : fieldsAlign (Prim.size abi side) fields ≤ 8 := align_le abi side (.struct fields)
  have hplace := placeFields_of_holds hrep side h 0 Nat.one_pos (by omega) (by omega)
  have hround := roundTo_eq (n := fieldsEnd (Prim.size abi side) 0 fields)
    (align_binary (prim_binary abi side) (.struct fields)) (by rw [CType.align]; omega)
  rw [CType.align] at hround
  rw [hone, Nat.cast_zero, Nat.cast_one] at hplace
  simp only [placeStruct, hplace, hround, Option.bind_eq_bind, Option.bind_some]
  rfl

theorem Represents.mono (hrep : Represents abi entries decls) {id : ℕ} {d : Decl}
    {se : StructEntry} (hid : id < maxStructs) (hnone : decls id = none)
    (hse : ∀ fields, d = .standard fields → EntryOK abi decls fields se) :
    Represents abi (Function.update entries id se) (Function.update decls id (some d)) := by
  have hle : ∀ i c, decls i = some c → Function.update decls id (some d) i = some c := by
    intro i c hi
    rw [Function.update_of_ne (fun heq => by rw [heq, hnone] at hi; cases hi), hi]
  have hmono : ∀ fields x, EntryOK abi decls fields x →
      EntryOK abi (Function.update decls id (some d)) fields x :=
    fun fields x hx => { hx with fieldTypes := hx.fieldTypes.mono hle }
  constructor
  · intro i hi
    by_cases heq : i = id
    · rwa [heq]
    · rw [Function.update_of_ne heq] at hi
      exact hrep.bound i hi
  · intro i fields hi
    by_cases heq : i = id
    · subst heq
      rw [Function.update_self] at hi ⊢
      exact hmono _ _ (hse fields (Option.some.inj hi))
    · rw [Function.update_of_ne heq] at hi ⊢
      exact hmono _ _ (hrep.standard i fields hi)
  · intro i hi
    by_cases heq : i = id
    · rw [heq, Function.update_self] at hi
      cases hi
    · rw [Function.update_of_ne heq] at hi ⊢
      exact hrep.fresh i hi

/-- A registration of fields that are declared gives its number an entry that holds them. -/
theorem thunkRegisterStruct_spec (hrep : Represents abi entries decls) {id : ℕ} (name : String)
    (hid : id < maxStructs) (hnone : decls id = none)
    (h : readFields decls types.length types = some fields) (hlen : fields.length < 2 ^ 31)
    (hsize : IntSized abi (.struct fields)) :
    ∃ se, thunkRegisterStruct abi entries id name types = some (Function.update entries id se) ∧
      EntryOK abi decls fields se := by
  have hholds := holds_of_readFields h
  have hse : structEntry entries id = some (entries id) := if_pos hid
  simp only [thunkRegisterStruct, hse, countFields_of_readFields h hlen,
    placeStruct_of_holds hrep _ hholds hsize, Option.bind_eq_bind, Option.bind_some]
  refine ⟨_, rfl, hholds, rfl, hrep.fresh id hnone, ?_, ?_, ?_⟩ <;> rintro (_ | _) <;> rfl

/-- What a registration declares, and that it declares it once. -/
theorem Registration.declare_cases {r : Registration} (h : r.declare decls = some decls') :
    r.id < maxStructs ∧ decls r.id = none ∧
      ∃ d, r.decl decls = some d ∧ decls' = Function.update decls r.id (some d) := by
  rw [Registration.declare] at h
  split at h
  · cases h
  · next hid =>
      rw [not_or, Option.not_isSome_iff_eq_none, Nat.not_le] at hid
      obtain ⟨d, hd, heq⟩ := Option.map_eq_some_iff.mp h
      exact ⟨hid.2, hid.1, d, hd, heq.symm⟩

theorem Registration.run_spec (hrep : Represents abi entries decls) {r : Registration}
    (h : r.declare decls = some decls') (hfit : decls'.Fit abi) :
    ∃ entries', r.run abi entries = some entries' ∧ Represents abi entries' decls' := by
  obtain ⟨hid, hnone, d, hd, rfl⟩ := Registration.declare_cases h
  cases r with
  | struct id name types =>
      obtain ⟨fields, hfields, rfl⟩ := Option.map_eq_some_iff.mp hd
      obtain ⟨hlen, hsize⟩ := hfit id fields (Function.update_self _ _ _)
      obtain ⟨se, hrun, hse⟩ := thunkRegisterStruct_spec hrep name hid hnone hfields hlen hsize
      refine ⟨_, hrun, hrep.mono hid hnone fun fs hfs => ?_⟩
      cases hfs
      exact hse
  | direct id name se =>
      cases hd
      have hentry : structEntry entries id = some (entries id) := if_pos hid
      refine ⟨Function.update entries id { se with name := name }, ?_,
        hrep.mono hid hnone fun fs hfs => by cases hfs⟩
      rw [Registration.run, thunkRegisterStructDirect, hentry, Option.map_some]

/-- What is declared stays so. -/
theorem declared_of_foldlM {rs : List Registration} {id : ℕ} {d : Decl}
    (h : rs.foldlM Registration.declare decls = some decls') (hd : decls id = some d) :
    decls' id = some d := by
  induction rs generalizing decls with
  | nil =>
      cases h
      exact hd
  | cons r rs ih =>
      obtain ⟨decls₁, hdecl, hrest⟩ := Option.bind_eq_some_iff.mp h
      obtain ⟨-, hnone, e, -, rfl⟩ := Registration.declare_cases hdecl
      refine ih hrest ?_
      rw [Function.update_of_ne (fun heq => by rw [heq, hnone] at hd; cases hd), hd]

/-- After a run of registrations every entry holds what has been declared. -/
theorem represents_of_declareAll {rs : List Registration}
    (h : declareAll rs = some decls) (hfit : decls.Fit abi) :
    ∃ entries, registerAll abi rs = some entries ∧ Represents abi entries decls := by
  have hzero : Represents abi (fun _ => .zero) fun _ => none :=
    ⟨fun _ hid => absurd rfl hid, fun _ _ hid => (by cases hid), fun _ _ _ => rfl⟩
  unfold declareAll at h
  unfold registerAll
  generalize (fun _ : ℕ => StructEntry.zero) = entries₀ at hzero ⊢
  generalize (fun _ : ℕ => (none : Option Decl)) = decls₀ at hzero h
  induction rs generalizing entries₀ decls₀ with
  | nil =>
      cases h
      exact ⟨entries₀, rfl, hzero⟩
  | cons r rs ih =>
      rw [List.foldlM_cons] at h ⊢
      obtain ⟨decls₁, hdecl, hrest⟩ := Option.bind_eq_some_iff.mp h
      obtain ⟨entries₁, hrun, hrep⟩ := r.run_spec hzero hdecl fun id fields hid =>
        hfit id fields (declared_of_foldlM hrest hid)
      rw [hrun]
      exact ih entries₁ decls₁ hrep hrest

end VexLLVM
