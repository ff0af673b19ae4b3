import VexLLVM.Cache.DirectCache

/-!
# Mappings of guest memory

`GuestMem::Mapping`, and the two operations on the table of mappings the translator
relies on. The table itself belongs to another library, so it is a parameter: a
lookup finds a mapping that contains the address, and a recorded mapping that keeps
the extent of one that was found is found in its place.
-/

namespace VexLLVM

structure Prot where
  read : Bool
  write : Bool
  exec : Bool
  deriving DecidableEq, Repr

structure Mapping where
  offset : GuestPtr
  length : BitVec 64
  reqProt : Prot
  curProt : Prot
  deriving DecidableEq, Repr

namespace Mapping

/-- `end()`. -/
def endPtr (m : Mapping) : GuestPtr := m.offset + m.length

def Contains (m : Mapping) (a : GuestPtr) : Prop :=
  m.offset.toNat ≤ a.toNat ∧ a.toNat < m.offset.toNat + m.length.toNat

instance (m : Mapping) (a : GuestPtr) : Decidable (m.Contains a) :=
  inferInstanceAs (Decidable (_ ∧ _))

def withProt (m : Mapping) (p : Prot) : Mapping := { m with curProt := p }

@[simp] theorem withProt_contains (m : Mapping) (p : Prot) (a : GuestPtr) :
    (m.withProt p).Contains a ↔ m.Contains a := Iff.rfl

end Mapping

/-- `GuestMem`, with tables of type `M`. -/
structure GuestMem (M : Type) where
  base : BitVec 64
  lookupMapping : M → GuestPtr → Option Mapping
  recordMapping : M → Mapping → M
  lookup_contains : ∀ mem a m, lookupMapping mem a = some m → m.Contains a
  lookup_record : ∀ mem a m p, lookupMapping mem a = some m → ∀ b, m.Contains b →
    lookupMapping (recordMapping mem (m.withProt p)) b = some (m.withProt p)
  lookup_record_ne : ∀ mem a m p, lookupMapping mem a = some m → ∀ b, ¬m.Contains b →
    lookupMapping (recordMapping mem (m.withProt p)) b = lookupMapping mem b

/-- A table that is the list of the mappings recorded, the newest first. -/
def listMem (base : BitVec 64) : GuestMem (List Mapping) where
  base := base
  lookupMapping mem a := mem.find? fun m => m.Contains a
  recordMapping mem m := m :: mem
  lookup_contains mem a m h := by simpa using List.find?_some h
  lookup_record mem a m p _ b hb := by
    rw [List.find?_cons_of_pos (by simpa using hb)]
  lookup_record_ne mem a m p _ b hb := by
    rw [List.find?_cons_of_neg (by simpa using hb)]

end VexLLVM
