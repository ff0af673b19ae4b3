import Mathlib.Data.Int.Notation
import Mathlib.Data.List.Basic
import Mathlib.Data.Option.Basic

/-!
# System call numbers

Each translator has two vectors of 512 entries, filled when the program starts.  A guest's
number is compared with their size as an unsigned integer and used as an index with its
sign; an index outside a vector is read as `none`.
-/

namespace VexLLVM

inductive MappingLine
  | syscallRelation (name : String) (host guest : ℕ)
  | guestSyscall (name : String) (guest : ℕ)
  deriving DecidableEq, Repr

structure SyscallTables where
  hostToGuest : List ℤ
  guestToHost : List ℤ
  guestSyscallNames : List String

/-- `xs[i] = x`. -/
def storeAt {α : Type} (xs : List α) (i : ℕ) (x : α) : Option (List α) :=
  if i < xs.length then some (xs.set i x) else none

/-- The vectors before `syscallsmapping.h`. -/
def clearedTables : SyscallTables where
  hostToGuest := (List.replicate 512 0).map fun _ => -1
  guestToHost := (List.replicate 512 0).map fun _ => -1
  guestSyscallNames := (List.range 512).map toString

/-- `SYSCALL_RELATION` and `GUEST_SYSCALL`. -/
def SyscallTables.expand (t : SyscallTables) : MappingLine → Option SyscallTables
  | .syscallRelation _ host guest => do
      let h ← storeAt t.hostToGuest host guest
      let g ← storeAt t.guestToHost guest host
      pure { t with hostToGuest := h, guestToHost := g }
  | .guestSyscall name guest => do
      let n ← storeAt t.guestSyscallNames guest name
      pure { t with guestSyscallNames := n }

def syscallMappingInit (ls : List MappingLine) : Option SyscallTables :=
  ls.foldlM SyscallTables.expand clearedTables

/-- `xs[sys_nr]`, whose index is the sign extension of `sys_nr`. -/
def indexed {α : Type} (xs : List α) (sysNr : BitVec 32) : Option α :=
  xs[(sysNr.signExtend 64).toNat]?

/-- `o << sys_nr`. -/
def decimal (sysNr : BitVec 32) : String := toString sysNr.toInt

/-- `translateSyscall`, which the three translators have alike. -/
def SyscallTables.translateSyscall (t : SyscallTables) (sysNr : BitVec 32) : Option ℤ :=
  if sysNr.toNat > t.guestToHost.length then some (-1) else indexed t.guestToHost sysNr

def SyscallTables.getSyscallName (t : SyscallTables) (sysNr : BitVec 32) : Option String :=
  if sysNr.toNat > t.guestSyscallNames.length then some (decimal sysNr)
  else indexed t.guestSyscallNames sysNr

namespace AMD64SyscallXlate

def translateSyscall (t : SyscallTables) (sysNr : BitVec 32) : Option ℤ :=
  t.translateSyscall sysNr

def getSyscallName (t : SyscallTables) (sysNr : BitVec 32) : Option String :=
  t.getSyscallName sysNr

end AMD64SyscallXlate

namespace I386SyscallXlate

def translateSyscall (t : SyscallTables) (sysNr : BitVec 32) : Option ℤ :=
  t.translateSyscall sysNr

def getSyscallName (t : SyscallTables) (sysNr : BitVec 32) : Option String :=
  t.getSyscallName sysNr

end I386SyscallXlate

namespace ARMSyscallXlate

def armNrBase : BitVec 32 := 0xf0000

def armNrCacheflush : BitVec 32 := armNrBase + 2

def armNrSetTls : BitVec 32 := armNrBase + 5

def translateSyscall (t : SyscallTables) (sysNr : BitVec 32) : Option ℤ :=
  t.translateSyscall sysNr

/-- The `switch` on the private numbers of ARM. -/
def privateName (sysNr : BitVec 32) : Option String :=
  if sysNr = armNrCacheflush then some "cacheflush"
  else if sysNr = armNrSetTls then some "settls"
  else none

def getSyscallName (t : SyscallTables) (sysNr : BitVec 32) : Option String :=
  (privateName sysNr).elim (t.getSyscallName sysNr) some

end ARMSyscallXlate

inductive SyscallXlate
  | amd64 | i386 | arm
  deriving DecidableEq, Repr

namespace SyscallXlate

def translateSyscall : SyscallXlate → SyscallTables → BitVec 32 → Option ℤ
  | amd64 => AMD64SyscallXlate.translateSyscall
  | i386 => I386SyscallXlate.translateSyscall
  | arm => ARMSyscallXlate.translateSyscall

def getSyscallName : SyscallXlate → SyscallTables → BitVec 32 → Option String
  | amd64 => AMD64SyscallXlate.getSyscallName
  | i386 => I386SyscallXlate.getSyscallName
  | arm => ARMSyscallXlate.getSyscallName

/-- The name of a number that a translator answers before it looks at its table. -/
def privateName : SyscallXlate → BitVec 32 → Option String
  | amd64, _ => none
  | i386, _ => none
  | arm, sysNr => ARMSyscallXlate.privateName sysNr

end SyscallXlate

/-! ### What is stored -/

def MappingLine.host? (n : ℕ) : MappingLine → Option ℤ
  | syscallRelation _ host guest => if guest = n then some host else none
  | guestSyscall _ _ => none

def MappingLine.name? (n : ℕ) : MappingLine → Option String
  | syscallRelation _ _ _ => none
  | guestSyscall name guest => if guest = n then some name else none

/-- The host number of guest number `n`: the last line that gives one counts. -/
def storedHost (ls : List MappingLine) (n : ℕ) : ℤ :=
  (ls.filterMap (MappingLine.host? n)).getLast?.getD (-1)

def storedName (ls : List MappingLine) (n : ℕ) : String :=
  (ls.filterMap (MappingLine.name? n)).getLast?.getD (toString n)

def MappingLine.InRange : MappingLine → Prop
  | syscallRelation _ host guest => host < 512 ∧ guest < 512
  | guestSyscall _ guest => guest < 512

structure SyscallTables.Stores (t : SyscallTables) (ls : List MappingLine) : Prop where
  hostToGuest_length : t.hostToGuest.length = 512
  guestToHost_length : t.guestToHost.length = 512
  guestSyscallNames_length : t.guestSyscallNames.length = 512
  host : ∀ n < 512, t.guestToHost[n]? = some (storedHost ls n)
  name : ∀ n < 512, t.guestSyscallNames[n]? = some (storedName ls n)

section Init

variable {t u : SyscallTables} {ls ms : List MappingLine} {l : MappingLine} {n : ℕ}

theorem storeAt_eq_some {α : Type} {xs ys : List α} {i : ℕ} {x : α} :
    storeAt xs i x = some ys ↔ i < xs.length ∧ xs.set i x = ys := by
  by_cases hi : i < xs.length <;> simp [storeAt, hi]

theorem storedHost_append : storedHost (ls ++ [l]) n = (l.host? n).getD (storedHost ls n) := by
  cases hl : l.host? n <;> simp [storedHost, List.filterMap_append, hl]

theorem storedName_append : storedName (ls ++ [l]) n = (l.name? n).getD (storedName ls n) := by
  cases hl : l.name? n <;> simp [storedName, List.filterMap_append, hl]

theorem clearedTables_stores : clearedTables.Stores [] where
  hostToGuest_length := by rw [clearedTables, List.length_map, List.length_replicate]
  guestToHost_length := by rw [clearedTables, List.length_map, List.length_replicate]
  guestSyscallNames_length := by rw [clearedTables, List.length_map, List.length_range]
  host := fun n hn => by
    rw [clearedTables, List.getElem?_map, List.getElem?_replicate, if_pos hn]
    rfl
  name := fun n hn => by
    rw [clearedTables, List.getElem?_map, List.getElem?_range hn]
    rfl

theorem SyscallTables.Stores.expand (h : t.Stores ls) (hu : t.expand l = some u) :
    u.Stores (ls ++ [l]) := by
  cases l with
  | syscallRelation name host guest =>
      simp only [SyscallTables.expand, Option.bind_eq_bind, Option.bind_eq_some_iff,
        storeAt_eq_some, Option.pure_def, Option.some.injEq] at hu
      obtain ⟨g, ⟨-, rfl⟩, xs, ⟨-, rfl⟩, rfl⟩ := hu
      refine ⟨by simpa using h.hostToGuest_length, by simpa using h.guestToHost_length,
        h.guestSyscallNames_length, ?_, ?_⟩
      · intro n hn
        rw [storedHost_append, List.getElem?_set, MappingLine.host?, h.guestToHost_length,
          h.host n hn]
        by_cases hg : guest = n
        · simp [hg, hn]
        · simp [hg]
      · intro n hn
        rw [storedName_append, h.name n hn]
        rfl
  | guestSyscall name guest =>
      simp only [SyscallTables.expand, Option.bind_eq_bind, Option.bind_eq_some_iff,
        storeAt_eq_some, Option.pure_def, Option.some.injEq] at hu
      obtain ⟨xs, ⟨-, rfl⟩, rfl⟩ := hu
      refine ⟨h.hostToGuest_length, h.guestToHost_length,
        by simpa using h.guestSyscallNames_length, ?_, ?_⟩
      · intro n hn
        rw [storedHost_append, h.host n hn]
        rfl
      · intro n hn
        rw [storedName_append, List.getElem?_set, MappingLine.name?, h.guestSyscallNames_length,
          h.name n hn]
        by_cases hg : guest = n
        · simp [hg, hn]
        · simp [hg]

theorem SyscallTables.Stores.foldlM (h : t.Stores ls)
    (hu : ms.foldlM SyscallTables.expand t = some u) : u.Stores (ls ++ ms) := by
  induction ms generalizing t ls with
  | nil =>
      cases hu
      simpa using h
  | cons m ms ih =>
      rw [List.foldlM_cons, Option.bind_eq_bind, Option.bind_eq_some_iff] at hu
      obtain ⟨v, hv, hu⟩ := hu
      simpa using ih (h.expand hv) hu

theorem syscallMappingInit_stores (h : syscallMappingInit ls = some t) : t.Stores ls := by
  simpa using clearedTables_stores.foldlM h

theorem SyscallTables.Stores.expand_defined (h : t.Stores ls) (hl : l.InRange) :
    ∃ u, t.expand l = some u := by
  cases l with
  | syscallRelation name host guest =>
      simp [SyscallTables.expand, storeAt, h.hostToGuest_length, h.guestToHost_length, hl.1, hl.2]
  | guestSyscall name guest =>
      have hg : guest < 512 := hl
      simp [SyscallTables.expand, storeAt, h.guestSyscallNames_length, hg]

theorem SyscallTables.Stores.foldlM_defined (h : t.Stores ls) (hm : ∀ m ∈ ms, m.InRange) :
    ∃ u, ms.foldlM SyscallTables.expand t = some u := by
  induction ms generalizing t ls with
  | nil => exact ⟨t, rfl⟩
  | cons m ms ih =>
      obtain ⟨v, hv⟩ := h.expand_defined (hm m List.mem_cons_self)
      obtain ⟨u, hu⟩ := ih (h.expand hv) fun k hk => hm k (List.mem_cons_of_mem m hk)
      exact ⟨u, by rw [List.foldlM_cons, hv]; exact hu⟩

/-- A header whose numbers fit the vectors fills them. -/
theorem syscallMappingInit_defined (h : ∀ l ∈ ls, l.InRange) :
    ∃ t, syscallMappingInit ls = some t :=
  clearedTables_stores.foldlM_defined h

end Init

/-! ### Looking a number up -/

/-- The numbers of a table of 512. -/
def InTable (sysNr : BitVec 32) : Prop := 0 ≤ sysNr.toInt ∧ sysNr.toInt < 512

instance (sysNr : BitVec 32) : Decidable (InTable sysNr) := inferInstanceAs (Decidable (_ ∧ _))

section Lookup

variable {t : SyscallTables} {ls : List MappingLine} {sysNr : BitVec 32}

theorem inTable_iff : InTable sysNr ↔ sysNr.toNat < 512 := by
  rw [InTable, BitVec.toInt_eq_toNat_cond]
  have := sysNr.isLt
  split <;> omega

/-- A number that passes the bound check is not negative, so its sign does not matter. -/
theorem signExtend_toNat (h : sysNr.toNat ≤ 512) : (sysNr.signExtend 64).toNat = sysNr.toNat := by
  have hmsb : sysNr.msb = false := by
    rw [BitVec.msb_eq_false_iff_two_mul_lt]
    omega
  rw [BitVec.signExtend_eq_setWidth_of_msb_false hmsb, BitVec.toNat_setWidth]
  omega

/-- A bound check that lets one number too many through. -/
theorem indexed_guarded {α : Type} {xs : List α} {y : α} {f : ℕ → α} (hlen : xs.length = 512)
    (hf : ∀ n < 512, xs[n]? = some (f n)) :
    (if sysNr.toNat > xs.length then some y else indexed xs sysNr) =
      if sysNr = 512 then none else some (if InTable sysNr then f sysNr.toNat else y) := by
  have h512 : sysNr = 512 ↔ sysNr.toNat = 512 := by
    rw [← BitVec.toNat_inj]
    rfl
  rw [hlen, indexed]
  simp only [inTable_iff, h512]
  rcases Nat.lt_trichotomy sysNr.toNat 512 with hlt | heq | hgt
  · rw [if_neg (by omega), if_neg (by omega), if_pos hlt, signExtend_toNat (by omega), hf _ hlt]
  · rw [if_neg (by omega), if_pos heq, signExtend_toNat (by omega), heq]
    exact List.getElem?_eq_none (by omega)
  · rw [if_pos hgt, if_neg (by omega), if_neg (by omega)]

theorem SyscallTables.Stores.translateSyscall_eq (h : t.Stores ls) (x : SyscallXlate) :
    x.translateSyscall t sysNr =
      if sysNr = 512 then none
      else some (if InTable sysNr then storedHost ls sysNr.toNat else -1) := by
  have hall : t.translateSyscall sysNr = _ := indexed_guarded h.guestToHost_length h.host
  cases x <;> exact hall

theorem SyscallTables.Stores.getSyscallName_eq (h : t.Stores ls) (x : SyscallXlate) :
    x.getSyscallName t sysNr =
      (x.privateName sysNr).elim
        (if sysNr = 512 then none
          else some (if InTable sysNr then storedName ls sysNr.toNat else decimal sysNr))
        some := by
  have hall : t.getSyscallName sysNr = _ :=
    indexed_guarded h.guestSyscallNames_length h.name
  cases x with
  | amd64 => exact hall
  | i386 => exact hall
  | arm =>
      change (ARMSyscallXlate.privateName sysNr).elim (t.getSyscallName sysNr) some = _
      rw [hall]
      rfl

/-- The private numbers are above every table. -/
theorem SyscallXlate.privateName_of_inTable (x : SyscallXlate) (h : InTable sysNr) :
    x.privateName sysNr = none := by
  rw [inTable_iff] at h
  cases x with
  | amd64 => rfl
  | i386 => rfl
  | arm =>
      have hcf : sysNr ≠ ARMSyscallXlate.armNrCacheflush := by
        rintro rfl
        exact absurd h (by decide)
      have htls : sysNr ≠ ARMSyscallXlate.armNrSetTls := by
        rintro rfl
        exact absurd h (by decide)
      change ARMSyscallXlate.privateName sysNr = none
      rw [ARMSyscallXlate.privateName, if_neg hcf, if_neg htls]

end Lookup

/-- Both lookups stay in their tables and answer what is stored there; outside the table
they answer `-1` and `outside`. -/
def LooksUp (x : SyscallXlate) (ls : List MappingLine) (t : SyscallTables) (sysNr : BitVec 32)
    (outside : String) : Prop :=
  x.translateSyscall t sysNr = some (if InTable sysNr then storedHost ls sysNr.toNat else -1) ∧
    x.getSyscallName t sysNr =
      some (if InTable sysNr then storedName ls sysNr.toNat else outside)

theorem syscallLookup_statement (x : SyscallXlate) (ls : List MappingLine) (t : SyscallTables)
    (ht : syscallMappingInit ls = some t) (sysNr : BitVec 32) (hne : sysNr ≠ 512) :
    LooksUp x ls t sysNr ((x.privateName sysNr).getD (decimal sysNr)) := by
  have hs : t.Stores ls := syscallMappingInit_stores ht
  constructor
  · rw [hs.translateSyscall_eq, if_neg hne]
  · rw [hs.getSyscallName_eq, if_neg hne]
    by_cases hin : InTable sysNr
    · rw [x.privateName_of_inTable hin, if_pos hin, if_pos hin]
      rfl
    · rw [if_neg hin, if_neg hin]
      cases x.privateName sysNr <;> rfl

/-- A stored number, the last of its table, and two outside it. -/
theorem syscallLookup_boundary :
    ∃ t, syscallMappingInit [.syscallRelation "exit" 60 1] = some t ∧
      LooksUp .amd64 [.syscallRelation "exit" 60 1] t 1 "1" ∧
      LooksUp .arm [.syscallRelation "exit" 60 1] t 511 "511" ∧
      LooksUp .i386 [.syscallRelation "exit" 60 1] t 513 "513" ∧
      LooksUp .arm [.syscallRelation "exit" 60 1] t (-1) "-1" := by
  obtain ⟨t, ht⟩ := @syscallMappingInit_defined [.syscallRelation "exit" 60 1]
    (List.forall_mem_singleton.mpr ⟨by decide, by decide⟩)
  exact ⟨t, ht, syscallLookup_statement .amd64 _ t ht 1 (by decide),
    syscallLookup_statement .arm _ t ht 511 (by decide),
    syscallLookup_statement .i386 _ t ht 513 (by decide),
    syscallLookup_statement .arm _ t ht (-1) (by decide)⟩

/-- ARM names a number that is not in its table. -/
theorem syscallLookup_cacheflush : ¬∀ (x : SyscallXlate) (ls : List MappingLine)
    (t : SyscallTables), syscallMappingInit ls = some t → ∀ sysNr : BitVec 32,
      LooksUp x ls t sysNr (decimal sysNr) := by
  intro h
  have hname : ARMSyscallXlate.getSyscallName clearedTables 0xf0002 = _ :=
    (h .arm [] clearedTables rfl 0xf0002).2
  exact absurd (Option.some.inj hname) (by decide +kernel)

end VexLLVM
