import Mathlib.Data.List.AList
import Mathlib.Data.Nat.Notation

/-!
# Address-indexed caches

`DirectCache`, and the pair the translator keeps three times over: a map from
guest addresses to pointers with a direct cache in front of it. A null pointer is
`none`. The order of the map is not used by any operation.
-/

namespace VexLLVM

abbrev GuestPtr := BitVec 64

def DC_SIZE : ℕ := 4096

structure DirectCache (α : Type) where
  ents : ℕ → GuestPtr × Option α

namespace DirectCache

variable {α : Type}

def ptr2slot (p : GuestPtr) : ℕ := (p >>> 2).toNat % DC_SIZE

def empty : DirectCache α := ⟨fun _ => (0, none)⟩

def put (d : DirectCache α) (p : GuestPtr) (t : Option α) : DirectCache α :=
  ⟨Function.update d.ents (ptr2slot p) (p, t)⟩

def get (d : DirectCache α) (p : GuestPtr) : Option α :=
  if (d.ents (ptr2slot p)).1 = p then (d.ents (ptr2slot p)).2 else none

@[simp] theorem get_empty (p : GuestPtr) : (empty : DirectCache α).get p = none := by
  unfold get empty
  split <;> rfl

@[simp] theorem get_put_self (d : DirectCache α) (p : GuestPtr) (t : Option α) :
    (d.put p t).get p = t := by
  simp [get, put]

/-- What another address reads after a `put`: nothing new. -/
theorem get_put_ne {d : DirectCache α} {p q : GuestPtr} {t : Option α} {x : α} (hq : q ≠ p)
    (h : (d.put p t).get q = some x) : d.get q = some x := by
  unfold get put at h
  by_cases hs : ptr2slot q = ptr2slot p
  · simp [hs, hq.symm] at h
  · simpa [get, Function.update_of_ne hs] using h

end DirectCache

structure AddrCache (α : Type) where
  map : AList fun _ : GuestPtr => Option α
  dc : DirectCache α

namespace AddrCache

variable {α : Type} (c : AddrCache α)

def empty : AddrCache α := ⟨∅, .empty⟩

/-- What the map holds for an address, null where it has no entry. -/
def find (p : GuestPtr) : Option α := (c.map.lookup p).join

def size : ℕ := c.map.entries.length

/-- Look in the direct cache, then in the map, and leave what the map has in the
direct cache. -/
def getCached (p : GuestPtr) : Option α × AddrCache α :=
  match c.dc.get p with
  | some x => (some x, c)
  | none =>
      match c.map.lookup p with
      | none => (none, c)
      | some t => (t, { c with dc := c.dc.put p t })

def put (p : GuestPtr) (t : Option α) : AddrCache α := ⟨c.map.insert p t, c.dc.put p t⟩

/-- An assignment to the map alone. -/
def assign (p : GuestPtr) (t : Option α) : AddrCache α := { c with map := c.map.insert p t }

def erase (p : GuestPtr) : AddrCache α := ⟨c.map.erase p, c.dc.put p none⟩

/-- The keys from `lower_bound(b)` up to `upper_bound(e)`, where the first does not
lie behind the second. -/
def range (b e : GuestPtr) : Option (List GuestPtr) :=
  if c.map.keys.any fun k => e < k && k < b then none
  else some (c.map.keys.filter fun k => b ≤ k ∧ k ≤ e)

/-- The direct cache only repeats what the map holds. -/
def Coherent : Prop := ∀ p x, c.dc.get p = some x → c.find p = some x

variable {c}

theorem coherent_empty : (empty : AddrCache α).Coherent := by
  intro p x h
  simp [empty] at h

@[simp] theorem find_empty (p : GuestPtr) : (empty : AddrCache α).find p = none := rfl

theorem find_put (p q : GuestPtr) (t : Option α) :
    (c.put p t).find q = if q = p then t else c.find q := by
  by_cases h : q = p
  · subst h
    simp [find, put]
  · simp [find, put, h, AList.lookup_insert_ne h]

theorem find_assign (p q : GuestPtr) (t : Option α) :
    (c.assign p t).find q = if q = p then t else c.find q := find_put p q t

theorem find_erase (p q : GuestPtr) :
    (c.erase p).find q = if q = p then none else c.find q := by
  by_cases h : q = p
  · subst h
    simp [find, erase]
  · simp [find, erase, h, AList.lookup_erase_ne h]

theorem find_isSome_mem {p : GuestPtr} (h : c.find p ≠ none) : p ∈ c.map := by
  rw [← AList.lookup_isSome]
  cases hl : c.map.lookup p with
  | none => simp [find, hl] at h
  | some t => rfl

theorem Coherent.getCached_fst (hc : c.Coherent) (p : GuestPtr) :
    (c.getCached p).1 = c.find p := by
  unfold getCached
  split
  · next x h => exact (hc p x h).symm
  · split
    · next h => simp [find, h]
    · next t h => simp [find, h]

@[simp] theorem getCached_map (p : GuestPtr) : (c.getCached p).2.map = c.map := by
  unfold getCached
  split
  · rfl
  · split <;> rfl

@[simp] theorem find_getCached (p q : GuestPtr) : (c.getCached p).2.find q = c.find q := by
  simp [find]

theorem Coherent.getCached (hc : c.Coherent) (p : GuestPtr) : (c.getCached p).2.Coherent := by
  intro q x h
  rw [find_getCached]
  unfold AddrCache.getCached at h
  split at h
  · exact hc q x h
  · split at h
    · exact hc q x h
    · next t ht =>
        by_cases hq : q = p
        · subst hq
          simpa [find, ht] using h
        · exact hc q x (DirectCache.get_put_ne hq h)

theorem Coherent.put (hc : c.Coherent) (p : GuestPtr) (t : Option α) : (c.put p t).Coherent := by
  intro q x h
  rw [find_put]
  by_cases hq : q = p
  · subst hq
    simpa [AddrCache.put] using h
  · simpa [hq] using hc q x (DirectCache.get_put_ne hq h)

theorem Coherent.erase (hc : c.Coherent) (p : GuestPtr) : (c.erase p).Coherent := by
  intro q x h
  rw [find_erase]
  by_cases hq : q = p
  · subst hq
    simp [AddrCache.erase] at h
  · simpa [hq] using hc q x (DirectCache.get_put_ne hq h)

/-- An assignment to the map alone is safe for an address that the direct cache
does not answer. -/
theorem Coherent.assign (hc : c.Coherent) {p : GuestPtr} (t : Option α) (hp : c.dc.get p = none) :
    (c.assign p t).Coherent := by
  intro q x h
  rw [find_assign]
  by_cases hq : q = p
  · subst hq
    rw [AddrCache.assign, hp] at h
    cases h
  · simpa [hq] using hc q x h

theorem find_foldl_erase (ks : List GuestPtr) (q : GuestPtr) :
    (ks.foldl erase c).find q = if q ∈ ks then none else c.find q := by
  induction ks generalizing c with
  | nil => simp
  | cons k ks ih =>
      rw [List.foldl_cons, ih, find_erase]
      by_cases hq : q ∈ ks <;> by_cases hk : q = k <;> simp [hq, hk]

theorem Coherent.foldl_erase (hc : c.Coherent) (ks : List GuestPtr) :
    (ks.foldl AddrCache.erase c).Coherent := by
  induction ks generalizing c with
  | nil => exact hc
  | cons k ks ih => exact ih (hc.erase k)

/-- A range with its ends in order is iterated. -/
theorem range_of_le {b e : GuestPtr} (h : b ≤ e) :
    c.range b e = some (c.map.keys.filter fun k => b ≤ k ∧ k ≤ e) := by
  rw [range, if_neg]
  simp only [List.any_eq_true, Bool.and_eq_true, decide_eq_true_eq, not_exists, not_and]
  intro k _ h₁ h₂
  exact absurd (BitVec.lt_trans h₁ h₂) (BitVec.not_lt.2 h)

theorem mem_range {b e q : GuestPtr} {ks : List GuestPtr} (h : c.range b e = some ks) :
    q ∈ ks ↔ q ∈ c.map ∧ b ≤ q ∧ q ≤ e := by
  unfold range at h
  split at h
  · cases h
  · cases h
    simp [AList.mem_keys]

/-- What is checked of the entries of the map. -/
theorem find_all (P : GuestPtr → α → Bool)
    (h : (c.map.entries.all fun e => e.2.all (P e.1)) = true) {p : GuestPtr} {x : α}
    (hx : c.find p = some x) : P p x = true := by
  have hl : c.map.lookup p = some (some x) := by
    unfold find at hx
    cases hl : c.map.lookup p with
    | none => rw [hl] at hx; cases hx
    | some o => rw [hl] at hx; exact congrArg some hx
  have := List.all_eq_true.1 h _ (AList.mem_lookup_iff.1 hl)
  simpa using this

end AddrCache

end VexLLVM
