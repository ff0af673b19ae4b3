import Mathlib.Data.List.Sort
import Mathlib.Order.Defs.LinearOrder

/-!
# Sorting and binary search by a key

`bsearch` looks for an element with a given key. What it finds is in the list and has
the key, whatever the list. In a list that is sorted by the key it finds one if there
is one.
-/

namespace Search

variable {α β : Type} [LinearOrder β] (key : α → β)

/-- The search between two indices, where the first argument bounds the number of
steps. -/
def bsearchAux (a : List α) (k : β) : ℕ → ℕ → ℕ → Option α
  | 0, _, _ => none
  | n + 1, lo, hi =>
      if lo < hi then
        match a[(lo + hi) / 2]? with
        | none => none
        | some x =>
            if k < key x then bsearchAux a k n lo ((lo + hi) / 2)
            else if key x < k then bsearchAux a k n ((lo + hi) / 2 + 1) hi
            else some x
      else none

def bsearch (a : List α) (k : β) : Option α := bsearchAux key a k (a.length + 1) 0 a.length

def Sorted (a : List α) : Prop := a.Pairwise fun x y => key x ≤ key y

def qsort (a : List α) : List α := a.insertionSort fun x y => key x ≤ key y

variable {key} {a : List α} {k : β}

theorem bsearchAux_eq_some {n lo hi : ℕ} {x : α} (h : bsearchAux key a k n lo hi = some x) :
    x ∈ a ∧ key x = k := by
  induction n generalizing lo hi with
  | zero => cases h
  | succ n ih =>
      unfold bsearchAux at h
      split at h
      · split at h
        · cases h
        · next y hy =>
            split at h
            · exact ih h
            · next h₁ =>
                split at h
                · exact ih h
                · next h₂ =>
                    cases h
                    exact ⟨List.mem_of_getElem? hy, le_antisymm (not_lt.1 h₁) (not_lt.1 h₂)⟩
      · cases h

/-- The interval keeps an index with the key. -/
theorem bsearchAux_isSome (hs : Sorted key a) {n lo hi i : ℕ} (hn : hi - lo < n) (hlo : lo ≤ i)
    (hi' : i < hi) (hlen : hi ≤ a.length) {x : α} (hx : a[i]? = some x) (hk : key x = k) :
    (bsearchAux key a k n lo hi).isSome := by
  have mono : ∀ {p q : ℕ} {y z : α}, p ≤ q → a[p]? = some y → a[q]? = some z → key y ≤ key z := by
    intro p q y z hpq hy hz
    obtain ⟨hp, rfl⟩ := List.getElem?_eq_some_iff.1 hy
    obtain ⟨hq, rfl⟩ := List.getElem?_eq_some_iff.1 hz
    rcases hpq.eq_or_lt with rfl | hlt
    · exact le_rfl
    · exact List.pairwise_iff_getElem.1 hs p q hp hq hlt
  induction n generalizing lo hi with
  | zero => omega
  | succ n ih =>
      have hmid : (lo + hi) / 2 < a.length := by omega
      unfold bsearchAux
      rw [if_pos (by omega), List.getElem?_eq_getElem hmid]
      dsimp only
      split
      · next hlt =>
          -- The key is left of the middle.
          have : i < (lo + hi) / 2 := by
            by_contra hge
            have := mono (not_lt.1 hge) (List.getElem?_eq_getElem hmid) hx
            exact absurd hlt (not_lt.2 (hk ▸ this))
          exact ih (by omega) hlo this (by omega)
      · split
        · next hlt =>
            have : (lo + hi) / 2 < i := by
              by_contra hge
              have := mono (not_lt.1 hge) hx (List.getElem?_eq_getElem hmid)
              exact absurd hlt (not_lt.2 (hk ▸ this))
            exact ih (by omega) this hi' hlen
        · rfl

theorem bsearch_eq_some {x : α} (h : bsearch key a k = some x) : x ∈ a ∧ key x = k :=
  bsearchAux_eq_some h

theorem bsearch_isSome_iff (hs : Sorted key a) : (bsearch key a k).isSome ↔ ∃ x ∈ a, key x = k := by
  constructor
  · intro h
    obtain ⟨x, hx⟩ := Option.isSome_iff_exists.1 h
    exact ⟨x, bsearch_eq_some hx⟩
  · rintro ⟨x, hx, hk⟩
    obtain ⟨i, hi, rfl⟩ := List.getElem_of_mem hx
    exact bsearchAux_isSome hs (by omega) (Nat.zero_le i) hi le_rfl (List.getElem?_eq_getElem hi) hk

@[simp] theorem mem_qsort {x : α} : x ∈ qsort key a ↔ x ∈ a :=
  (List.perm_insertionSort _ a).mem_iff

@[simp] theorem length_qsort : (qsort key a).length = a.length :=
  List.length_insertionSort _ a

theorem sorted_qsort : Sorted key (qsort key a) := by
  have : Std.Total fun x y : α => key x ≤ key y := ⟨fun x y => le_total (key x) (key y)⟩
  have : IsTrans α fun x y => key x ≤ key y := ⟨fun _ _ _ => le_trans⟩
  exact List.pairwise_insertionSort _ a

theorem qsort_append_perm (b : List α) : (qsort key a ++ b).Perm (a ++ b) :=
  (List.perm_insertionSort _ a).append_right b

/-- What is sorted is the front of a list. -/
theorem take_qsort_append_drop {n : ℕ} (hn : n ≤ a.length) :
    (qsort key (a.take n) ++ a.drop n).take n = qsort key (a.take n) := by
  have hlen : (qsort key (a.take n)).length = n := by
    rw [length_qsort, List.length_take, min_eq_left hn]
  exact List.take_left' hlen

end Search
