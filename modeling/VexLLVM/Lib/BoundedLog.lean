import Mathlib.Data.List.DropRight
import Mathlib.Tactic.TypeStar

/-!
# A log with a bound

A list that entries are put at the end of, with a count beside it. Where the count is past the
bound, an entry is dropped at the front for each that comes, and the count stays. The log then
holds one entry more than the bound, the last ones of all that came.
-/

namespace BoundedLog

variable {α : Type*} {n : ℕ} {xs : List α}

def push (n : ℕ) (l : ℕ × List α) (x : α) : ℕ × List α :=
  (if n < l.1 then l.1 else l.1 + 1, (if n < l.1 then l.2.tail else l.2) ++ [x])

/-- The count is that of the list, which is what is left of all that came. -/
structure Keeps (n : ℕ) (l : ℕ × List α) (xs : List α) : Prop where
  count : l.1 = l.2.length
  last : l.2 = xs.rtake (n + 1)

theorem rtake_of_length_le (h : xs.length ≤ n) : xs.rtake n = xs := by
  rw [List.rtake, Nat.sub_eq_zero_of_le h, List.drop_zero]

theorem length_rtake : (xs.rtake n).length = min n xs.length := by
  rw [List.rtake, List.length_drop]
  omega

theorem tail_rtake (h : n < xs.length) : (xs.rtake (n + 1)).tail = xs.rtake n := by
  rw [List.rtake, List.rtake, List.tail_drop]
  congr 1
  omega

theorem keeps_nil : Keeps n (0, []) ([] : List α) := ⟨rfl, (List.rtake_nil _).symm⟩

/-- Nothing is dropped from an empty list: past the bound, the list is as long as the count. -/
theorem Keeps.push {l : ℕ × List α} (h : Keeps n l xs) (x : α) :
    Keeps n (push n l x) (xs ++ [x]) := by
  have hcount : l.1 = min (n + 1) xs.length := by rw [h.count, h.last, length_rtake]
  by_cases hfull : n < l.1
  · have hlast : (BoundedLog.push n l x).2 = (xs ++ [x]).rtake (n + 1) := by
      rw [BoundedLog.push, if_pos hfull, if_pos hfull, h.last, tail_rtake (by omega),
        List.rtake_concat_succ]
    refine ⟨?_, hlast⟩
    rw [hlast, length_rtake, List.length_append, List.length_singleton, BoundedLog.push,
      if_pos hfull]
    omega
  · have hlast : (BoundedLog.push n l x).2 = (xs ++ [x]).rtake (n + 1) := by
      rw [BoundedLog.push, if_neg hfull, if_neg hfull, h.last, List.rtake_concat_succ,
        rtake_of_length_le (by omega), rtake_of_length_le (by omega)]
    refine ⟨?_, hlast⟩
    rw [hlast, length_rtake, List.length_append, List.length_singleton, BoundedLog.push,
      if_neg hfull]
    omega

end BoundedLog
