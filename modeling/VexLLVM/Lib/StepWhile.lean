import Mathlib.Logic.Function.Iterate
import Mathlib.Data.Nat.Notation
import Mathlib.Tactic.TypeStar

/-!
# Stepping while a condition holds

A deterministic system is stepped until a condition first fails. The loop is
given fuel, so that a run that never stops has no result; where it has one, it
ends at the first time the condition fails.
-/

namespace Loop

variable {S : Type*} (f : S → S) (p : S → Bool)

/-- Step while the condition holds: the state reached, and how many steps were
made. -/
def stepWhile : ℕ → S → Option (S × ℕ)
  | 0, _ => none
  | fuel + 1, s =>
      if p s then (stepWhile fuel (f s)).map fun r => (r.1, r.2 + 1) else some (s, 0)

/-- The condition holds for the `n` first states, and fails after them. -/
structure FirstFail (s : S) (n : ℕ) : Prop where
  before : ∀ j < n, p (f^[j] s) = true
  fails : p (f^[n] s) = false

variable {f p} {s t : S} {n k : ℕ}

theorem FirstFail.unique (h : FirstFail f p s n) (h' : FirstFail f p s k) : n = k := by
  rcases Nat.lt_trichotomy n k with hlt | heq | hgt
  · have hb := h'.before n hlt
    rw [h.fails] at hb
    cases hb
  · exact heq
  · have hb := h.before k hgt
    rw [h'.fails] at hb
    cases hb

theorem FirstFail.zero (h : p s = false) : FirstFail f p s 0 := ⟨fun _ hj => by omega, h⟩

theorem FirstFail.succ (hs : p s = true) (h : FirstFail f p (f s) n) :
    FirstFail f p s (n + 1) where
  before j hj := by
    cases j with
    | zero => exact hs
    | succ j => exact h.before j (by omega)
  fails := h.fails

/-- The loop ends where the condition first fails. -/
theorem stepWhile_eq_some {fuel : ℕ} (h : stepWhile f p fuel s = some (t, n)) :
    t = f^[n] s ∧ FirstFail f p s n := by
  induction fuel generalizing s n with
  | zero => cases h
  | succ fuel ih =>
      rw [stepWhile] at h
      cases hs : p s with
      | false =>
          rw [hs] at h
          cases h
          exact ⟨rfl, .zero hs⟩
      | true =>
          rw [hs, if_pos rfl, Option.map_eq_some_iff] at h
          obtain ⟨⟨u, k⟩, hu, heq⟩ := h
          cases heq
          obtain ⟨rfl, hk⟩ := ih hu
          exact ⟨rfl, .succ hs hk⟩

/-- With more fuel than steps, the loop ends. -/
theorem FirstFail.stepWhile_eq {fuel : ℕ} (h : FirstFail f p s n) (hf : n < fuel) :
    stepWhile f p fuel s = some (f^[n] s, n) := by
  induction fuel generalizing s n with
  | zero => omega
  | succ fuel ih =>
      rw [stepWhile]
      cases n with
      | zero =>
          have hs : p s = false := h.fails
          rw [hs]
          rfl
      | succ n =>
          have hs : p s = true := h.before 0 (Nat.succ_pos n)
          have hn : FirstFail f p (f s) n :=
            ⟨fun j hj => h.before (j + 1) (by omega), h.fails⟩
          rw [hs, if_pos rfl, ih hn (by omega)]
          rfl

/-- How far the first failure is from a later state at which none has been met
yet. -/
theorem FirstFail.add_iff (hb : ∀ j < k, p (f^[j] s) = true) :
    FirstFail f p s (k + n) ↔ FirstFail f p (f^[k] s) n := by
  have hit : ∀ j, f^[k + j] s = f^[j] (f^[k] s) := fun j => by
    rw [Nat.add_comm, Function.iterate_add_apply]
  constructor
  · intro h
    exact ⟨fun j hj => by rw [← hit]; exact h.before _ (by omega), by rw [← hit]; exact h.fails⟩
  · intro h
    refine ⟨fun j hj => ?_, by rw [hit]; exact h.fails⟩
    by_cases hjk : j < k
    · exact hb j hjk
    · obtain ⟨i, rfl⟩ : ∃ i, j = k + i := ⟨j - k, by omega⟩
      rw [hit]
      exact h.before i (by omega)

end Loop
