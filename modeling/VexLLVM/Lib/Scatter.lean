import Mathlib.Data.Set.Defs
import Mathlib.Tactic.TypeStar

/-!
# Writes that do not meet

A list of operations on a memory, each of which changes places of its own and looks at
places that none of them changes. Whatever their order, each place is then as the
operation that owns it leaves it from the memory at the start.
-/

namespace Scatter

variable {A B O : Type*}

/-- An operation changes only the places it owns, and what it leaves there depends only on the
places it looks at. -/
structure Local (step : (A → B) → O → A → B) (owns looks : O → Set A) : Prop where
  frame : ∀ f o a, a ∉ owns o → step f o a = f a
  congr : ∀ f g o, (∀ a ∈ looks o, f a = g a) → ∀ a ∈ owns o, step f o a = step g o a

/-- No two operations own a place, and none looks at a place that is owned. -/
structure Apart (owns looks : O → Set A) (ops : List O) : Prop where
  pairwise : ops.Pairwise fun o o' => ∀ a ∈ owns o, a ∉ owns o'
  looks : ∀ o ∈ ops, ∀ o' ∈ ops, ∀ a ∈ owns o, a ∉ looks o'

variable {step : (A → B) → O → A → B} {owns looks : O → Set A} {ops : List O} {f : A → B}
    {o : O} {a : A}

theorem Apart.tail (h : Apart owns looks (o :: ops)) : Apart owns looks ops where
  pairwise := h.pairwise.of_cons
  looks := fun x hx y hy => h.looks x (List.mem_cons_of_mem o hx) y (List.mem_cons_of_mem o hy)

/-- A place that no operation owns is as it was. -/
theorem foldl_frame (hs : Local step owns looks) (h : ∀ o ∈ ops, a ∉ owns o) :
    ops.foldl step f a = f a := by
  induction ops generalizing f with
  | nil => rfl
  | cons o ops ih =>
      rw [List.foldl_cons, ih fun x hx => h x (List.mem_cons_of_mem o hx),
        hs.frame f o a (h o List.mem_cons_self)]

/-- A place that an operation owns is as that operation alone would leave it. -/
theorem foldl_owned (hs : Local step owns looks) (h : Apart owns looks ops) (ho : o ∈ ops)
    (ha : a ∈ owns o) : ops.foldl step f a = step f o a := by
  induction ops generalizing f with
  | nil => cases ho
  | cons x ops ih =>
      rw [List.foldl_cons]
      rcases List.mem_cons.mp ho with rfl | ho'
      · refine foldl_frame hs fun y hy hmem => ?_
        exact List.rel_of_pairwise_cons h.pairwise hy a ha hmem
      · rw [ih h.tail ho']
        refine hs.congr _ _ o (fun p hp => hs.frame f x p fun hx => ?_) a ha
        exact h.looks x List.mem_cons_self o ho p hx hp

section Copies

variable {src : A → B} {takes : O → A → Prop}

/-- Operations that copy places from one memory. -/
structure Copies (step : (A → B) → O → A → B) (src : A → B) (takes : O → A → Prop) : Prop where
  taken : ∀ f o a, takes o a → step f o a = src a
  frame : ∀ f o a, ¬takes o a → step f o a = f a

/-- A place that none of them takes is as it was. -/
theorem Copies.foldl_frame (hs : Copies step src takes) (h : ∀ o ∈ ops, ¬takes o a) :
    ops.foldl step f a = f a := by
  induction ops generalizing f with
  | nil => rfl
  | cons o ops ih =>
      rw [List.foldl_cons, ih fun x hx => h x (List.mem_cons_of_mem o hx),
        hs.frame f o a (h o List.mem_cons_self)]

/-- A place that agrees goes on to do so. -/
theorem Copies.foldl_agree (hs : Copies step src takes) (h : f a = src a) :
    ops.foldl step f a = src a := by
  induction ops generalizing f with
  | nil => exact h
  | cons o ops ih =>
      refine ih ?_
      by_cases ho : takes o a
      · exact hs.taken f o a ho
      · exact (hs.frame f o a ho).trans h

/-- A place that one of them takes agrees, whatever the others take. -/
theorem Copies.foldl_taken (hs : Copies step src takes) (ho : o ∈ ops) (ha : takes o a) :
    ops.foldl step f a = src a := by
  induction ops generalizing f with
  | nil => cases ho
  | cons x ops ih =>
      rw [List.foldl_cons]
      rcases List.mem_cons.mp ho with rfl | ho
      · exact hs.foldl_agree (hs.taken f o a ha)
      · exact ih ho

end Copies

end Scatter
