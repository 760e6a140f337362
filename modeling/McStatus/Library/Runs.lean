import Mathlib.Algebra.Ring.Int.Defs
import Mathlib.Algebra.Ring.Nat
import Mathlib.Data.List.Basic

/-!
This module contains lists of texts and of marks between them, and what such a list is once texts
that stand next to each other are joined.
-/

namespace McStatus

namespace Runs

variable {χ κ : Type}

def explode (l : List (List χ ⊕ κ)) : List (χ ⊕ κ) :=
  l.flatMap fun part =>
    match part with
    | .inl s => s.map .inl
    | .inr k => [.inr k]

def group (ts : List (χ ⊕ κ)) : List (List χ ⊕ κ) :=
  match ts with
  | [] => []
  | .inr k :: ts => .inr k :: group ts
  | .inl c :: ts =>
    match group ts with
    | .inl s :: rest => .inl (c :: s) :: rest
    | rest => .inl [c] :: rest

def join (l : List (List χ ⊕ κ)) : List (List χ ⊕ κ) :=
  group (explode l)

@[simp]
theorem explode_nil : explode ([] : List (List χ ⊕ κ)) = [] := rfl

@[simp]
theorem explode_text (s : List χ) (l : List (List χ ⊕ κ))
    : explode (.inl s :: l) = s.map .inl ++ explode l := rfl

@[simp]
theorem explode_mark (k : κ) (l : List (List χ ⊕ κ))
    : explode (.inr k :: l) = .inr k :: explode l :=
  rfl

@[simp]
theorem explode_append (l r : List (List χ ⊕ κ)) : explode (l ++ r) = explode l ++ explode r :=
  List.flatMap_append

theorem explode_group (ts : List (χ ⊕ κ)) : explode (group ts) = ts := by
  induction ts with
  | nil => rfl
  | cons t ts ih =>
    cases t with
    | inr k => rw [group, explode_mark, ih]
    | inl c =>
      unfold group
      split
      . next s rest heq =>
        rw [heq] at ih
        rw [← ih]
        rfl
      . rw [explode_text, ih]
        rfl

theorem join_eq_iff {l r : List (List χ ⊕ κ)} : join l = join r ↔ explode l = explode r := by
  constructor
  . intro h
    have := congrArg explode h
    rwa [join, join, explode_group, explode_group] at this
  . intro h
    rw [join, join, h]

end Runs

end McStatus
