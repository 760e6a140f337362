import Mathlib.Algebra.Ring.Nat
import Mathlib.Data.List.Basic

/-!
This module contains the places where a list of blocks is cut, and what is left there of a block.
-/

namespace McStatus

namespace Blocks

variable {α β : Type} {f : α → List β}

/--
The first `q` elements of the blocks end in a block that starts behind the first `p` of them. What
is left of this block is `rest`.
-/
def Cuts (f : α → List β) (s : List α) (p q : Nat) (rest : List β) : Prop :=
  ∃ before a after k, s = before ++ a :: after ∧ p ≤ (before.flatMap f).length
    ∧ q = (before.flatMap f).length + k ∧ 0 < k ∧ k ≤ (f a).length ∧ rest = (f a).drop k

variable {s before after before' after' : List α} {a : α} {p p' q : Nat} {rest rest' : List β}

theorem prefix_or_le (f : α → List β) (h : before ++ a :: after = before' ++ after')
    : before' <+: before
        ∨ (before.flatMap f).length + (f a).length ≤ (before'.flatMap f).length := by
  rcases List.append_eq_append_iff.mp h with ⟨between, rfl, hbetween⟩ | ⟨between, rfl, -⟩
  . cases between with
    | nil => exact Or.inl (by simp)
    | cons b between =>
      rw [List.cons_append, List.cons.injEq] at hbetween
      refine Or.inr ?_
      rw [← hbetween.1, List.flatMap_append, List.flatMap_cons, List.length_append,
        List.length_append]
      omega
  . exact Or.inl (List.prefix_append _ _)

theorem Cuts.unique (h : Cuts f s p q rest) (h' : Cuts f s p' q rest') : rest = rest' := by
  rcases h with ⟨before, a, after, k, rfl, -, rfl, hpos, hle, rfl⟩
  rcases h' with ⟨before', a', after', k', heq, -, hq, hpos', hle', rfl⟩
  have hprefix : before' <+: before := (prefix_or_le f heq).resolve_right (by omega)
  have hprefix' : before <+: before' := (prefix_or_le f heq.symm).resolve_right (by omega)
  have hbefore : before = before' := hprefix'.eq_of_length_le hprefix.length_le
  subst hbefore
  rw [List.append_cancel_left_eq, List.cons.injEq] at heq
  rw [heq.1, Nat.add_left_cancel hq]

end Blocks

end McStatus
