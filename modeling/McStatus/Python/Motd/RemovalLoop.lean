import Mathlib.Logic.Function.Iterate
import McStatus.Python.Motd.UnusedElements

/-!
This module shows that the loop of `simplify` comes to an end, and what it leaves of a list.
-/

namespace McStatus

namespace Python

namespace Motd

structure RemovalLoop where
  parsed : List ParsedMotdComponent
  old_parsed : Option (List ParsedMotdComponent)

namespace RemovalLoop

def start (parsed : List ParsedMotdComponent) : RemovalLoop where
  parsed := parsed
  old_parsed := none

/-- `parsed != old_parsed` -/
def GoesOn (loop : RemovalLoop) : Prop :=
  some loop.parsed ≠ loop.old_parsed

def round (loop : RemovalLoop) : RemovalLoop where
  parsed := removeUnused loop.parsed
  old_parsed := some loop.parsed

theorem goesOn_start (parsed : List ParsedMotdComponent) : (start parsed).GoesOn :=
  Option.some_ne_none parsed

theorem goesOn_round {loop : RemovalLoop}
    : loop.round.GoesOn ↔ removeUnused loop.parsed ≠ loop.parsed := by
  rw [GoesOn, round, ne_eq, Option.some.injEq]

theorem rounds_succ (m : Nat) (parsed : List ParsedMotdComponent)
    : RemovalLoop.round^[m + 2] (start parsed)
      = RemovalLoop.round^[m + 1] (start (removeUnused parsed)) := by
  rw [Function.iterate_succ_apply, Function.iterate_succ_apply, Function.iterate_succ_apply]
  rfl

end RemovalLoop

open RemovalLoop

theorem sublist_removeUntilStable (parsed : List ParsedMotdComponent)
    : (removeUntilStable parsed).Sublist parsed := by
  fun_induction removeUntilStable parsed with
  | case1 parsed _ => exact List.Sublist.refl parsed
  | case2 parsed _ _ ih => exact ih.trans (leaveOut_sublist 0 parsed _)

theorem removeUnused_removeUntilStable (parsed : List ParsedMotdComponent)
    : removeUnused (removeUntilStable parsed) = removeUntilStable parsed := by
  fun_induction removeUntilStable parsed with
  | case1 parsed hstable => exact hstable
  | case2 parsed _ _ ih => exact ih

theorem filter_clean (active : Active) (parsed : List ParsedMotdComponent)
    : (clean active parsed).filter (!·.isCode) = parsed.filter (!·.isCode) := by
  induction parsed generalizing active with
  | nil => rfl
  | cons item parsed ih =>
    unfold clean
    split
    . next hunused =>
      have hcode := isCode_of_isUnused hunused
      rw [ih, List.filter_cons_of_neg (by rw [hcode]; decide)]
    . rw [List.filter_cons, List.filter_cons, ih]

theorem filter_removeUntilStable (parsed : List ParsedMotdComponent)
    : (removeUntilStable parsed).filter (!·.isCode) = parsed.filter (!·.isCode) := by
  fun_induction removeUntilStable parsed with
  | case1 parsed _ => rfl
  | case2 parsed _ _ ih => rw [ih, removeUnused_eq_clean, filter_clean]

theorem getUnusedElements_eq_empty {parsed : List ParsedMotdComponent}
    (h : removeUnused parsed = parsed) : getUnusedElements parsed = ∅ := by
  apply Finset.eq_empty_of_forall_notMem
  intro i hi
  have hlt := (mem_getUnusedElements.mp hi).lt
  exact not_mem_of_leaveOut_eq_self h (Nat.zero_le i) hlt hi

theorem removal_rounds (parsed : List ParsedMotdComponent)
    : ∃ rounds ≤ parsed.length + 1,
        (∀ m < rounds, (RemovalLoop.round^[m] (start parsed)).GoesOn)
          ∧ ¬ (RemovalLoop.round^[rounds] (start parsed)).GoesOn
          ∧ (RemovalLoop.round^[rounds] (start parsed)).parsed = removeUntilStable parsed := by
  fun_induction removeUntilStable parsed with
  | case1 parsed hstable =>
    refine ⟨1, Nat.le_add_left 1 _, ?_, fun h => goesOn_round.mp h hstable, hstable⟩
    intro m hm
    rw [Nat.lt_one_iff.mp hm]
    exact goesOn_start parsed
  | case2 parsed hchanged hlt ih =>
    rcases ih with ⟨rounds, hle, hgoes, hends, hparsed⟩
    cases rounds with
    | zero => exact absurd (goesOn_start _) hends
    | succ rounds =>
      refine ⟨rounds + 2, by rw [removeUnused] at hle; omega, ?_, ?_, ?_⟩
      . intro m hm
        match m with
        | 0 => exact goesOn_start parsed
        | 1 => exact goesOn_round.mpr hchanged
        | m + 2 =>
          rw [rounds_succ]
          exact hgoes (m + 1) (by omega)
      . rw [rounds_succ]
        exact hends
      . rw [rounds_succ]
        exact hparsed

theorem removal_loop (parsed : List ParsedMotdComponent)
    : ∃ rounds ≤ parsed.length + 1,
        (∀ m < rounds, (RemovalLoop.round^[m] (start parsed)).GoesOn)
          ∧ ¬ (RemovalLoop.round^[rounds] (start parsed)).GoesOn
          ∧ (RemovalLoop.round^[rounds] (start parsed)).parsed = removeUntilStable parsed
          ∧ getUnusedElements (removeUntilStable parsed) = ∅
          ∧ (removeUntilStable parsed).filter (!·.isCode) = parsed.filter (!·.isCode)
          ∧ (removeUntilStable parsed).Sublist parsed := by
  rcases removal_rounds parsed with ⟨rounds, hle, hgoes, hends, hparsed⟩
  exact ⟨rounds, hle, hgoes, hends, hparsed,
    getUnusedElements_eq_empty (removeUnused_removeUntilStable parsed),
    filter_removeUntilStable parsed, sublist_removeUntilStable parsed⟩

end Motd

end Python

end McStatus
