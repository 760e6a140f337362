import Mathlib.Algebra.Ring.Int.Defs
import Mathlib.Algebra.Ring.Nat

/-!
This module contains loops that go through a list by index and edit it in place.
-/

namespace McStatus

variable {α : Type}

def Shrinks (edit : List α → Nat → Option (List α)) : Prop :=
  ∀ l i l', i < l.length → edit l i = some l' → l'.length < l.length

/--
Go through the list from the index `i` on. After an edit the same index is looked at again, and
without one the next index.
-/
def sweep (edit : List α → Nat → Option (List α)) (hedit : Shrinks edit) (i : Nat) (l : List α)
    : List α :=
  if hi : i < l.length then
    match h : edit l i with
    | some l' =>
      have := hedit l i l' hi h
      sweep edit hedit i l'
    | none => sweep edit hedit (i + 1) l
  else
    l
termination_by 2 * l.length - i

section Sweep

variable {edit : List α → Nat → Option (List α)} {hedit : Shrinks edit} {i : Nat} {l l' : List α}

theorem sweep_of_le (h : l.length ≤ i) : sweep edit hedit i l = l := by
  unfold sweep
  rw [dif_neg (Nat.not_lt.mpr h)]

theorem sweep_of_some (hi : i < l.length) (h : edit l i = some l')
    : sweep edit hedit i l = sweep edit hedit i l' := by
  conv => lhs; unfold sweep
  rw [dif_pos hi]
  split
  . next heq =>
    rw [h, Option.some.injEq] at heq
    rw [heq]
  . next heq => simp [h] at heq

theorem sweep_of_none (hi : i < l.length) (h : edit l i = none)
    : sweep edit hedit i l = sweep edit hedit (i + 1) l := by
  conv => lhs; unfold sweep
  rw [dif_pos hi]
  split
  . next heq => simp [h] at heq
  . rfl

theorem sweep_induct (I : Nat → List α → Prop)
    (hsome : ∀ i l l', I i l → i < l.length → edit l i = some l' → I i l')
    (hnone : ∀ i l, I i l → i < l.length → edit l i = none → I (i + 1) l)
    (h : I i l) : ∃ j, (sweep edit hedit i l).length ≤ j ∧ I j (sweep edit hedit i l) := by
  induction hn : 2 * l.length - i using Nat.strongRecOn generalizing i l with
  | ind n ih =>
    cases Nat.lt_or_ge i l.length with
    | inr hge =>
      rw [sweep_of_le hge]
      exact ⟨i, hge, h⟩
    | inl hlt =>
      cases hstep : edit l i with
      | some l' =>
        have := hedit l i l' hlt hstep
        rw [sweep_of_some hlt hstep]
        exact ih _ (by omega) (hsome i l l' h hlt hstep) rfl
      | none =>
        rw [sweep_of_none hlt hstep]
        exact ih _ (by omega) (hnone i l h hlt hstep) rfl

theorem sweep_preserves (P : List α → Prop)
    (hsome : ∀ i l l', P l → i < l.length → edit l i = some l' → P l') (h : P l)
    : P (sweep edit hedit i l) := by
  rcases @sweep_induct _ _ hedit i l (fun _ l => P l) hsome (fun _ _ h _ _ => h) h with ⟨_, _, h⟩
  exact h

theorem length_sweep_le : (sweep edit hedit i l).length ≤ l.length := by
  apply sweep_preserves fun l' => l'.length ≤ l.length
  . intro i k k' hle hi h
    have := hedit k i k' hi h
    omega
  . exact Nat.le_refl _

theorem sweep_of_forall_none (h : ∀ k, i ≤ k → k < l.length → edit l k = none)
    : sweep edit hedit i l = l := by
  induction hn : l.length - i generalizing i with
  | zero => exact sweep_of_le (by omega)
  | succ n ih =>
    rw [sweep_of_none (by omega) (h i (Nat.le_refl i) (by omega))]
    apply ih
    . intro k hk hlt
      exact h k (by omega) hlt
    . omega

theorem edit_eq_none_of_length_sweep (h : (sweep edit hedit i l).length = l.length)
    : ∀ k, i ≤ k → k < l.length → edit l k = none := by
  induction hn : l.length - i generalizing i with
  | zero => omega
  | succ n ih =>
    have hi : i < l.length := by omega
    cases hstep : edit l i with
    | some l' =>
      have hlt := hedit l i l' hi hstep
      have hle := @length_sweep_le _ _ hedit i l'
      rw [sweep_of_some hi hstep] at h
      omega
    | none =>
      rw [sweep_of_none hi hstep] at h
      intro k hk hlt
      rcases Nat.eq_or_lt_of_le hk with rfl | hk
      . exact hstep
      . exact ih h (by omega) k hk hlt

end Sweep

def Reduces (pass : List α → List α) : Prop :=
  ∀ l, pass l = l ∨ (pass l).length < l.length

namespace Reduces

variable {pass pass' : List α → List α}

theorem length_le (h : Reduces pass) (l : List α) : (pass l).length ≤ l.length := by
  rcases h l with heq | hlt
  . rw [heq]
  . exact Nat.le_of_lt hlt

theorem eq_of_length (h : Reduces pass) {l : List α} (hlen : (pass l).length = l.length)
    : pass l = l := by
  rcases h l with heq | hlt
  . exact heq
  . omega

theorem comp (h : Reduces pass) (h' : Reduces pass') : Reduces (fun l => pass' (pass l)) := by
  intro l
  dsimp only
  rcases h l with heq | hlt
  . rw [heq]
    exact h' l
  . have := h'.length_le (pass l)
    exact Or.inr (by omega)

theorem eq_of_length_comp (h : Reduces pass) (h' : Reduces pass') {l : List α}
    (hlen : (pass' (pass l)).length = l.length) : pass l = l ∧ pass' l = l := by
  have hle := h.length_le l
  have hle' := h'.length_le (pass l)
  have heq := h.eq_of_length (l := l) (by omega)
  rw [heq] at hlen
  exact ⟨heq, h'.eq_of_length hlen⟩

theorem sweep {edit : List α → Nat → Option (List α)} {hedit : Shrinks edit} {i : Nat}
    : Reduces (sweep edit hedit i) := by
  intro l
  rcases Nat.lt_or_eq_of_le (@length_sweep_le _ _ hedit i l) with hlt | heq
  . exact Or.inr hlt
  . exact Or.inl (sweep_of_forall_none (edit_eq_none_of_length_sweep heq))

theorem of_sublist (h : ∀ l, List.Sublist (pass l) l) : Reduces pass := by
  intro l
  rcases Nat.lt_or_eq_of_le (h l).length_le with hlt | heq
  . exact Or.inr hlt
  . exact Or.inl ((h l).eq_of_length heq)

end Reduces

/-- `components.remove(i)` when `remove` says so. -/
def eraseIf (remove : List α → Nat → Bool) (l : List α) (i : Nat) : Option (List α) :=
  if remove l i then some (l.eraseIdx i) else none

theorem eraseIf_shrinks (remove : List α → Nat → Bool) : Shrinks (eraseIf remove) := by
  intro l i l' hi h
  unfold eraseIf at h
  split at h
  . rw [Option.some.injEq] at h
    rw [← h, List.length_eraseIdx_of_lt hi]
    omega
  . simp at h

theorem eraseIf_eq_some {remove : List α → Nat → Bool} {l l' : List α} {i : Nat}
    : eraseIf remove l i = some l' ↔ remove l i = true ∧ l' = l.eraseIdx i := by
  unfold eraseIf
  split
  . next h => simp [h, eq_comm]
  . next h => simp [h]

theorem eraseIf_eq_none {remove : List α → Nat → Bool} {l : List α} {i : Nat}
    : eraseIf remove l i = none ↔ remove l i = false := by
  unfold eraseIf
  split
  . next h => simp [h]
  . next h => simpa using h

end McStatus
