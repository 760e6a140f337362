import Mathlib.Algebra.Ring.Int.Defs
import Mathlib.Algebra.Ring.Nat
import Mathlib.Data.Finset.Insert

/-!
This module contains lists out of which the elements at a set of indices are taken, all at once or
one after the other.
-/

namespace McStatus

variable {α : Type}

theorem exists_split {l : List α} {i : Nat} (h : i < l.length)
    : ∃ front a back, l = front ++ a :: back ∧ front.length = i := by
  refine ⟨l.take i, l[i], l.drop (i + 1), ?_, ?_⟩
  . rw [← List.drop_eq_getElem_cons h, List.take_append_drop]
  . rw [List.length_take]
    omega

/-- The list without the indices, where its first element has the index `index`. -/
def leaveOut (index : Nat) (l : List α) (indices : Finset Nat) : List α :=
  match l with
  | [] => []
  | a :: l => if index ∈ indices then leaveOut (index + 1) l indices
    else a :: leaveOut (index + 1) l indices

theorem leaveOut_cons_of_mem {index : Nat} {indices : Finset Nat} (h : index ∈ indices) (a : α)
    (l : List α) : leaveOut index (a :: l) indices = leaveOut (index + 1) l indices := by
  rw [leaveOut, if_pos h]

theorem leaveOut_cons_of_not_mem {index : Nat} {indices : Finset Nat} (h : index ∉ indices) (a : α)
    (l : List α) : leaveOut index (a :: l) indices = a :: leaveOut (index + 1) l indices := by
  rw [leaveOut, if_neg h]

theorem leaveOut_sublist (index : Nat) (l : List α) (indices : Finset Nat)
    : (leaveOut index l indices).Sublist l := by
  induction l generalizing index with
  | nil => exact List.Sublist.refl []
  | cons a l ih =>
    unfold leaveOut
    split
    . apply List.Sublist.cons
      apply ih
    . apply List.Sublist.cons_cons
      apply ih

theorem length_leaveOut_lt {index : Nat} {l : List α} {indices : Finset Nat}
    (h : leaveOut index l indices ≠ l) : (leaveOut index l indices).length < l.length := by
  have hsublist := leaveOut_sublist index l indices
  apply Nat.lt_of_le_of_ne hsublist.length_le
  intro hlen
  exact h (hsublist.eq_of_length hlen)

theorem leaveOut_congr {index : Nat} {l : List α} {indices indices' : Finset Nat}
    (h : ∀ i, index ≤ i → (i ∈ indices ↔ i ∈ indices'))
    : leaveOut index l indices = leaveOut index l indices' := by
  induction l generalizing index with
  | nil => rfl
  | cons a l ih =>
    have hrest := @ih (index + 1) (fun i hi => h i (Nat.le_of_succ_le hi))
    unfold leaveOut
    simp only [h index (Nat.le_refl index), hrest]

theorem leaveOut_eq_self {index : Nat} {l : List α} {indices : Finset Nat}
    (h : ∀ i ∈ indices, i < index) : leaveOut index l indices = l := by
  induction l generalizing index with
  | nil => rfl
  | cons a l ih =>
    have hindex : index ∉ indices := fun hmem => Nat.lt_irrefl index (h index hmem)
    rw [leaveOut_cons_of_not_mem hindex, ih fun i hi => Nat.lt_succ_of_lt (h i hi)]

theorem leaveOut_eq_self_of_not_mem {index : Nat} {l : List α} {indices : Finset Nat}
    (h : ∀ i ∈ indices, index ≤ i → index + l.length ≤ i) : leaveOut index l indices = l := by
  induction l generalizing index with
  | nil => rfl
  | cons a l ih =>
    have hindex : index ∉ indices := by
      intro hmem
      have := h index hmem (Nat.le_refl index)
      rw [List.length_cons] at this
      omega
    rw [leaveOut_cons_of_not_mem hindex, ih]
    intro i hi hle
    have := h i hi (Nat.le_of_succ_le hle)
    rw [List.length_cons] at this
    omega

theorem leaveOut_append (index : Nat) (l r : List α) (indices : Finset Nat)
    : leaveOut index (l ++ r) indices
      = leaveOut index l indices ++ leaveOut (index + l.length) r indices := by
  induction l generalizing index with
  | nil => rfl
  | cons a l ih =>
    have hlen : index + (a :: l).length = index + 1 + l.length := by
      rw [List.length_cons]
      omega
    rw [List.cons_append, hlen]
    by_cases hindex : index ∈ indices
    . rw [leaveOut_cons_of_mem hindex, leaveOut_cons_of_mem hindex, ih]
    . rw [leaveOut_cons_of_not_mem hindex, leaveOut_cons_of_not_mem hindex, ih, List.cons_append]

theorem mem_of_leaveOut_eq_nil {index i : Nat} {l : List α} {indices : Finset Nat}
    (h : leaveOut index l indices = []) (hi : i < l.length) : index + i ∈ indices := by
  induction l generalizing index i with
  | nil => exact absurd hi (Nat.not_lt_zero i)
  | cons a l ih =>
    by_cases hindex : index ∈ indices
    . rw [leaveOut_cons_of_mem hindex] at h
      cases i with
      | zero => exact hindex
      | succ i =>
        have := ih h (Nat.lt_of_succ_lt_succ hi)
        rwa [Nat.add_assoc, Nat.add_comm 1 i] at this
    . rw [leaveOut_cons_of_not_mem hindex] at h
      cases h

theorem last_of_leaveOut {index : Nat} {l front : List α} {a : α} {indices : Finset Nat}
    (h : leaveOut index l indices = front ++ [a])
    : ∃ i, l[i]? = some a ∧ index + i ∉ indices
      ∧ ∀ j, i < j → j < l.length → index + j ∈ indices := by
  induction l generalizing index front with
  | nil => exact absurd h.symm (by simp [leaveOut])
  | cons b l ih =>
    have hlater : (∃ front, leaveOut (index + 1) l indices = front ++ [a]) →
        ∃ i, (b :: l)[i]? = some a ∧ index + i ∉ indices
          ∧ ∀ j, i < j → j < (b :: l).length → index + j ∈ indices := by
      rintro ⟨front, hrest⟩
      rcases ih hrest with ⟨i, hget, hnot, hall⟩
      refine ⟨i + 1, hget, by rwa [Nat.add_comm i, ← Nat.add_assoc], ?_⟩
      intro j hj hlt
      rw [List.length_cons] at hlt
      have := hall (j - 1) (by omega) (by omega)
      rwa [show index + 1 + (j - 1) = index + j by omega] at this
    by_cases hindex : index ∈ indices
    . rw [leaveOut_cons_of_mem hindex] at h
      exact hlater ⟨front, h⟩
    . rw [leaveOut_cons_of_not_mem hindex] at h
      cases front with
      | nil =>
        rw [List.nil_append, List.cons.injEq] at h
        refine ⟨0, by rw [h.1]; rfl, hindex, ?_⟩
        intro j hj hlt
        rw [List.length_cons] at hlt
        have := mem_of_leaveOut_eq_nil h.2 (show j - 1 < l.length by omega)
        rwa [show index + 1 + (j - 1) = index + j by omega] at this
      | cons c front =>
        rw [List.cons_append, List.cons.injEq] at h
        exact hlater ⟨front, h.2⟩

theorem not_mem_of_leaveOut_eq_self {index i : Nat} {l : List α} {indices : Finset Nat}
    (h : leaveOut index l indices = l) (hle : index ≤ i) (hlt : i < index + l.length)
    : i ∉ indices := by
  induction l generalizing index with
  | nil => exact absurd hlt (by rw [List.length_nil]; omega)
  | cons a l ih =>
    by_cases hindex : index ∈ indices
    . -- the list that is left would be too short
      have hlen := (leaveOut_sublist (index + 1) l indices).length_le
      rw [leaveOut_cons_of_mem hindex] at h
      rw [h, List.length_cons] at hlen
      omega
    . rw [leaveOut_cons_of_not_mem hindex, List.cons.injEq] at h
      rcases Nat.lt_or_eq_of_le hle with hlater | rfl
      . rw [List.length_cons] at hlt
        exact ih h.2 hlater (by omega)
      . exact hindex

/-- `i` is the index of an element that has `P` together with what is before and behind it. -/
def IndexOf (P : List α → α → List α → Prop) (index : Nat) (l : List α) (i : Nat) : Prop :=
  ∃ front a back, l = front ++ a :: back ∧ i = index + front.length ∧ P front a back

section IndexOf

variable {P Q : List α → α → List α → Prop} {index i : Nat} {a : α} {l front back : List α}

theorem not_indexOf_nil : ¬ IndexOf P index [] i := by
  rintro ⟨front, a, back, h, _, _⟩
  simp at h

theorem IndexOf.lt (h : IndexOf P index l i) : i < index + l.length := by
  rcases h with ⟨front, a, back, rfl, rfl, -⟩
  rw [List.length_append, List.length_cons]
  omega

theorem indexOf_cons
    : IndexOf P index (a :: l) i
        ↔ (i = index ∧ P [] a l) ∨ IndexOf (fun front => P (a :: front)) (index + 1) l i := by
  constructor
  . rintro ⟨front, b, back, h, hi, hP⟩
    cases front with
    | nil =>
      rw [List.nil_append, List.cons.injEq] at h
      rw [h.1, h.2]
      exact Or.inl ⟨hi, hP⟩
    | cons c front =>
      rw [List.cons_append, List.cons.injEq] at h
      rw [h.1]
      refine Or.inr ⟨front, b, back, h.2, ?_, hP⟩
      rw [hi, List.length_cons]
      omega
  . rintro (⟨hi, hP⟩ | ⟨front, b, back, rfl, hi, hP⟩)
    . exact ⟨[], a, l, rfl, hi, hP⟩
    . refine ⟨a :: front, b, back, rfl, ?_, hP⟩
      rw [hi, List.length_cons]
      omega

theorem indexOf_concat
    : IndexOf P index (l ++ [a]) i
        ↔ IndexOf (fun front b back => P front b (back ++ [a])) index l i
          ∨ (i = index + l.length ∧ P l a []) := by
  induction l generalizing P index with
  | nil =>
    rw [List.nil_append, indexOf_cons]
    simp [not_indexOf_nil]
  | cons b l ih =>
    have hlen : index + 1 + l.length = index + (l.length + 1) := by omega
    rw [List.cons_append, indexOf_cons, ih, indexOf_cons, List.length_cons, hlen, or_assoc]

theorem indexOf_append
    : IndexOf P index (front ++ a :: back) (index + front.length) ↔ P front a back := by
  constructor
  . rintro ⟨front', a', back', h, hi, hP⟩
    rcases List.append_inj h (by omega) with ⟨rfl, hback⟩
    rw [List.cons.injEq] at hback
    rw [hback.1, hback.2]
    exact hP
  . intro hP
    exact ⟨front, a, back, rfl, rfl, hP⟩

theorem indexOf_or
    : IndexOf P index l i ∨ IndexOf Q index l i
        ↔ IndexOf (fun front a back => P front a back ∨ Q front a back) index l i := by
  constructor
  . rintro (⟨front, a, back, h, hi, hP⟩ | ⟨front, a, back, h, hi, hQ⟩)
    . exact ⟨front, a, back, h, hi, Or.inl hP⟩
    . exact ⟨front, a, back, h, hi, Or.inr hQ⟩
  . rintro ⟨front, a, back, h, hi, hP | hQ⟩
    . exact Or.inl ⟨front, a, back, h, hi, hP⟩
    . exact Or.inr ⟨front, a, back, h, hi, hQ⟩

end IndexOf

end McStatus
