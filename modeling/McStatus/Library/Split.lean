import Mathlib.Data.List.Basic

/-!
This module contains splitting a list at the first and at the last place where an element stands,
joining lists with a separator between them, and taking off what surrounds a list.
-/

namespace McStatus

variable {α : Type} [DecidableEq α]

def splitOnce (sep : α) : List α → Option (List α × List α)
  | [] => none
  | a :: s => if a = sep then some ([], s) else (splitOnce sep s).map fun p => (a :: p.1, p.2)

def rsplitOnce (sep : α) (s : List α) : Option (List α × List α) :=
  (splitOnce sep s.reverse).map fun p => (p.2.reverse, p.1.reverse)

variable {sep : α} {s front behind : List α}

theorem splitOnce_eq_some_iff
    : splitOnce sep s = some (front, behind) ↔ s = front ++ sep :: behind ∧ sep ∉ front := by
  induction s generalizing front with
  | nil => simp [splitOnce]
  | cons a s ih =>
    by_cases ha : a = sep
    . rw [splitOnce, if_pos ha, Option.some.injEq, Prod.mk.injEq]
      constructor
      . rintro ⟨rfl, rfl⟩
        simp [ha]
      . rintro ⟨heq, hfront⟩
        cases front with
        | nil => simp_all
        | cons b front =>
          rw [List.cons_append, List.cons.injEq] at heq
          exact absurd (heq.1 ▸ ha) (by simp_all [eq_comm])
    . rw [splitOnce, if_neg ha, Option.map_eq_some_iff]
      constructor
      . rintro ⟨⟨before, rest⟩, hsplit, heq⟩
        rw [Prod.mk.injEq] at heq
        rcases heq with ⟨rfl, rfl⟩
        rcases ih.mp hsplit with ⟨rfl, hnot⟩
        exact ⟨rfl, by simp [hnot, Ne.symm ha]⟩
      . rintro ⟨heq, hfront⟩
        cases front with
        | nil => simp_all
        | cons b front =>
          rw [List.cons_append, List.cons.injEq] at heq
          rcases heq with ⟨rfl, rfl⟩
          rw [List.mem_cons, not_or] at hfront
          exact ⟨(front, behind), ih.mpr ⟨rfl, hfront.2⟩, rfl⟩

theorem splitOnce_eq_none_iff : splitOnce sep s = none ↔ sep ∉ s := by
  induction s with
  | nil => simp [splitOnce]
  | cons a s ih =>
    by_cases ha : a = sep
    . simp [splitOnce, ha]
    . simp [splitOnce, ha, ih, Ne.symm ha]

theorem rsplitOnce_eq_some_iff
    : rsplitOnce sep s = some (front, behind) ↔ s = front ++ sep :: behind ∧ sep ∉ behind := by
  rw [rsplitOnce, Option.map_eq_some_iff]
  constructor
  . rintro ⟨⟨before, rest⟩, hsplit, heq⟩
    rw [Prod.mk.injEq] at heq
    rcases heq with ⟨rfl, rfl⟩
    rcases splitOnce_eq_some_iff.mp hsplit with ⟨hs, hnot⟩
    rw [List.reverse_eq_iff] at hs
    exact ⟨by simp [hs], by simpa using hnot⟩
  . rintro ⟨rfl, hnot⟩
    refine ⟨(behind.reverse, front.reverse), splitOnce_eq_some_iff.mpr ?_, by simp⟩
    simp [hnot]

theorem rsplitOnce_eq_none_iff : rsplitOnce sep s = none ↔ sep ∉ s := by
  rw [rsplitOnce, Option.map_eq_none_iff, splitOnce_eq_none_iff, List.mem_reverse]

omit [DecidableEq α] in
theorem append_intercalate_append (blank : List α) {parts : List (List α)} (h : parts ≠ [])
    : blank ++ (sep :: blank).intercalate parts = [sep].intercalate (parts.map (blank ++ ·)) := by
  induction parts with
  | nil => exact absurd rfl h
  | cons part parts ih =>
    cases parts with
    | nil => simp
    | cons next parts =>
      rw [List.intercalate_cons_cons, List.map_cons, List.map_cons, List.intercalate_cons_cons,
        ← List.map_cons, ← ih (List.cons_ne_nil _ _)]
      simp

omit [DecidableEq α] in
theorem forall_mem_intercalate {P : α → Prop} {joiner : List α} {parts : List (List α)}
    (hjoiner : ∀ a ∈ joiner, P a) (hparts : ∀ part ∈ parts, ∀ a ∈ part, P a)
    : ∀ a ∈ joiner.intercalate parts, P a := by
  induction parts with
  | nil => exact fun a ha => absurd ha List.not_mem_nil
  | cons part parts ih =>
    rw [List.forall_mem_cons] at hparts
    cases parts with
    | nil =>
      rw [List.intercalate_singleton]
      exact hparts.1
    | cons next parts =>
      rw [List.intercalate_cons_cons, List.forall_mem_append, List.forall_mem_append]
      exact ⟨⟨hparts.1, hjoiner⟩, ih hparts.2⟩

omit [DecidableEq α] in
theorem not_mem_intercalate {a : α} {joiner : List α} {parts : List (List α)}
    (hjoiner : a ∉ joiner) (hparts : ∀ part ∈ parts, a ∉ part) : a ∉ joiner.intercalate parts :=
  fun hmem => forall_mem_intercalate (P := (· ≠ a)) (fun _ hb heq => hjoiner (heq ▸ hb))
    (fun part hpart _ hb heq => hparts part hpart (heq ▸ hb)) a hmem rfl

omit [DecidableEq α] in
theorem filter_intercalate {p : α → Bool} (hsep : p sep = true) (parts : List (List α))
    : ([sep].intercalate parts).filter p = [sep].intercalate (parts.map (List.filter p)) := by
  induction parts with
  | nil => rfl
  | cons part parts ih =>
    cases parts with
    | nil => simp
    | cons next parts =>
      rw [List.intercalate_cons_cons, List.filter_append, List.filter_append, ih,
        List.filter_cons_of_pos hsep, List.filter_nil]
      simp only [List.map_cons, List.intercalate_cons_cons]

theorem splitOn_filter {p : α → Bool} (hsep : p sep = true) (s : List α)
    : (s.filter p).splitOn sep = (s.splitOn sep).map (List.filter p) := by
  induction s with
  | nil => simp
  | cons a s ih =>
    rw [List.splitOn_cons_eq_if_modifyHead]
    by_cases ha : a = sep
    . subst ha
      rw [List.filter_cons_of_pos hsep, List.splitOn_cons_eq_if_modifyHead, if_pos (by simp),
        if_pos (by simp), ih]
      rfl
    . rw [if_neg (by simpa using ha)]
      rcases List.exists_cons_of_ne_nil (List.splitOn_ne_nil sep s) with ⟨head, parts, hparts⟩
      rw [hparts, List.map_cons] at ih
      by_cases hkept : p a = true
      . rw [List.filter_cons_of_pos hkept, List.splitOn_cons_eq_if_modifyHead,
          if_neg (by simpa using ha), ih, hparts]
        simp [hkept]
      . rw [List.filter_cons_of_neg hkept, ih, hparts]
        simp [hkept]

omit [DecidableEq α] in
theorem mem_intercalate_of_mem {a : α} {joiner part : List α} {parts : List (List α)}
    (hpart : part ∈ parts) (ha : a ∈ part) : a ∈ joiner.intercalate parts := by
  induction parts with
  | nil => exact absurd hpart List.not_mem_nil
  | cons head parts ih =>
    cases parts with
    | nil =>
      rw [List.mem_singleton] at hpart
      rw [hpart] at ha
      simpa using ha
    | cons next parts =>
      rw [List.intercalate_cons_cons, List.mem_append, List.mem_append]
      rcases List.mem_cons.mp hpart with rfl | hpart
      . exact Or.inl (Or.inl ha)
      . exact Or.inr (ih hpart)

theorem mem_of_mem_splitOn {a : α} {part : List α} (hpart : part ∈ s.splitOn sep) (ha : a ∈ part)
    : a ∈ s := by
  rw [← s.intercalate_splitOn sep]
  exact mem_intercalate_of_mem hpart ha

section Strip

variable {α : Type} {p : α → Bool} {s : List α}

def strip (p : α → Bool) (s : List α) : List α :=
  ((s.dropWhile p).reverse.dropWhile p).reverse

theorem dropWhile_eq_self (h : ∀ a, s.head? = some a → p a = false) : s.dropWhile p = s := by
  cases s with
  | nil => rfl
  | cons a s => rw [List.dropWhile_cons_of_neg (by simp [h a rfl])]

theorem strip_eq_self (hhead : ∀ a, s.head? = some a → p a = false)
    (hlast : ∀ a, s.getLast? = some a → p a = false) : strip p s = s := by
  rw [strip, dropWhile_eq_self hhead, dropWhile_eq_self, List.reverse_reverse]
  rwa [List.head?_reverse]

theorem strip_append_of_forall (blank : List α) (h : ∀ a ∈ blank, p a = true)
    : strip p (blank ++ s) = strip p s := by
  rw [strip, List.dropWhile_append_of_pos h, strip]

end Strip

end McStatus
