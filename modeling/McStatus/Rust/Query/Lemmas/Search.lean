import McStatus.Rust.Query.Impl

/-!
This module describes where the MOTD of a query response ends, and shows that the search of
`parse_response` finds that place.
-/

namespace McStatus

open Fallible

namespace Rust

namespace QueryClient

theorem findSubsequence.getElem_windows {haystack needle : List UInt8} {i : Nat}
    (h : i < (windows needle haystack).length)
    : (windows needle haystack)[i] = needle ↔ needle <+: haystack.drop i := by
  rw [List.prefix_iff_eq_take]
  simp only [windows, List.getElem_map, List.getElem_range]
  exact eq_comm

theorem findSubsequence.lt_length_windows {haystack needle : List UInt8} {i : Nat}
    (hneedle : needle ≠ []) (h : needle <+: haystack.drop i)
    : i < (windows needle haystack).length := by
  have hle := h.length_le
  have hpos := List.length_pos_of_ne_nil hneedle
  simp only [List.length_drop] at hle
  simp only [windows, List.length_map, List.length_range]
  omega

theorem findSubsequence_eq_some {haystack needle : List UInt8} {i : Nat} (hneedle : needle ≠ [])
    : findSubsequence haystack needle = some i
        ↔
      needle <+: haystack.drop i ∧ ∀ j < i, ¬ needle <+: haystack.drop j := by
  rw [findSubsequence, List.findIdx?_eq_some_iff_getElem]
  constructor
  . rintro ⟨hi, hmatch, hfirst⟩
    rw [beq_iff_eq, findSubsequence.getElem_windows] at hmatch
    refine ⟨hmatch, fun j hj => ?_⟩
    have := hfirst j hj
    rwa [Bool.not_eq_true, beq_eq_false_iff_ne, ne_eq, findSubsequence.getElem_windows] at this
  . rintro ⟨hmatch, hfirst⟩
    have hi := findSubsequence.lt_length_windows hneedle hmatch
    refine ⟨hi, ?_, fun j hj => ?_⟩
    . rwa [beq_iff_eq, findSubsequence.getElem_windows]
    . rw [Bool.not_eq_true, beq_eq_false_iff_ne, ne_eq, findSubsequence.getElem_windows]
      exact hfirst j hj

theorem findSubsequence_eq_none {haystack needle : List UInt8} (hneedle : needle ≠ [])
    : findSubsequence haystack needle = none ↔ ∀ j, ¬ needle <+: haystack.drop j := by
  rw [findSubsequence, List.findIdx?_eq_none_iff]
  constructor
  . intro h j hj
    have hlt := findSubsequence.lt_length_windows hneedle hj
    have := h _ (List.getElem_mem hlt)
    rw [beq_eq_false_iff_ne, ne_eq, findSubsequence.getElem_windows] at this
    exact this hj
  . intro h w hw
    rcases List.getElem_of_mem hw with ⟨j, hj, rfl⟩
    rw [beq_eq_false_iff_ne, ne_eq, findSubsequence.getElem_windows]
    exact h j

def keyMark (k : List Char) : List UInt8 :=
  Utf8.encode ('\x00' :: k ++ ['\x00'])

def KeyMark (s : List UInt8) : Prop :=
  ∃ k ∈ knownKeys, keyMark k <+: s

theorem keyMark_eq (k : List Char) : keyMark k = 0 :: (Utf8.encode k ++ [0]) := by
  simp only [keyMark, Utf8.encode, List.flatMap_cons, List.flatMap_append, List.cons_append]
  rfl

theorem KeyMark.exists_cons {s : List UInt8} (h : KeyMark s) : ∃ r, s = 0 :: r := by
  rcases h with ⟨k, -, hk⟩
  rw [keyMark_eq] at hk
  rcases hk with ⟨r, rfl⟩
  exact ⟨_, rfl⟩

section FirstOf

variable {κ : Type} (find : κ → Option Nat)

/-- The fold of `foundKeyIdx` for any way of finding a key. -/
def firstOf (found : Option Nat) (ks : List κ) : Option Nat :=
  ks.foldl
    (fun found k =>
      match find k with
      | some idx => if found.all (idx < ·) then some idx else found
      | none => found)
    found

theorem firstOf_eq_none {ks : List κ} {found : Option Nat}
    : firstOf find found ks = none ↔ found = none ∧ ∀ k ∈ ks, find k = none := by
  induction ks generalizing found with
  | nil => simp [firstOf]
  | cons k ks ih =>
    rw [firstOf, List.foldl_cons, ← firstOf, ih]
    cases hk : find k with
    | none => simp [hk]
    | some idx =>
      cases found with
      | none => simp [hk]
      | some i =>
        simp only [Option.all_some, decide_eq_true_eq]
        split <;> simp

theorem firstOf_eq_some {ks : List κ} {found : Option Nat} {i : Nat}
    : firstOf find found ks = some i
        ↔
      (found = some i ∨ ∃ k ∈ ks, find k = some i)
        ∧ (∀ j, found = some j → i ≤ j) ∧ ∀ k ∈ ks, ∀ j, find k = some j → i ≤ j := by
  induction ks generalizing found with
  | nil =>
    simp only [firstOf, List.foldl_nil, List.not_mem_nil, false_and, exists_false, or_false,
      false_implies, implies_true, and_true]
    constructor
    . intro h
      refine ⟨h, fun j hj => ?_⟩
      rw [h, Option.some.injEq] at hj
      omega
    . exact fun h => h.1
  | cons k ks ih =>
    rw [firstOf, List.foldl_cons, ← firstOf, ih]
    cases hk : find k with
    | none => simp [hk]
    | some idx =>
      cases found with
      | none =>
        simp [hk]
      | some f =>
        simp only [Option.all_some, decide_eq_true_eq]
        split <;> grind

end FirstOf

theorem foundKeyIdx_eq_firstOf (rest : List UInt8)
    : foundKeyIdx rest = firstOf (fun k => findSubsequence rest (keyMark k)) none knownKeys := by
  rfl

theorem foundKeyIdx_eq_none {rest : List UInt8}
    : foundKeyIdx rest = none ↔ ∀ j, ¬ KeyMark (rest.drop j) := by
  rw [foundKeyIdx_eq_firstOf, firstOf_eq_none]
  constructor
  . rintro ⟨-, h⟩ j ⟨k, hk, hpart⟩
    have := h k hk
    rw [findSubsequence_eq_none (by simp [keyMark_eq])] at this
    exact this j hpart
  . intro h
    refine ⟨rfl, fun k hk => ?_⟩
    rw [findSubsequence_eq_none (by simp [keyMark_eq])]
    exact fun j hj => h j ⟨k, hk, hj⟩

theorem foundKeyIdx_eq_some {rest : List UInt8} {i : Nat} (h : foundKeyIdx rest = some i)
    : KeyMark (rest.drop i) ∧ ∀ j < i, ¬ KeyMark (rest.drop j) := by
  rw [foundKeyIdx_eq_firstOf, firstOf_eq_some] at h
  rcases h with ⟨hfound, -, hfirst⟩
  constructor
  . rcases hfound with hfound | ⟨k, hk, hfind⟩
    . simp at hfound
    . rw [findSubsequence_eq_some (by simp [keyMark_eq])] at hfind
      exact ⟨k, hk, hfind.1⟩
  . rintro j hj ⟨k, hk, hpart⟩
    cases hfind : findSubsequence rest (keyMark k) with
    | none =>
      rw [findSubsequence_eq_none (by simp [keyMark_eq])] at hfind
      exact hfind j hpart
    | some i' =>
      have hle := hfirst k hk i' hfind
      rw [findSubsequence_eq_some (by simp [keyMark_eq])] at hfind
      exact hfind.2 j (by omega) hpart

/--
`MotdEnds motd tail`: in the bytes `motd ++ tail` behind the `hostname` key, the MOTD is `motd`. It
ends at the first known key between two NULs, else at the first of two NULs, else in front of the
last byte.
-/
inductive MotdEnds : List UInt8 → List UInt8 → Prop where
  | key {motd tail : List UInt8} :
      KeyMark tail → (∀ j < motd.length, ¬ KeyMark ((motd ++ tail).drop j)) → MotdEnds motd tail
  | doubleNull {motd r : List UInt8} :
      (∀ j, ¬ KeyMark ((motd ++ 0 :: 0 :: r).drop j)) →
      (∀ j < motd.length, ¬ [0, 0] <+: (motd ++ 0 :: 0 :: r).drop j) →
      MotdEnds motd (0 :: 0 :: r)
  | last {motd : List UInt8} {b : UInt8} :
      (∀ j, ¬ KeyMark ((motd ++ [b]).drop j)) →
      (∀ j < motd.length, ¬ [0, 0] <+: (motd ++ [b]).drop j) →
      MotdEnds motd [b]
  | nil : MotdEnds [] []

theorem prefix_drop_iff {body : List UInt8} {e : Nat}
    : [0, 0] <+: body.drop e ↔ body[e]? = some 0x00 ∧ body[e + 1]? = some 0x00 := by
  rw [List.prefix_iff_getElem?]
  constructor
  . intro h
    have h0 := h 0 (by simp)
    have h1 := h 1 (by simp)
    simp only [List.getElem?_drop] at h0 h1
    exact ⟨h0, h1⟩
  . rintro ⟨h0, h1⟩ i hi
    match i with
    | 0 => simpa [List.getElem?_drop] using h0
    | 1 => simpa [List.getElem?_drop] using h1

theorem readUntilDoubleNull_spec (body : List UInt8) (e : Nat) (h : e ≤ body.length)
    : readUntilDoubleNull body e ≤ body.length
        ∧ (∀ j, e ≤ j → j < readUntilDoubleNull body e → ¬ [0, 0] <+: body.drop j)
        ∧ (e < body.length →
            [0, 0] <+: body.drop (readUntilDoubleNull body e)
              ∨ readUntilDoubleNull body e = body.length - 1) := by
  unfold readUntilDoubleNull
  split
  . next hmore =>
    rw [← prefix_drop_iff] at hmore
    rcases readUntilDoubleNull_spec body (e + 1) (by omega) with ⟨hle, hfirst, hstop⟩
    refine ⟨hle, fun j h1 h2 => ?_, fun _ => hstop (by omega)⟩
    cases Nat.eq_or_lt_of_le h1 with
    | inl heq => exact heq ▸ hmore.2
    | inr hlt => exact hfirst j hlt h2
  . next hdone =>
    rw [← prefix_drop_iff] at hdone
    refine ⟨h, fun j h1 h2 => by omega, fun hlt => ?_⟩
    by_cases hnulls : [0, 0] <+: body.drop e
    . exact Or.inl hnulls
    . have : ¬ e < body.length - 1 := fun hlt' => hdone ⟨hlt', hnulls⟩
      exact Or.inr (by omega)
termination_by body.length - e

theorem exists_append {l : List UInt8} {n : Nat} (h : n ≤ l.length)
    : ∃ front back, l = front ++ back ∧ front.length = n :=
  ⟨l.take n, l.drop n, (List.take_append_drop n l).symm, List.length_take_of_le h⟩

theorem motdEnds_readUntilDoubleNull {body : List UInt8} {pos : Nat} (h : pos ≤ body.length)
    (hkeys : ∀ j, ¬ KeyMark ((body.drop pos).drop j))
    : ∃ motd tail, readUntilDoubleNull body pos = pos + motd.length
        ∧ body.drop pos = motd ++ tail ∧ MotdEnds motd tail := by
  have hle := le_readUntilDoubleNull body pos
  rcases readUntilDoubleNull_spec body pos h with ⟨hlen, hfirst, hstop⟩
  have hfit : readUntilDoubleNull body pos - pos ≤ (body.drop pos).length := by
    rw [List.length_drop]
    omega
  rcases exists_append hfit with ⟨motd, tail, hsplit, hmotd⟩
  have hend : readUntilDoubleNull body pos = pos + motd.length := by omega
  rw [hend] at hfirst hstop
  have hnone : ∀ j < motd.length, ¬ [0, 0] <+: (motd ++ tail).drop j := by
    intro j hj
    rw [← hsplit, List.drop_drop]
    exact hfirst (pos + j) (by omega) (by omega)
  have htail : body.drop (pos + motd.length) = tail := by
    rw [← List.drop_drop, hsplit, List.drop_left]
  rw [hsplit] at hkeys
  refine ⟨motd, tail, hend, hsplit, ?_⟩
  cases Nat.eq_or_lt_of_le h with
  | inl heq =>
    rw [heq, List.drop_length] at hsplit
    rcases List.append_eq_nil_iff.mp hsplit.symm with ⟨rfl, rfl⟩
    exact MotdEnds.nil
  | inr hlt =>
    rcases hstop hlt with ⟨r, hr⟩ | hlast
    . rw [htail] at hr
      rw [← hr] at hkeys hnone ⊢
      exact MotdEnds.doubleNull hkeys hnone
    . have hone : ∃ b, tail = [b] := by
        rw [← List.length_eq_one_iff, ← htail, List.length_drop]
        omega
      rcases hone with ⟨b, rfl⟩
      exact MotdEnds.last hkeys hnone

theorem motdEnd_spec {body : List UInt8} {pos : Nat} (h : pos ≤ body.length)
    : ∃ motd tail, motdEnd body pos = .ok (pos + motd.length)
        ∧ body.drop pos = motd ++ tail ∧ MotdEnds motd tail := by
  simp only [motdEnd, sliceFrom_of_le h, ok_bind]
  cases hfound : foundKeyIdx (body.drop pos) with
  | some idx =>
    rcases foundKeyIdx_eq_some hfound with ⟨hmark, hfirst⟩
    have hfit : idx ≤ (body.drop pos).length := by
      rcases hmark.exists_cons with ⟨r, hr⟩
      have := congrArg List.length hr
      rw [List.length_drop, List.length_cons] at this
      omega
    rcases exists_append hfit with ⟨motd, tail, hsplit, rfl⟩
    rw [hsplit] at hmark hfirst
    rw [List.drop_left] at hmark
    exact ⟨motd, tail, rfl, hsplit, MotdEnds.key hmark hfirst⟩
  | none =>
    rcases motdEnds_readUntilDoubleNull h (foundKeyIdx_eq_none.mp hfound)
      with ⟨motd, tail, hend, hsplit, hends⟩
    exact ⟨motd, tail, congrArg Except.ok hend, hsplit, hends⟩

end QueryClient

end Rust

end McStatus
