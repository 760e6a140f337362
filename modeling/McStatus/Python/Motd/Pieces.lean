import McStatus.Python.Motd.StringParser

/-!
This module contains where in a string the pieces stand that the regular expression splits it into.
-/

namespace McStatus

namespace Python

namespace Motd

def NoMatch (s : List Char) : Prop :=
  ∀ front c code back, s = front ++ c :: code :: back → ¬ IsMatch c code

theorem noMatch_of_length {s : List Char} (h : s.length < 2) : NoMatch s := by
  rintro front c code back rfl _
  rw [List.length_append, List.length_cons, List.length_cons] at h
  omega

theorem NoMatch.concat {s : List Char} {c code : Char} (h : NoMatch (s ++ [c]))
    (hno : ¬ IsMatch c code) : NoMatch (s ++ [c] ++ [code]) := by
  intro front c' code' back heq
  rcases List.eq_nil_or_concat back with rfl | ⟨back, x, rfl⟩
  . rw [List.append_assoc] at heq
    rcases List.append_inj' heq rfl with ⟨_, heq⟩
    cases heq
    exact hno
  . rw [List.concat_eq_append, ← List.cons_append, ← List.cons_append, ← List.append_assoc] at heq
    exact h front c' code' back (List.append_inj' heq rfl).1

theorem NoMatch.left {s t : List Char} (h : NoMatch (s ++ t)) : NoMatch s := by
  intro front c code back heq
  apply h front c code (back ++ t)
  rw [heq]
  simp

theorem NoMatch.right {s t : List Char} (h : NoMatch (s ++ t)) : NoMatch t := by
  intro front c code back heq
  apply h (s ++ front) c code back
  rw [heq, List.append_assoc]

theorem IsMatch.not_isCodeStart {c code : Char} (h : IsMatch c code)
    : isCodeStart code = false := by
  rw [← Bool.not_eq_true]
  intro hstart
  have hcode := isCode_of_isCodeStart hstart
  rw [h.2] at hcode
  cases hcode

theorem EndsWithCode.append {s : List Char} (h : EndsWithCode s) (t : List Char)
    : EndsWithCode (t ++ s) := by
  rcases h with ⟨front, c, code, rfl, hmatch⟩
  exact ⟨t ++ front, c, code, by rw [List.append_assoc], hmatch⟩

def Alone (front back : List Char) : Prop :=
  (front = [] ∨ EndsWithCode front) ∧ (back = [] ∨ StartsWithCode back)

def IsPiece (front piece back : List Char) : Prop :=
  (∃ c code, piece = [c, code] ∧ IsMatch c code) ∨ (NoMatch piece ∧ Alone front back)

theorem exists_isPiece {text raw piece : List Char} (h : NoMatch (text ++ raw.take 1))
    (hmem : piece ∈ splitCodes text raw)
    : ∃ front back, text ++ raw = front ++ piece ++ back ∧ IsPiece front piece back := by
  fun_induction splitCodes text raw with
  | case1 text =>
    rw [List.mem_singleton.mp hmem]
    exact ⟨[], [], by simp, Or.inr ⟨h.left, Or.inl rfl, Or.inl rfl⟩⟩
  | case2 text c =>
    rw [List.mem_singleton.mp hmem]
    exact ⟨[], [], by simp, Or.inr ⟨h, Or.inl rfl, Or.inl rfl⟩⟩
  | case3 text c code rest hmatch ih =>
    rcases List.mem_cons.mp hmem with rfl | hmem
    . exact ⟨[], c :: code :: rest, by simp,
        Or.inr ⟨h.left, Or.inl rfl, Or.inr ⟨c, code, rest, rfl, hmatch⟩⟩⟩
    rcases List.mem_cons.mp hmem with rfl | hmem
    . exact ⟨text, rest, by simp, Or.inl ⟨c, code, rfl, hmatch⟩⟩
    have hshort : NoMatch ([] ++ rest.take 1) := by
      apply noMatch_of_length
      rw [List.nil_append, List.length_take]
      omega
    rcases ih hshort hmem with ⟨front, back, heq, hpiece⟩
    refine ⟨text ++ [c, code] ++ front, back, ?_, ?_⟩
    . rw [List.nil_append] at heq
      rw [heq]
      simp
    rcases hpiece with hcode | ⟨hno, hfront, hback⟩
    . exact Or.inl hcode
    . refine Or.inr ⟨hno, Or.inr ?_, hback⟩
      rcases hfront with rfl | hfront
      . rw [List.append_nil]
        exact ⟨text, c, code, rfl, hmatch⟩
      . exact hfront.append _
  | case4 text c code rest hmatch ih =>
    rcases ih (h.concat hmatch) hmem with ⟨front, back, heq, hpiece⟩
    refine ⟨front, back, ?_, hpiece⟩
    rw [← heq, List.append_assoc]
    rfl

theorem splitCodes_noMatch {piece back : List Char} (h : NoMatch piece)
    (hback : back = [] ∨ StartsWithCode back) (text : List Char)
    : ∃ pieces, splitCodes text (piece ++ back) = (text ++ piece) :: pieces := by
  induction piece generalizing text with
  | nil =>
    rw [List.append_nil]
    rcases hback with rfl | ⟨c, code, rest, rfl, hmatch⟩
    . exact ⟨[], rfl⟩
    . exact ⟨_, splitCodes_match hmatch text rest⟩
  | cons c piece ih =>
    rw [List.cons_append]
    cases hrest : piece ++ back with
    | nil =>
      rw [(List.append_eq_nil_iff.mp hrest).1]
      exact ⟨[], rfl⟩
    | cons code rest =>
      have hno : ¬ IsMatch c code := by
        cases piece with
        | cons d piece =>
          rw [List.cons_append, List.cons.injEq] at hrest
          rw [← hrest.1]
          exact h [] c d piece rfl
        | nil =>
          rcases hback with rfl | ⟨c', code', rest', rfl, hmatch⟩
          . cases hrest
          . intro hcode
            cases hrest
            have hstart := hcode.not_isCodeStart
            rw [hmatch.1] at hstart
            cases hstart
      rw [splitCodes_next hno, ← hrest]
      rcases ih (NoMatch.right (s := [c]) h) (text ++ [c]) with ⟨pieces, hpieces⟩
      exact ⟨pieces, by rw [hpieces, List.append_assoc, List.singleton_append]⟩

theorem noMatchAcross_of_isCodeStart {c : Char} (h : isCodeStart c = true) (s t : List Char)
    : NoMatchAcross s (c :: t) := by
  intro x y _ hy hmatch
  cases hy
  have hstart := hmatch.not_isCodeStart
  rw [h] at hstart
  cases hstart

theorem mem_splitCodes_iff {s piece : List Char}
    : piece ∈ splitCodes [] s
      ↔ ∃ front back, s = front ++ piece ++ back ∧ IsPiece front piece back := by
  constructor
  . intro hmem
    have hshort : NoMatch ([] ++ s.take 1) := by
      apply noMatch_of_length
      rw [List.nil_append, List.length_take]
      omega
    exact exists_isPiece hshort hmem
  rintro ⟨front, back, rfl, hpiece⟩
  rcases exists_lastPiece [] front with ⟨pieces, last, _, happend, hnil, _⟩
  rw [List.append_assoc]
  rcases hpiece with ⟨c, code, rfl, hmatch⟩ | ⟨hno, hfront, hback⟩
  . have hacross := noMatchAcross_of_isCodeStart hmatch.1 front (code :: back)
    rw [List.cons_append, List.cons_append, List.nil_append, happend _ hacross,
      splitCodes_match hmatch]
    simp
  . have hacross : NoMatchAcross front (piece ++ back) := by
      rcases hfront with rfl | hfront
      . exact nofun
      . exact hfront.ends.noMatchAcross _
    have hlast : last = [] := hnil.mpr (hfront.imp_left fun h => ⟨rfl, h⟩)
    rcases splitCodes_noMatch hno hback [] with ⟨rest, hrest⟩
    rw [happend _ hacross, hlast, hrest, List.nil_append]
    simp

theorem exists_piece_around {c letter : Char} (hc : isCodeStart c = true)
    (hcode : Motd.isCode letter = false) (hletter : isCodeStart letter = false)
    (front back : List Char)
    : ∃ a b, a ++ c :: letter :: b ∈ splitCodes [] (front ++ c :: letter :: back)
        ∧ (a = [] → b = [] → Alone front back) := by
  rcases exists_lastPiece [] front with ⟨pieces, last, _, happend, hnil, _⟩
  rcases exists_first_piece back with ⟨first, rest, hfirst, hfirstnil⟩
  have hno : ¬ IsMatch c letter := by
    intro hmatch
    rw [hmatch.2] at hcode
    cases hcode
  have hsplit : splitCodes (last ++ [c]) (letter :: back)
      = splitCodes (last ++ [c] ++ [letter]) back := by
    cases back with
    | nil => rfl
    | cons d back =>
      refine splitCodes_next (fun hmatch => ?_) _ _
      rw [hmatch.1] at hletter
      cases hletter
  refine ⟨last, first, ?_, ?_⟩
  . rw [happend _ (noMatchAcross_of_isCodeStart hc front _), splitCodes_next hno, hsplit, hfirst]
    simp
  . intro hlast hfirst
    exact ⟨(hnil.mp hlast).imp_left And.right, hfirstnil.mp hfirst⟩

theorem eq_nil_of_endsWithCode {front a : List Char} (hfront : front = [] ∨ EndsWithCode front)
    (ha : NoMatch a) (h : front ++ a = [] ∨ EndsWithCode (front ++ a)) : a = [] := by
  rcases h with h | ⟨init, c, code, heq, hmatch⟩
  . exact (List.append_eq_nil_iff.mp h).2
  rcases List.eq_nil_or_concat a with rfl | ⟨a, code', rfl⟩
  . rfl
  rcases List.eq_nil_or_concat a with rfl | ⟨a, c', rfl⟩
  . -- the match would start with the letter of another
    have hpair : init ++ [c, code] = (init ++ [c]) ++ [code] := by simp
    rw [List.concat_eq_append, List.nil_append, hpair] at heq
    rcases List.append_inj' heq rfl with ⟨hinit, _⟩
    rcases hfront with rfl | hfront
    . cases init <;> cases hinit
    . have hend := hfront.ends c (by rw [hinit, List.getLast?_concat])
      rw [hmatch.1] at hend
      cases hend
  . rw [List.concat_eq_append, List.concat_eq_append, List.append_assoc, ← List.append_assoc] at heq
    have hpair := (List.append_inj' heq rfl).2
    cases hpair
    refine absurd hmatch (ha a c code [] ?_)
    rw [List.concat_eq_append, List.concat_eq_append, List.append_assoc]
    rfl

theorem eq_nil_of_startsWithCode {b back : List Char} (hback : back = [] ∨ StartsWithCode back)
    (hb : NoMatch b) (h : b ++ back = [] ∨ StartsWithCode (b ++ back)) : b = [] := by
  rcases h with h | ⟨c, code, rest, heq, hmatch⟩
  . exact (List.append_eq_nil_iff.mp h).1
  match b with
  | [] => rfl
  | [x] =>
    rcases hback with rfl | ⟨c', code', rest', rfl, hmatch'⟩
    . cases heq
    . cases heq
      have hstart := hmatch.not_isCodeStart
      rw [hmatch'.1] at hstart
      cases hstart
  | x :: y :: b =>
    cases heq
    exact absurd hmatch (hb [] c code b rfl)

end Motd

end Python

end McStatus
