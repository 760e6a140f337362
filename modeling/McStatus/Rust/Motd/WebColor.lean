import McStatus.Library.Text
import McStatus.Rust.Motd.Impl

/-!
This module contains when `parse_web_color` slices a string between two characters, and not through
one.
-/

namespace McStatus

open Fallible

namespace Rust

theorem takeBytes_zero_eq_some_iff {s front back : List Char}
    : takeBytes 0 s = some (front, back) ↔ s = front ++ back ∧ utf8Len front = 0 := by
  have hzero : takeBytes 0 s = some ([], s) := by cases s <;> rfl
  rw [hzero, utf8Len_eq_zero_iff, Option.some.injEq, Prod.mk.injEq]
  constructor
  . rintro ⟨rfl, rfl⟩
    exact ⟨rfl, rfl⟩
  . rintro ⟨heq, rfl⟩
    exact ⟨rfl, heq⟩

theorem takeBytes_cons_eq_some_iff {n : Nat} {c c' : Char} {s front back : List Char} (hn : 0 < n)
    : takeBytes n (c :: s) = some (c' :: front, back)
        ↔ c = c' ∧ c.utf8Size ≤ n ∧ takeBytes (n - c.utf8Size) s = some (front, back) := by
  rw [takeBytes]
  . split
    . next hle => simp [Option.map_eq_some_iff, hle, and_comm]
    . next hle => simp [hle]
  . rintro rfl
    omega

theorem takeBytes_eq_some_iff {n : Nat} {s front back : List Char}
    : takeBytes n s = some (front, back) ↔ s = front ++ back ∧ utf8Len front = n := by
  induction s generalizing n front with
  | nil =>
    cases n with
    | zero => exact takeBytes_zero_eq_some_iff
    | succ n =>
      simp only [takeBytes, reduceCtorEq, false_iff, not_and]
      intro heq
      rw [(List.append_eq_nil_iff.mp heq.symm).1, utf8Len_nil]
      omega
  | cons c s ih =>
    cases n with
    | zero => exact takeBytes_zero_eq_some_iff
    | succ n =>
      cases front with
      | nil =>
        -- what is taken of a character in front is not empty
        rw [utf8Len_nil]
        refine iff_of_false (fun h => ?_) (fun h => by omega)
        rw [takeBytes] at h
        . split at h
          . rcases Option.map_eq_some_iff.mp h with ⟨_, _, heq⟩
            cases heq
          . cases h
        . exact nofun
      | cons c' front =>
        rw [takeBytes_cons_eq_some_iff (Nat.succ_pos n), ih, List.cons_append, List.cons.injEq,
          utf8Len_cons]
        constructor
        . rintro ⟨rfl, hle, rfl, hlen⟩
          exact ⟨⟨rfl, rfl⟩, by omega⟩
        . rintro ⟨⟨rfl, rfl⟩, hlen⟩
          exact ⟨rfl, by omega, rfl, by omega⟩

theorem sliceStr_eq {front middle back : List Char} {start stop : Nat}
    (hfront : utf8Len front = start) (hmiddle : utf8Len middle = stop - start)
    : sliceStr (front ++ (middle ++ back)) start stop = .ok middle := by
  rw [sliceStr, takeBytes_eq_some_iff.mpr ⟨rfl, hfront⟩]
  dsimp only
  rw [takeBytes_eq_some_iff.mpr ⟨rfl, hmiddle⟩]
  rfl

theorem exists_of_sliceStr {s middle : List Char} {start stop : Nat}
    (h : sliceStr s start stop = .ok middle)
    : ∃ front back, s = front ++ (middle ++ back) ∧ utf8Len front = start
        ∧ utf8Len middle = stop - start := by
  unfold sliceStr at h
  split at h
  . next front rest hfront =>
    split at h
    . next middle' back hmiddle =>
      cases h
      rcases takeBytes_eq_some_iff.mp hfront with ⟨rfl, hlen⟩
      rcases takeBytes_eq_some_iff.mp hmiddle with ⟨rfl, hlen'⟩
      exact ⟨front, back, rfl, hlen, hlen'⟩
    . cases h
  . cases h

theorem slices_iff {s first second third : List Char}
    : (utf8Len s = 6 ∧ sliceStr s 0 2 = .ok first ∧ sliceStr s 2 4 = .ok second
        ∧ sliceStr s 4 6 = .ok third)
      ↔ s = first ++ (second ++ third)
        ∧ (utf8Len first = 2 ∧ utf8Len second = 2 ∧ utf8Len third = 2) := by
  constructor
  . rintro ⟨hlen, hfirst, hsecond, hthird⟩
    rcases exists_of_sliceStr hfirst with ⟨front, rest, heq, hfront, hlen1⟩
    rcases exists_of_sliceStr hsecond with ⟨front', rest', heq', hfront', hlen2⟩
    rcases exists_of_sliceStr hthird with ⟨front'', rest'', heq'', hfront'', hlen3⟩
    rw [utf8Len_eq_zero_iff.mp hfront, List.nil_append] at heq
    have hsplit := takeBytes_eq_some_iff.mpr ⟨heq', hfront'⟩
    rw [takeBytes_eq_some_iff.mpr ⟨heq, hlen1⟩, Option.some.injEq, Prod.mk.injEq] at hsplit
    rcases hsplit with ⟨rfl, rfl⟩
    have hfour : utf8Len (first ++ second) = 4 := by rw [utf8Len_append, hlen1, hlen2]
    have hsplit := takeBytes_eq_some_iff.mpr ⟨heq'', hfront''⟩
    rw [takeBytes_eq_some_iff.mpr ⟨by rw [heq, List.append_assoc], hfour⟩,
      Option.some.injEq, Prod.mk.injEq] at hsplit
    rcases hsplit with ⟨rfl, rfl⟩
    have hend : rest'' = [] := by
      rw [heq'', utf8Len_append, hfour, utf8Len_append, hlen3] at hlen
      exact utf8Len_eq_zero_iff.mp (by omega)
    rw [hend, List.append_nil] at heq
    exact ⟨heq, hlen1, hlen2, hlen3⟩
  . rintro ⟨rfl, hlen1, hlen2, hlen3⟩
    refine ⟨by rw [utf8Len_append, utf8Len_append, hlen1, hlen2, hlen3], ?_, ?_, ?_⟩
    . exact @sliceStr_eq [] first (second ++ third) 0 2 rfl hlen1
    . exact sliceStr_eq hlen1 hlen2
    . have hfour : utf8Len (first ++ second) = 4 := by rw [utf8Len_append, hlen1, hlen2]
      have hslice := @sliceStr_eq (first ++ second) third [] 4 6 hfour hlen3
      rwa [List.append_nil, List.append_assoc] at hslice

/-- The string is cut into pairs of bytes, as far as the pairs before the cut are numbers. -/
def CutsInPairs (s : List Char) : Prop :=
  utf8Len s = 6 → ∃ first rest, s = first ++ rest ∧ utf8Len first = 2
    ∧ (parseHexU8 first ≠ none → ∃ second third, rest = second ++ third ∧ utf8Len second = 2)

theorem CutsInPairs.of_parseWebColor {s : List Char} {color : Option WebColor}
    (h : parseWebColor s = .ok color) : CutsInPairs (s.dropWhile (· = '#')) := by
  intro hlen
  unfold parseWebColor at h
  dsimp only at h
  rw [if_pos hlen] at h
  rcases bind_eq_ok.mp h with ⟨first, hfirst, h⟩
  rcases exists_of_sliceStr hfirst with ⟨front, rest, heq, hfront, hfirstlen⟩
  rw [utf8Len_eq_zero_iff.mp hfront, List.nil_append] at heq
  refine ⟨first, rest, heq, hfirstlen, fun hhex => ?_⟩
  split at h
  . next hnone => exact absurd hnone hhex
  . rcases bind_eq_ok.mp h with ⟨second, hsecond, _⟩
    rcases exists_of_sliceStr hsecond with ⟨front', third, heq', hfront', hsecondlen⟩
    -- both cuts after the first two bytes are the same
    have htake := takeBytes_eq_some_iff.mpr ⟨heq', hfront'⟩
    rw [takeBytes_eq_some_iff.mpr ⟨heq, hfirstlen⟩, Option.some.injEq, Prod.mk.injEq] at htake
    exact ⟨second, third, htake.2, hsecondlen⟩

theorem CutsInPairs.parseWebColor_ok {s : List Char} (h : CutsInPairs (s.dropWhile (· = '#')))
    : ∃ color, parseWebColor s = .ok color := by
  unfold parseWebColor
  dsimp only
  by_cases hlen : utf8Len (s.dropWhile (· = '#')) = 6
  . rcases h hlen with ⟨first, rest, heq, hfirst, hrest⟩
    have hslice : sliceStr (s.dropWhile (· = '#')) 0 2 = .ok first := by
      rw [heq]
      exact @sliceStr_eq [] first rest 0 2 rfl hfirst
    rw [if_pos hlen, hslice, ok_bind]
    cases hr : parseHexU8 first with
    | none => exact ⟨none, rfl⟩
    | some r =>
      rcases hrest (by rw [hr]; exact Option.some_ne_none r) with ⟨second, third, rfl, hsecond⟩
      have hthird : utf8Len third = 2 := by
        rw [heq, utf8Len_append, utf8Len_append] at hlen
        omega
      rcases slices_iff.mpr ⟨heq, hfirst, hsecond, hthird⟩ with ⟨-, -, hslice', hslice''⟩
      dsimp only
      rw [hslice', ok_bind]
      cases parseHexU8 second with
      | none => exact ⟨none, rfl⟩
      | some g =>
        dsimp only
        rw [hslice'', ok_bind]
        cases parseHexU8 third with
        | none => exact ⟨none, rfl⟩
        | some b => exact ⟨_, rfl⟩
  . rw [if_neg hlen]
    exact ⟨none, rfl⟩

/-- A color that can be read, or that is left out, but that no slice panics on. -/
def ColorReads (s : List Char) : Prop :=
  MinecraftColor.fromCodeStr s = none → CutsInPairs (s.dropWhile (· = '#'))

theorem parseColor_ok_iff {s : List Char} : (∃ color, parseColor s = .ok color) ↔ ColorReads s := by
  unfold parseColor
  constructor
  . rintro ⟨color, h⟩ hnone
    rw [hnone] at h
    rcases bind_eq_ok.mp h with ⟨web, hweb, _⟩
    exact CutsInPairs.of_parseWebColor hweb
  . intro h
    cases hnamed : MinecraftColor.fromCodeStr s with
    | some color => exact ⟨_, rfl⟩
    | none =>
      rcases (h hnamed).parseWebColor_ok with ⟨web, hweb⟩
      dsimp only
      rw [hweb]
      exact ⟨_, rfl⟩

theorem emitColor_ok_iff {color : Option (List Char)}
    : (∃ components, emitColor color = .ok components) ↔ ∀ s, color = some s → ColorReads s := by
  cases color with
  | none =>
    constructor
    . intro _ s hs
      cases hs
    . intro _
      exact ⟨[], rfl⟩
  | some color_str =>
    rw [emitColor]
    constructor
    . rintro ⟨components, h⟩ s hs
      cases hs
      rcases bind_eq_ok.mp h with ⟨color, hcolor, _⟩
      exact parseColor_ok_iff.mp ⟨color, hcolor⟩
    . intro h
      rcases parseColor_ok_iff.mpr (h color_str rfl) with ⟨color, hcolor⟩
      rw [hcolor]
      exact ⟨_, rfl⟩

theorem emitObject_ok_iff {obj : List (List Char × Value)} {style : StyleState}
    : (∃ components, emitObject obj style = .ok components)
        ↔ ∀ s, style.color = some s → ColorReads s := by
  rw [← emitColor_ok_iff, emitObject]
  constructor
  . rintro ⟨components, h⟩
    rcases bind_eq_ok.mp h with ⟨color, hcolor, _⟩
    exact ⟨color, hcolor⟩
  . rintro ⟨color, hcolor⟩
    rw [hcolor]
    exact ⟨_, rfl⟩

end Rust

end McStatus
