import McStatus.Rust.Motd.Events
import McStatus.Rust.Motd.Motd
import McStatus.Rust.Motd.WebColor

/-!
This module contains which strings `parse_web_color` reads as they are documented, and which JSON
values `Motd::from_json` returns for.
-/

namespace McStatus

open Fallible

namespace Rust

def IsHexPair (pair : List Char) (value : UInt8) : Prop :=
  ∃ a b x y, pair = [a, b] ∧ hexDigit? a = some x ∧ hexDigit? b = some y
    ∧ value = UInt8.ofNat (16 * x + y)

def IsHexColor (s : List Char) (color : WebColor) : Prop :=
  ∃ first second third, s = first ++ (second ++ third) ∧ IsHexPair first color.r
    ∧ IsHexPair second color.g ∧ IsHexPair third color.b

theorem hexDigit_lt {c : Char} {x : Nat} (h : hexDigit? c = some x) : x < 16 ∧ c.utf8Size = 1 := by
  unfold hexDigit? at h
  have hsize : c.toNat ≤ 'f'.toNat → c.utf8Size = 1 := by
    intro hle
    rw [Char.utf8Size_eq_one_iff]
    exact UInt32.le_iff_toNat_le.mpr (Nat.le_trans hle (by decide))
  split at h
  . next hdigit =>
    cases h
    rw [Char.isDigit, Bool.and_eq_true, decide_eq_true_eq, decide_eq_true_eq] at hdigit
    have hle : c.toNat ≤ '9'.toNat := hdigit.2
    exact ⟨by simp only [Char.reduceToNat] at hle ⊢; omega, hsize (Nat.le_trans hle (by decide))⟩
  . split at h
    . next hlower =>
      cases h
      have hle : c.toNat ≤ 'f'.toNat := hlower.2
      exact ⟨by simp only [Char.reduceToNat] at hle ⊢; omega, hsize hle⟩
    . split at h
      . next hupper =>
        cases h
        have hle : c.toNat ≤ 'F'.toNat := hupper.2
        exact ⟨by simp only [Char.reduceToNat] at hle ⊢; omega,
          hsize (Nat.le_trans hle (by decide))⟩
      . cases h

theorem hexDigit_plus : hexDigit? '+' = none := by decide

theorem IsHexPair.utf8Len {pair : List Char} {value : UInt8} (h : IsHexPair pair value)
    : McStatus.utf8Len pair = 2 := by
  rcases h with ⟨a, b, x, y, rfl, ha, hb, -⟩
  rw [utf8Len_cons, utf8Len_cons, utf8Len_nil, (hexDigit_lt ha).2, (hexDigit_lt hb).2]

theorem IsHexPair.plus_not_mem {pair : List Char} {value : UInt8} (h : IsHexPair pair value)
    : '+' ∉ pair := by
  rcases h with ⟨a, b, x, y, rfl, ha, hb, -⟩
  intro hmem
  rcases List.mem_pair.mp hmem with rfl | rfl
  . rw [hexDigit_plus] at ha
    cases ha
  . rw [hexDigit_plus] at hb
    cases hb

theorem parseHexU8_of_ne_plus {s : List Char} (hplus : s.head? ≠ some '+') (hne : s ≠ [])
    : parseHexU8 s
        = ((s.foldlM (fun n c => (hexDigit? c).map (16 * n + ·)) 0).filter (· < UInt8.size)).map
          UInt8.ofNat := by
  cases s with
  | nil => exact absurd rfl hne
  | cons c s =>
    have hc : c ≠ '+' := fun heq => hplus (congrArg some heq)
    unfold parseHexU8
    split
    . next heq => exact absurd (List.cons.inj heq).1 hc
    . rfl

theorem parseHexU8_pair_of_digits {a b : Char} {x y : Nat} (ha : hexDigit? a = some x)
    (hb : hexDigit? b = some y) : parseHexU8 [a, b] = some (UInt8.ofNat (16 * x + y)) := by
  have hplus : [a, b].head? ≠ some '+' := by
    intro heq
    rw [Option.some.inj heq, hexDigit_plus] at ha
    cases ha
  have hx := (hexDigit_lt ha).1
  have hy := (hexDigit_lt hb).1
  rw [parseHexU8_of_ne_plus hplus (List.cons_ne_nil a [b])]
  have hlt : 16 * x + y < UInt8.size := by
    have hsize : UInt8.size = 256 := rfl
    omega
  simp [ha, hb, hlt]

theorem parseHexU8_pair_iff {s : List Char} (hlen : utf8Len s = 2) (hplus : '+' ∉ s) {value : UInt8}
    : parseHexU8 s = some value ↔ IsHexPair s value := by
  constructor
  . intro h
    have hhead : s.head? ≠ some '+' := fun heq => hplus (List.mem_of_head? heq)
    match s with
    | [] => cases hlen
    | [a] =>
      rw [parseHexU8_of_ne_plus hhead (List.cons_ne_nil a [])] at h
      cases ha : hexDigit? a with
      | none => simp [ha] at h
      | some x =>
        have hsize := (hexDigit_lt ha).2
        rw [utf8Len_cons, hsize] at hlen
        cases hlen
    | [a, b] =>
      cases ha : hexDigit? a with
      | none =>
        rw [parseHexU8_of_ne_plus hhead (List.cons_ne_nil a [b])] at h
        simp [ha] at h
      | some x =>
        cases hb : hexDigit? b with
        | none =>
          rw [parseHexU8_of_ne_plus hhead (List.cons_ne_nil a [b])] at h
          simp [ha, hb] at h
        | some y =>
          rw [parseHexU8_pair_of_digits ha hb, Option.some.injEq] at h
          exact ⟨a, b, x, y, rfl, ha, hb, h.symm⟩
    | a :: b :: c :: s =>
      have := length_le_utf8Len s
      have := a.utf8Size_pos
      have := b.utf8Size_pos
      have := c.utf8Size_pos
      rw [utf8Len_cons, utf8Len_cons, utf8Len_cons] at hlen
      omega
  . rintro ⟨a, b, x, y, rfl, ha, hb, rfl⟩
    exact parseHexU8_pair_of_digits ha hb

def PairsParse (s : List Char) (color : WebColor) : Prop :=
  ∃ first second third, s = first ++ (second ++ third)
    ∧ (utf8Len first = 2 ∧ utf8Len second = 2 ∧ utf8Len third = 2)
    ∧ parseHexU8 first = some color.r ∧ parseHexU8 second = some color.g
    ∧ parseHexU8 third = some color.b

theorem exists_slices_of_parseWebColor {s : List Char} {color : WebColor}
    (h : parseWebColor s = .ok (some color))
    : ∃ first second third,
        (utf8Len (s.dropWhile (· = '#')) = 6
          ∧ sliceStr (s.dropWhile (· = '#')) 0 2 = .ok first
          ∧ sliceStr (s.dropWhile (· = '#')) 2 4 = .ok second
          ∧ sliceStr (s.dropWhile (· = '#')) 4 6 = .ok third)
        ∧ parseHexU8 first = some color.r ∧ parseHexU8 second = some color.g
        ∧ parseHexU8 third = some color.b := by
  unfold parseWebColor at h
  dsimp only at h
  split at h
  . next hlen =>
    rcases bind_eq_ok.mp h with ⟨first, hfirst, h⟩
    cases hr : parseHexU8 first with
    | none =>
      rw [hr] at h
      cases h
    | some r =>
      rw [hr] at h
      rcases bind_eq_ok.mp h with ⟨second, hsecond, h⟩
      cases hg : parseHexU8 second with
      | none =>
        rw [hg] at h
        cases h
      | some g =>
        rw [hg] at h
        rcases bind_eq_ok.mp h with ⟨third, hthird, h⟩
        cases hb : parseHexU8 third with
        | none =>
          rw [hb] at h
          cases h
        | some b =>
          rw [hb] at h
          cases h
          exact ⟨first, second, third, ⟨hlen, hfirst, hsecond, hthird⟩, hr, hg, hb⟩
  . cases h

theorem parseWebColor_eq_some_iff {s : List Char} {color : WebColor}
    : parseWebColor s = .ok (some color) ↔ PairsParse (s.dropWhile (· = '#')) color := by
  constructor
  . intro h
    rcases exists_slices_of_parseWebColor h with ⟨first, second, third, hslices, hparse⟩
    rcases slices_iff.mp hslices with ⟨heq, hlen⟩
    exact ⟨first, second, third, heq, hlen, hparse⟩
  . rintro ⟨first, second, third, heq, hlen, hr, hg, hb⟩
    rcases slices_iff.mpr ⟨heq, hlen⟩ with ⟨hsix, hfirst, hsecond, hthird⟩
    unfold parseWebColor
    dsimp only
    rw [if_pos hsix, hfirst, ok_bind, hr]
    dsimp only
    rw [hsecond, ok_bind, hg]
    dsimp only
    rw [hthird, ok_bind, hb]
    rfl

theorem pairsParse_iff {s : List Char} (hplus : '+' ∉ s) {color : WebColor}
    : PairsParse s color ↔ IsHexColor s color := by
  constructor
  . rintro ⟨first, second, third, rfl, ⟨hlen1, hlen2, hlen3⟩, hr, hg, hb⟩
    rw [List.mem_append, List.mem_append, not_or, not_or] at hplus
    exact ⟨first, second, third, rfl, (parseHexU8_pair_iff hlen1 hplus.1).mp hr,
      (parseHexU8_pair_iff hlen2 hplus.2.1).mp hg, (parseHexU8_pair_iff hlen3 hplus.2.2).mp hb⟩
  . rintro ⟨first, second, third, rfl, hr, hg, hb⟩
    exact ⟨first, second, third, rfl, ⟨hr.utf8Len, hg.utf8Len, hb.utf8Len⟩,
      (parseHexU8_pair_iff hr.utf8Len hr.plus_not_mem).mpr hr,
      (parseHexU8_pair_iff hg.utf8Len hg.plus_not_mem).mpr hg,
      (parseHexU8_pair_iff hb.utf8Len hb.plus_not_mem).mpr hb⟩

theorem IsHexColor.plus_not_mem {s : List Char} {color : WebColor} (h : IsHexColor s color)
    : '+' ∉ s := by
  rcases h with ⟨first, second, third, rfl, hr, hg, hb⟩
  rw [List.mem_append, List.mem_append, not_or, not_or]
  exact ⟨hr.plus_not_mem, hg.plus_not_mem, hb.plus_not_mem⟩

/-- `parse_web_color` returns, a color exactly where it is given the six digits of one. -/
def ReadsHexColor (s : List Char) : Prop :=
  ∃ color, parseWebColor s = .ok color
    ∧ ∀ c, color = some c ↔ IsHexColor (s.dropWhile (· = '#')) c

def ReadsPlus (s : List Char) : Prop :=
  (∃ color, PairsParse s color) ∧ '+' ∈ s

theorem readsHexColor_iff (s : List Char)
    : ReadsHexColor s
        ↔ CutsInPairs (s.dropWhile (· = '#')) ∧ ¬ ReadsPlus (s.dropWhile (· = '#')) := by
  constructor
  . rintro ⟨color, hcolor, hexact⟩
    refine ⟨CutsInPairs.of_parseWebColor hcolor, ?_⟩
    rintro ⟨⟨c, hpairs⟩, hplus⟩
    rw [parseWebColor_eq_some_iff.mpr hpairs, Except.ok.injEq] at hcolor
    exact ((hexact c).mp hcolor.symm).plus_not_mem hplus
  . rintro ⟨hcuts, hplus⟩
    rcases hcuts.parseWebColor_ok with ⟨color, hcolor⟩
    refine ⟨color, hcolor, fun c => ?_⟩
    have hsome : color = some c ↔ PairsParse (s.dropWhile (· = '#')) c := by
      rw [← parseWebColor_eq_some_iff, hcolor, Except.ok.injEq]
    rw [hsome]
    constructor
    . intro hpairs
      have hnone : '+' ∉ s.dropWhile (· = '#') := fun hmem => hplus ⟨⟨c, hpairs⟩, hmem⟩
      exact (pairsParse_iff hnone).mp hpairs
    . intro hhex
      exact (pairsParse_iff hhex.plus_not_mem).mpr hhex

inductive Reached : Value → Object → Prop where
  | here (obj : Object) : Reached (.object obj) obj
  | extra {obj obj' : Object} {item : Value} (hitem : item ∈ extraItems obj)
      (h : Reached item obj') : Reached (.object obj) obj'

/-- None of the colors that the parser comes to is cut through a character. -/
def ReachedColorsRead (value : Value) : Prop :=
  ∀ obj, Reached value obj → ∀ s, ownColor obj = some s → ColorReads s

theorem reachedColorsRead_of_ok {value : Value} {style : StyleState} {components : ComponentList}
    (hrun : parseJsonComponentInner value style = .ok components) : ReachedColorsRead value := by
  intro obj hreached
  induction hreached generalizing style components with
  | here obj =>
    intro s hs
    rw [parseJsonComponentInner_object] at hrun
    rcases bind_eq_ok.mp hrun with ⟨own, hown, -⟩
    apply emitObject_ok_iff.mp ⟨own, hown⟩ s
    change (ownColor obj <|> style.color) = some s
    rw [hs]
    rfl
  | extra hitem _ ih =>
    rw [parseJsonComponentInner_object] at hrun
    rcases bind_eq_ok.mp hrun with ⟨own, -, hrun⟩
    rcases bind_eq_ok.mp hrun with ⟨extra, hmap, -⟩
    rcases (mem_of_mapM_eq_ok hmap).1 _ hitem with ⟨part, -, hpart⟩
    exact ih hpart

theorem color_ofObject_reads {obj : Object} {style : StyleState}
    (hown : ∀ s, ownColor obj = some s → ColorReads s)
    (hstyle : ∀ s, style.color = some s → ColorReads s) (s : List Char)
    (hs : (StyleState.ofObject obj style).color = some s) : ColorReads s := by
  change (ownColor obj <|> style.color) = some s at hs
  cases hcolor : ownColor obj with
  | none =>
    rw [hcolor] at hs
    exact hstyle s hs
  | some color =>
    rw [hcolor] at hs
    cases hs
    exact hown s hcolor

theorem parseJsonComponentInner_ok {value : Value} {style : StyleState}
    (hcolors : ReachedColorsRead value) (hstyle : ∀ s, style.color = some s → ColorReads s)
    : ∃ components, parseJsonComponentInner value style = .ok components := by
  induction value, style using parseJsonComponentInner.induct with
  | case1 style s => exact ⟨emitText s, by rw [parseJsonComponentInner]; rfl⟩
  | case2 inherited obj style ih =>
    have hstyle' := color_ofObject_reads (hcolors obj (.here obj)) hstyle
    rcases emitObject_ok_iff.mpr hstyle' with ⟨own, hown⟩
    have hitems : ∀ item ∈ extraItems obj,
        ∃ part, parseJsonComponentInner item (StyleState.ofObject obj inherited) = .ok part ∧ True
        := by
      intro item hitem
      have hreads : ReachedColorsRead item := fun obj' h => hcolors obj' (.extra hitem h)
      rcases ih item hitem hreads hstyle' with ⟨part, hpart⟩
      exact ⟨part, hpart, trivial⟩
    rcases exists_mapM_of_forall hitems with ⟨extra, hextra, -⟩
    refine ⟨own ++ extra.flatten, ?_⟩
    rw [parseJsonComponentInner_object, hown, ok_bind, hextra]
    rfl
  | case3 inherited value hstring hobject =>
    refine ⟨[], ?_⟩
    rw [parseJsonComponentInner]
    . rfl
    . exact hstring
    . exact hobject

theorem fromJson_ok_iff (raw : Value) (bedrock : Bool)
    : (∃ motd, Motd.fromJson raw bedrock = .ok motd) ↔ ReachedColorsRead raw := by
  rw [Motd.fromJson, parseJsonComponent]
  constructor
  . rintro ⟨motd, hmotd⟩
    rcases bind_eq_ok.mp hmotd with ⟨components, hrun, -⟩
    exact reachedColorsRead_of_ok hrun
  . intro hcolors
    rcases @parseJsonComponentInner_ok raw {} hcolors (fun s hs => by cases hs)
      with ⟨components, hrun⟩
    rw [hrun]
    exact ⟨_, rfl⟩

theorem colors_safe_iff (s : List Char) (raw : Value) (bedrock : Bool)
    : (ReadsHexColor s
          ↔ CutsInPairs (s.dropWhile (· = '#')) ∧ ¬ ReadsPlus (s.dropWhile (· = '#')))
        ∧ ((∃ motd, Motd.fromJson raw bedrock = .ok motd) ↔ ReachedColorsRead raw) :=
  ⟨readsHexColor_iff s, fromJson_ok_iff raw bedrock⟩

/-- A slice through `€` panics, also in a `color`, and `+f` is taken for two digits. -/
theorem colors_not_safe
    : parseWebColor ['€', '€'] = .error .panic
        ∧ (∀ bedrock, Motd.fromJson (.object [("color".toList, .string ['€', '€'])]) bedrock
          = .error .panic)
        ∧ parseWebColor "#+f+f+f".toList = .ok (some { r := 15, g := 15, b := 15 })
        ∧ ¬ ((∀ s, ReadsHexColor s)
          ∧ ∀ raw bedrock, ∃ motd, Motd.fromJson raw bedrock = .ok motd) := by
  have hpanics : parseWebColor ['€', '€'] = .error .panic := rfl
  have hjson : ∀ bedrock, Motd.fromJson (.object [("color".toList, .string ['€', '€'])]) bedrock
      = .error .panic := by
    intro bedrock
    rw [Motd.fromJson, parseJsonComponent, parseJsonComponentInner_object]
    rfl
  refine ⟨hpanics, hjson, rfl, ?_⟩
  rintro ⟨hreads, -⟩
  rcases hreads ['€', '€'] with ⟨color, hcolor, -⟩
  rw [hpanics] at hcolor
  cases hcolor

end Rust

end McStatus
