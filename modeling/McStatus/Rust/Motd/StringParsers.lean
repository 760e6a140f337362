import McStatus.Python.Motd.Locality
import McStatus.Python.Motd.Pieces
import McStatus.Rust.Motd.LegacyRoundTrip

/-!
This module contains what `parse_legacy_string` reads in the pieces into which the `_parse_as_str`
of `mcstatus/motd/_motd.py` splits a string.
-/

namespace McStatus

open Python (ParsedMotdComponent)
open Python.Motd (IsSign IsMatch splitCodes parseElement lowerChar componentOf?)

namespace Rust

def Formatting.toPython (f : Formatting) : Python.Formatting :=
  match f with
  | bold => .bold
  | italic => .italic
  | underlined => .underlined
  | strikethrough => .strikethrough
  | obfuscated => .obfuscated
  | reset => .reset

def MinecraftColor.toPython (c : MinecraftColor) : Python.MinecraftColor :=
  match c with
  | black => .black
  | darkBlue => .darkBlue
  | darkGreen => .darkGreen
  | darkAqua => .darkAqua
  | darkRed => .darkRed
  | darkPurple => .darkPurple
  | gold => .gold
  | gray => .gray
  | darkGray => .darkGray
  | blue => .blue
  | green => .green
  | aqua => .aqua
  | red => .red
  | lightPurple => .lightPurple
  | yellow => .yellow
  | white => .white
  | minecoinGold => .minecoinGold

def MotdComponent.toPython (c : MotdComponent) : ParsedMotdComponent :=
  match c with
  | text s => .str s
  | formatting f => .formatting f.toPython
  | minecraftColor c => .minecraftColor c.toPython
  | webColor c => .webColor {
      hex := '#' :: Python.formatByte c.r.toNat ++ Python.formatByte c.g.toNat
        ++ Python.formatByte c.b.toNat
      rgb := (c.r.toNat, c.g.toNat, c.b.toNat)
    }
  | translationTag id => .translationTag (some id)

def letter? (code : Char) : Option MotdComponent :=
  match MinecraftColor.fromCodeChar code with
  | some color => some (.minecraftColor color)
  | none => (Formatting.fromCodeChar code).map .formatting

theorem codeAt_cons_cons {c code : Char} (h : code ≠ '#') (rest : List Char)
    : codeAt (c :: code :: rest)
        = if isCodeStart c then (letter? code).map (fun component => (component, rest))
          else none := by
  rw [codeAt, letter?]
  cases MinecraftColor.fromCodeChar code with
  | some color => rfl
  | none =>
    cases Formatting.fromCodeChar code with
    | some f => rfl
    | none =>
      dsimp only
      rw [if_neg h]
      rfl

def Boundary (s t : List Char) : Prop :=
  ∀ c code, s.getLast? = some c → t.head? = some code → isCodeStart c = true → letter? code = none

theorem codeAt_eq_none {c code : Char} (hhash : code ≠ '#')
    (h : isCodeStart c = true → letter? code = none) (rest : List Char)
    : codeAt (c :: code :: rest) = none := by
  rw [codeAt_cons_cons hhash]
  by_cases hc : isCodeStart c = true
  . rw [if_pos hc, h hc, Option.map_none]
  . rw [if_neg hc]

theorem legacyTokens_append {s t : List Char} (hs : '#' ∉ s) (ht : '#' ∉ t) (h : Boundary s t)
    : legacyTokens (s ++ t) = legacyTokens s ++ legacyTokens t := by
  induction hn : s.length using Nat.strongRecOn generalizing s with
  | ind n ih =>
    match s with
    | [] => rw [legacyTokens_nil, List.nil_append, List.nil_append]
    | [c] =>
      have hsingle : codeAt [c] = none := rfl
      have hnone : codeAt (c :: t) = none := by
        cases t with
        | nil => rfl
        | cons code t =>
          exact codeAt_eq_none (by rintro rfl; exact ht List.mem_cons_self) (h c code rfl rfl) t
      rw [List.singleton_append, legacyTokens_char hnone, legacyTokens_char hsingle,
        legacyTokens_nil]
      rfl
    | c :: code :: s =>
      have hcode : code ≠ '#' := by
        rintro rfl
        exact hs (List.mem_cons_of_mem c List.mem_cons_self)
      rw [List.mem_cons, List.mem_cons, not_or, not_or] at hs
      have hlast (x : Char) (hx : s.getLast? = some x) : (c :: code :: s).getLast? = some x := by
        rw [List.getLast?_cons, List.getLast?_cons, hx]
        rfl
      by_cases hat : isCodeStart c = true ∧ letter? code ≠ none
      . rcases Option.ne_none_iff_exists'.mp hat.2 with ⟨component, hcomponent⟩
        have hshort : codeAt (c :: code :: s) = some (component, s) := by
          rw [codeAt_cons_cons hcode, if_pos hat.1, hcomponent, Option.map_some]
        have hlong : codeAt (c :: code :: (s ++ t)) = some (component, s ++ t) := by
          rw [codeAt_cons_cons hcode, if_pos hat.1, hcomponent, Option.map_some]
        have hrest := ih s.length (by rw [← hn, List.length_cons, List.length_cons]; omega) hs.2.2
          (fun x y hx hy => h x y (hlast x hx) hy) rfl
        rw [List.cons_append, List.cons_append, legacyTokens_of_codeAt hshort,
          legacyTokens_of_codeAt hlong, hrest, List.cons_append]
      . have hnone (rest : List Char) : codeAt (c :: code :: rest) = none := by
          apply codeAt_eq_none hcode
          intro hc
          by_contra hsome
          exact hat ⟨hc, hsome⟩
        have hrest := @ih (code :: s).length (by rw [← hn]; exact Nat.lt_succ_self _) (code :: s)
          (by rw [List.mem_cons, not_or]; exact hs.2) (fun x y hx hy => h x y (by
            rwa [List.getLast?_cons_of_ne_nil (List.cons_ne_nil code s)]) hy) rfl
        rw [List.cons_append, List.cons_append, legacyTokens_char (hnone s),
          legacyTokens_char (hnone (s ++ t)), ← List.cons_append, hrest, List.cons_append]

theorem isCodeStart_iff (c : Char) : isCodeStart c = true ↔ IsSign c := by
  rw [isCodeStart, decide_eq_true_eq]
  exact or_comm

theorem isCodeStart_python {c : Char} (h : isCodeStart c = true)
    : Python.Motd.isCodeStart c = true := by
  apply decide_eq_true
  rcases (isCodeStart_iff c).mp h with hc | hc
  . exact Or.inr (Or.inr hc)
  . exact Or.inl hc

theorem letter?_of_isCodeStart {c : Char} (h : Python.Motd.isCodeStart c = true)
    : letter? c = none := by
  have hsigns : c = '§' ∨ c = '|' ∨ c = '&' := of_decide_eq_true h
  rcases hsigns with rfl | rfl | rfl <;> decide

theorem legacyTokens_match {c code : Char} (h : IsMatch c code) {rest : List Char}
    (hs : '#' ∉ c :: code :: rest)
    : legacyTokens (c :: code :: rest) = legacyTokens [c, code] ++ legacyTokens rest := by
  have hpair : '#' ∉ [c, code] := fun hmem => hs (List.mem_append_left rest hmem)
  have hrest : '#' ∉ rest := fun hmem => hs (List.mem_append_right [c, code] hmem)
  have hlast : [c, code].getLast? = some code := rfl
  apply legacyTokens_append hpair hrest
  intro x y hx _ hstart
  rw [hlast, Option.some.injEq] at hx
  subst hx
  have hcode := Python.Motd.isCode_of_isCodeStart (isCodeStart_python hstart)
  rw [h.2] at hcode
  cases hcode

theorem legacyTokens_splitCodes {text raw : List Char} (htext : '#' ∉ text) (hraw : '#' ∉ raw)
    : legacyTokens (text ++ raw) = (splitCodes text raw).flatMap legacyTokens := by
  fun_induction splitCodes text raw with
  | case1 text => simp
  | case2 text c => simp
  | case3 text c code rest hmatch ih =>
    have hrest : '#' ∉ rest := fun h => hraw (List.mem_cons_of_mem c (List.mem_cons_of_mem code h))
    have hboundary : Boundary text (c :: code :: rest) := by
      intro x y _ hy _
      cases hy
      exact letter?_of_isCodeStart hmatch.1
    rw [legacyTokens_append htext hraw hboundary, legacyTokens_match hmatch hraw, List.flatMap_cons,
      List.flatMap_cons, ← ih List.not_mem_nil hrest]
    rfl
  | case4 text c code rest hmatch ih =>
    have hc : '#' ∉ text ++ [c] := by
      rw [List.mem_append, List.mem_singleton, not_or]
      exact ⟨htext, fun h => hraw (by rw [h]; exact List.mem_cons_self)⟩
    rw [← ih hc fun h => hraw (List.mem_cons_of_mem c h), List.append_assoc]
    rfl

/-- What `_parse_as_str` reads in one piece, and what `parse_legacy_string` does. -/
def pythonTokens (bedrock : Bool) (piece : List Char) : List (Char ⊕ ParsedMotdComponent) :=
  Python.Motd.explode [parseElement bedrock piece]

def rustTokens (s : List Char) : List (Char ⊕ ParsedMotdComponent) :=
  (legacyTokens s).map (Sum.map id MotdComponent.toPython)

theorem explode_parsePieces (bedrock : Bool) (pieces : List (List Char))
    : Python.Motd.explode (Python.Motd.parsePieces bedrock pieces)
        = pieces.flatMap (pythonTokens bedrock) := by
  induction pieces with
  | nil => rfl
  | cons piece pieces ih =>
    rw [List.flatMap_cons, ← ih]
    cases piece with
    | nil =>
      have hempty : parseElement bedrock [] = .str [] := by
        cases bedrock <;> rfl
      rw [Python.Motd.parsePieces_nil_cons, pythonTokens, hempty]
      rfl
    | cons c piece =>
      rw [Python.Motd.parsePieces_cons (List.cons_ne_nil c piece), Python.Motd.explode_cons]
      rfl

theorem explode_toPython (l : ComponentList)
    : Python.Motd.explode (l.map MotdComponent.toPython)
        = (Runs.explode (l.map MotdComponent.part)).map (Sum.map id MotdComponent.toPython) := by
  induction l with
  | nil => rfl
  | cons c l ih =>
    rw [List.map_cons, Python.Motd.explode_cons, ih, List.map_cons]
    cases c with
    | text s =>
    simp [Python.Motd.explode, MotdComponent.part, MotdComponent.toPython, ParsedMotdComponent.part]
    | _ => rfl

end Rust

end McStatus
