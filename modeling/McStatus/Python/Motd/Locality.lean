import McStatus.Python.Motd.Inheritance
import McStatus.Python.Motd.StringParser

/-!
This module contains when `_parse_as_str` reads a string the same whatever comes behind it, and when
the codes it takes out of a string are those of two characters.
-/

namespace McStatus

namespace Python

def ParsedMotdComponent.isColorOrFormatting (c : ParsedMotdComponent) : Bool :=
  match c with
  | minecraftColor _ | webColor _ | formatting _ => true
  | translationTag _ | str _ => false

def ParsedMotdComponent.part (c : ParsedMotdComponent) : List Char ⊕ ParsedMotdComponent :=
  match c with
  | str s => .inl s
  | c => .inr c

namespace Motd

def joinStrings (l : List ParsedMotdComponent) : List (List Char ⊕ ParsedMotdComponent) :=
  Runs.join (l.map ParsedMotdComponent.part)

def explode (l : List ParsedMotdComponent) : List (Char ⊕ ParsedMotdComponent) :=
  Runs.explode (l.map ParsedMotdComponent.part)

theorem explode_append (l r : List ParsedMotdComponent)
    : explode (l ++ r) = explode l ++ explode r := by
  rw [explode, List.map_append, Runs.explode_append]
  rfl

theorem explode_cons (c : ParsedMotdComponent) (l : List ParsedMotdComponent)
    : explode (c :: l) = explode [c] ++ explode l :=
  explode_append [c] l

theorem joinStrings_eq_iff {l r : List ParsedMotdComponent}
    : joinStrings l = joinStrings r ↔ explode l = explode r :=
  Runs.join_eq_iff

def parsePieces (bedrock : Bool) (pieces : List (List Char)) : List ParsedMotdComponent :=
  (pieces.filter fun element => !element.isEmpty).map (parseElement bedrock)

theorem parseAsStr_eq (raw : List Char) (bedrock : Bool)
    : parseAsStr raw bedrock = parsePieces bedrock (splitCodes [] raw) := rfl

theorem parsePieces_append (bedrock : Bool) (pieces pieces' : List (List Char))
    : parsePieces bedrock (pieces ++ pieces')
        = parsePieces bedrock pieces ++ parsePieces bedrock pieces' := by
  rw [parsePieces, List.filter_append, List.map_append]
  rfl

theorem parsePieces_nil_cons (bedrock : Bool) (pieces : List (List Char))
    : parsePieces bedrock ([] :: pieces) = parsePieces bedrock pieces := rfl

theorem parsePieces_cons {piece : List Char} (h : piece ≠ []) (bedrock : Bool)
    (pieces : List (List Char))
    : parsePieces bedrock (piece :: pieces)
        = parseElement bedrock piece :: parsePieces bedrock pieces := by
  cases piece with
  | nil => exact absurd rfl h
  | cons c piece => rfl

theorem isColorOrFormatting_of_component {v : Char} {component : ParsedMotdComponent}
    (h : componentOf? v = some component) : component.isColorOrFormatting = true := by
  unfold componentOf? at h
  split at h
  . cases h
    rfl
  . rcases Option.map_eq_some_iff.mp h with ⟨f, _, rfl⟩
    rfl

theorem explode_mark {c : ParsedMotdComponent} (h : c.isColorOrFormatting = true)
    : explode [c] = [.inr c] := by
  cases c <;> first | rfl | cases h

theorem explode_str (s : List Char) : explode [.str s] = s.map .inl :=
  List.append_nil _

theorem IsCode.parseElement_append {piece signs : List Char} {letter : Char}
    {component : ParsedMotdComponent} (h : IsCode piece signs letter component)
    {first : List Char} (hfirst : first ≠ []) (bedrock : Bool)
    : parseElement bedrock (piece ++ first) = .str (piece ++ first) := by
  by_contra hne
  rcases exists_isCode hne with ⟨signs', letter', component', hcode, _⟩
  rcases List.eq_nil_or_concat first with rfl | ⟨front, x, rfl⟩
  . exact hfirst rfl
  have heq := hcode.eq
  rw [h.eq, List.concat_eq_append, ← List.append_assoc] at heq
  have hsigns := (List.append_inj' heq rfl).1
  have hletter : IsSign letter := by
    apply hcode.isSign letter
    rw [← hsigns]
    simp
  exact not_isSign_of_component h.component_eq hletter

theorem IsCode.ends {piece signs : List Char} {letter : Char} {component : ParsedMotdComponent}
    (h : IsCode piece signs letter component) : Ends piece := by
  intro c hc
  rw [h.eq, List.getLast?_concat] at hc
  cases hc
  rw [← Bool.not_eq_true]
  intro hstart
  have hsigns : letter = '§' ∨ letter = '|' ∨ letter = '&' := of_decide_eq_true hstart
  have hbar : letter ≠ '|' := by
    rintro rfl
    cases h.component_eq
  rcases hsigns with hsign | hsign | hsign
  . exact not_isSign_of_component h.component_eq (Or.inr hsign)
  . exact hbar hsign
  . exact not_isSign_of_component h.component_eq (Or.inl hsign)

def EndsInCode (l : List ParsedMotdComponent) : Prop :=
  ∃ c, l.getLast? = some c ∧ c.isColorOrFormatting = true

theorem parseAsStr_append_iff {s : List Char} {bedrock : Bool}
    (h : EndsInCode (parseAsStr s bedrock)) (t : List Char)
    : joinStrings (parseAsStr (s ++ t) bedrock)
          = joinStrings (parseAsStr s bedrock ++ parseAsStr t bedrock)
        ↔ EndsWithCode s ∨ t = [] ∨ StartsWithCode t := by
  rcases exists_lastPiece [] s with ⟨pieces, last, hsplit, happend, hnil, hlast⟩
  rcases exists_first_piece t with ⟨first, rest, hfirst, hfirstnil⟩
  have hne : s ≠ [] := by
    rintro rfl
    rcases h with ⟨c, hc, _⟩
    cases hc
  rw [or_iff_right (fun hs => hne hs.2)] at hnil
  rw [joinStrings_eq_iff, parseAsStr_eq, parseAsStr_eq, parseAsStr_eq, hsplit]
  by_cases hempty : last = []
  . have hcode := hnil.mp hempty
    rw [happend t (hcode.ends.noMatchAcross t), hempty, ← parsePieces_append, List.append_assoc]
    refine ⟨fun _ => Or.inl hcode, fun _ => ?_⟩
    rw [parsePieces_append, parsePieces_append]
    rfl
  . have hnot : ¬ EndsWithCode s := fun hcode => hempty (hnil.mpr hcode)
    rcases h with ⟨c, hc, hmark⟩
    rw [parseAsStr_eq, hsplit, parsePieces_append, parsePieces_cons hempty,
      List.getLast?_append] at hc
    cases hc
    have hparse : parseElement bedrock last ≠ .str last := by
      intro heq
      change (parseElement bedrock last).isColorOrFormatting = true at hmark
      rw [heq] at hmark
      cases hmark
    rcases exists_isCode hparse with ⟨signs, letter, component, hcode, hgold⟩
    have hends : Ends s := by
      intro x hx
      rw [← hlast hempty hne] at hx
      exact hcode.ends x hx
    have hcomponent := isColorOrFormatting_of_component hcode.component_eq
    rw [happend t (hends.noMatchAcross t), hfirst, hfirst, List.nil_append]
    simp only [parsePieces_append, explode_append, parsePieces_cons hempty]
    by_cases hfirst' : first = []
    . rw [hfirst', List.append_nil, parsePieces_cons hempty, parsePieces_nil_cons]
      refine ⟨fun _ => Or.inr (hfirstnil.mp hfirst'), fun _ => ?_⟩
      rw [explode_cons _ (parsePieces bedrock rest), List.append_assoc]
      rfl
    . have hno : ¬ (EndsWithCode s ∨ t = [] ∨ StartsWithCode t) := by
        rintro (hs | ht)
        . exact hnot hs
        . exact hfirst' (hfirstnil.mpr ht)
      refine ⟨fun heq => ?_, fun hcond => absurd hcond hno⟩
      have hlong : last ++ first ≠ [] := fun hnil => hempty (List.append_eq_nil_iff.mp hnil).1
      -- what follows the same components starts with a character on one side, with a code on
      -- the other
      rw [List.append_assoc, List.append_cancel_left_eq, parsePieces_cons hlong,
        hcode.parseElement_append hfirst', hcode.parseElement_eq hgold, explode_cons, explode_str,
        explode_cons component, explode_mark hcomponent] at heq
      cases last with
      | nil => exact absurd rfl hempty
      | cons c last => cases heq

/-- The components spell the string, with two characters for every color and formatting. -/
inductive SpelledBy : List ParsedMotdComponent → List Char → Prop where
  | nil : SpelledBy [] []
  | str (s : List Char) (l : List ParsedMotdComponent) (t : List Char) (h : SpelledBy l t)
      : SpelledBy (.str s :: l) (s ++ t)
  | code (sign letter : Char) (c : ParsedMotdComponent) (l : List ParsedMotdComponent)
      (t : List Char) (hsign : IsSign sign) (hletter : componentOf? (lowerChar letter) = some c)
      (h : SpelledBy l t) : SpelledBy (c :: l) (sign :: letter :: t)

def HasLongCode (s : List Char) : Prop :=
  ∃ piece ∈ splitCodes [] s, ∃ signs letter component, IsCode piece signs letter component
    ∧ 2 ≤ signs.length

theorem spelledBy_parsePieces {bedrock : Bool} {pieces : List (List Char)}
    (h : ∀ piece ∈ pieces, ∀ signs letter component, IsCode piece signs letter component
      → signs.length < 2)
    : SpelledBy (parsePieces bedrock pieces) pieces.flatten := by
  induction pieces with
  | nil => exact .nil
  | cons piece pieces ih =>
    rw [List.forall_mem_cons] at h
    have hrest := ih h.2
    rw [List.flatten_cons]
    by_cases hempty : piece = []
    . rw [hempty, parsePieces_nil_cons]
      exact hrest
    rw [parsePieces_cons hempty]
    by_cases hparse : parseElement bedrock piece = .str piece
    . rw [hparse]
      exact .str piece _ _ hrest
    rcases exists_isCode hparse with ⟨signs, letter, component, hcode, hgold⟩
    have hone := h.1 signs letter component hcode
    have hpos := List.length_pos_of_ne_nil hcode.signs_ne_nil
    rcases List.length_eq_one_iff.mp (by omega : signs.length = 1) with ⟨sign, rfl⟩
    rw [hcode.parseElement_eq hgold, hcode.eq]
    exact .code sign letter component _ _ (hcode.isSign sign List.mem_cons_self) hcode.component_eq
      hrest

def spelledLength (l : List ParsedMotdComponent) : Nat :=
  (l.map fun c =>
    match c with
    | .str s => s.length
    | _ => 2).sum

theorem SpelledBy.length_eq {l : List ParsedMotdComponent} {s : List Char} (h : SpelledBy l s)
    : spelledLength l = s.length := by
  induction h with
  | nil => rfl
  | str s l t h ih =>
    unfold spelledLength at ih ⊢
    rw [List.map_cons, List.sum_cons, ih, List.length_append]
  | code sign letter c l t hsign hletter h ih =>
    have hmark := isColorOrFormatting_of_component hletter
    unfold spelledLength at ih ⊢
    rw [List.map_cons, List.sum_cons, ih, List.length_cons, List.length_cons]
    cases c with
    | str s => cases hmark
    | _ => exact Nat.add_comm 2 t.length

theorem spelledLength_cons (c : ParsedMotdComponent) (l : List ParsedMotdComponent)
    : spelledLength (c :: l) = spelledLength [c] + spelledLength l := by
  simp [spelledLength]

theorem spelledLength_parseElement_le {piece : List Char} (bedrock : Bool)
    : spelledLength [parseElement bedrock piece] ≤ piece.length := by
  by_cases hparse : parseElement bedrock piece = .str piece
  . rw [hparse]
    exact Nat.le_refl _
  rcases exists_isCode hparse with ⟨signs, letter, component, hcode, hgold⟩
  have hpos := List.length_pos_of_ne_nil hcode.signs_ne_nil
  have hmark := isColorOrFormatting_of_component hcode.component_eq
  have htwo : spelledLength [component] = 2 := by
    cases component <;> first | rfl | cases hmark
  rw [hcode.parseElement_eq hgold, htwo, hcode.eq, List.length_append, List.length_singleton]
  omega

theorem spelledLength_parsePieces_le (bedrock : Bool) (pieces : List (List Char))
    : spelledLength (parsePieces bedrock pieces) ≤ pieces.flatten.length := by
  induction pieces with
  | nil => exact Nat.le_refl _
  | cons piece pieces ih =>
    rw [List.flatten_cons, List.length_append]
    by_cases hempty : piece = []
    . rw [hempty, parsePieces_nil_cons]
      omega
    . rw [parsePieces_cons hempty, spelledLength_cons]
      have := @spelledLength_parseElement_le piece bedrock
      omega

theorem spelledLength_lt_of_long {bedrock : Bool} {pieces : List (List Char)}
    {piece signs : List Char}
    {letter : Char} {component : ParsedMotdComponent} (hmem : piece ∈ pieces)
    (hcode : IsCode piece signs letter component) (hlong : 2 ≤ signs.length)
    : spelledLength (parsePieces bedrock pieces) < pieces.flatten.length := by
  rcases List.append_of_mem hmem with ⟨front, back, rfl⟩
  have hpiece : piece ≠ [] := by
    rw [hcode.eq]
    simp
  have hgold : ¬ IsJavaGold signs letter bedrock := fun hg => by
    rw [hg.1] at hlong
    omega
  have hmark := isColorOrFormatting_of_component hcode.component_eq
  have htwo : spelledLength [component] = 2 := by
    cases component <;> first | rfl | cases hmark
  have hfront := spelledLength_parsePieces_le bedrock front
  have hback := spelledLength_parsePieces_le bedrock back
  have happend (l r : List ParsedMotdComponent)
      : spelledLength (l ++ r) = spelledLength l + spelledLength r := by
    simp [spelledLength]
  have hlen : piece.length = signs.length + 1 := by
    rw [hcode.eq, List.length_append, List.length_singleton]
  rw [parsePieces_append, parsePieces_cons hpiece, hcode.parseElement_eq hgold, happend,
    spelledLength_cons, htwo, List.flatten_append, List.flatten_cons, List.length_append,
    List.length_append, hlen]
  omega

theorem spelledBy_parseAsStr_iff (s : List Char) (bedrock : Bool)
    : SpelledBy (parseAsStr s bedrock) s ↔ ¬ HasLongCode s := by
  have hflatten := flatten_splitCodes [] s
  rw [List.nil_append] at hflatten
  constructor
  . rintro hspelled ⟨piece, hpiece, signs, letter, component, hcode, hlong⟩
    have hlt := @spelledLength_lt_of_long bedrock _ _ _ _ _ hpiece hcode hlong
    rw [hflatten, ← parseAsStr_eq, hspelled.length_eq] at hlt
    omega
  . intro hno
    have hspelled := @spelledBy_parsePieces bedrock (splitCodes [] s) (by
      intro piece hpiece signs letter component hcode
      by_contra hlong
      exact hno ⟨piece, hpiece, signs, letter, component, hcode, by omega⟩)
    rwa [hflatten] at hspelled

theorem parseAsStr_codes_iff (s t : List Char) (bedrock : Bool)
    : (EndsInCode (parseAsStr s bedrock) →
          (joinStrings (parseAsStr (s ++ t) bedrock)
              = joinStrings (parseAsStr s bedrock ++ parseAsStr t bedrock)
            ↔ EndsWithCode s ∨ t = [] ∨ StartsWithCode t))
        ∧ (SpelledBy (parseAsStr s bedrock) s ↔ ¬ HasLongCode s) :=
  ⟨fun h => parseAsStr_append_iff h t, spelledBy_parseAsStr_iff s bedrock⟩

theorem parseAsStr_codes_red
    : joinStrings (parseAsStr ("§c".toList ++ "x".toList) false)
        = joinStrings (parseAsStr "§c".toList false ++ parseAsStr "x".toList false) := by
  have hred : EndsInCode (parseAsStr "§c".toList false) := ⟨.minecraftColor .red, by decide, rfl⟩
  exact ((parseAsStr_codes_iff "§c".toList "x".toList false).1 hred).mpr
    (Or.inl ⟨[], '§', 'c', rfl, by decide⟩)

/-- A color of Bedrock that the regular expression does not know is one only at the end. -/
theorem parseAsStr_codes_not_local
    : (¬ ∀ s t bedrock, EndsInCode (parseAsStr s bedrock)
          → joinStrings (parseAsStr (s ++ t) bedrock)
            = joinStrings (parseAsStr s bedrock ++ parseAsStr t bedrock))
        ∧ ¬ ∀ s bedrock, SpelledBy (parseAsStr s bedrock) s := by
  constructor
  . intro h
    have heq := h "§h".toList "x".toList true ⟨.minecraftColor .materialQuartz, by decide, rfl⟩
    revert heq
    decide
  . intro h
    have hlen := (h "§§h".toList true).length_eq
    revert hlen
    decide

end Motd

end Python

end McStatus
