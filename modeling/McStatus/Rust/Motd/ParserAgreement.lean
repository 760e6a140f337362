import McStatus.Library.Text
import McStatus.Python.Motd.Motd
import McStatus.Rust.Motd.Motd
import McStatus.Rust.Motd.StringParsers

/-!
This module contains when `parse_legacy_string` and the `_parse_as_str` of `mcstatus/motd/_motd.py`
read the same in a string: the letters they know are not the same, and neither are the places where
they look for them.
-/

namespace McStatus

open Python (ParsedMotdComponent)
open Python.Motd (IsSign IsMatch IsCode IsJavaGold NoMatch Alone splitCodes parseElement lowerChar
  componentOf?)

namespace Rust

def knownLetters : List Char :=
  charRange '0' '9' ++ charRange 'a' 'v' ++ charRange 'A' 'V' ++ [Char.ofNat 0x212A]

theorem mem_knownLetters_of_toLower {c : Char}
    (h : c.toLower ∈ charRange '0' '9' ++ charRange 'a' 'v')
    : c ∈ knownLetters := by
  have hall : ((charRange '0' '9' ++ charRange 'a' 'v')
      ++ (charRange '0' '9' ++ charRange 'a' 'v').map Char.toUpper).all (· ∈ knownLetters)
        = true := by
    decide
  exact of_decide_eq_true (List.all_eq_true.mp hall c (mem_of_toLower_mem h))

theorem mem_knownLetters_of_isCode {c : Char} (h : Python.Motd.isCode c = true)
    : c ∈ knownLetters := by
  have hupper (hmem : c.toUpper ∈ charRange 'A' 'V') : c ∈ knownLetters := by
    have hall : (charRange 'A' 'V' ++ (charRange 'A' 'V').map Char.toLower).all
        (· ∈ knownLetters) = true := by
      decide
    exact of_decide_eq_true (List.all_eq_true.mp hall c (mem_of_toUpper_mem hmem))
  unfold Python.Motd.isCode at h
  simp only [Bool.or_eq_true, decide_eq_true_eq] at h
  rcases h with (((hdigit | ⟨hlow, hhigh⟩) | ⟨hlow, hhigh⟩) | hr) | hkelvin
  . rw [Char.isDigit, Bool.and_eq_true, decide_eq_true_eq, decide_eq_true_eq] at hdigit
    have hmem := mem_charRange (a := '0') (b := '9') hdigit.1 hdigit.2
    exact List.mem_append_left _ (List.mem_append_left _ (List.mem_append_left _ hmem))
  . exact hupper (mem_charRange hlow (Char.le_trans hhigh (by decide)))
  . exact hupper (mem_charRange (Char.le_trans (by decide) hlow) (Char.le_trans hhigh (by decide)))
  . exact hupper (by rw [hr]; decide)
  . have hc : c = Char.ofNat 0x212A := by rw [← hkelvin, Char.ofNat_toNat]
    rw [hc]
    exact List.mem_append_right _ List.mem_cons_self

theorem mem_knownLetters_of_component {c : Char} {component : ParsedMotdComponent}
    (h : componentOf? (lowerChar c) = some component) : c ∈ knownLetters := by
  have hvalue : lowerChar c ∈ charRange '0' '9' ++ charRange 'a' 'v' := by
    have hcolors : Python.MinecraftColor.members.all
        (fun m => m.2.2 ∈ charRange '0' '9' ++ charRange 'a' 'v') = true := by
      decide
    have hformattings : Python.Formatting.members.all
        (fun f => f.value ∈ charRange '0' '9' ++ charRange 'a' 'v') = true := by
      decide
    unfold componentOf? at h
    split at h
    . next color hcolor =>
      rcases Option.map_eq_some_iff.mp hcolor with ⟨m, hm, _⟩
      have hvalue := List.find?_some hm
      have heq : [m.2.2] = [lowerChar c] := of_decide_eq_true hvalue
      rw [← List.cons.inj heq |>.1]
      exact of_decide_eq_true (List.all_eq_true.mp hcolors m (List.mem_of_find?_eq_some hm))
    . rcases Option.map_eq_some_iff.mp h with ⟨f, hf, _⟩
      have hvalue := List.find?_some hf
      have heq : [f.value] = [lowerChar c] := of_decide_eq_true hvalue
      rw [← List.cons.inj heq |>.1]
      exact of_decide_eq_true (List.all_eq_true.mp hformattings f (List.mem_of_find?_eq_some hf))
  unfold lowerChar at hvalue
  split at hvalue
  . next hkelvin =>
    have hc : c = Char.ofNat 0x212A := by rw [← hkelvin, Char.ofNat_toNat]
    rw [hc]
    exact List.mem_append_right _ List.mem_cons_self
  . exact mem_knownLetters_of_toLower hvalue

theorem mem_knownLetters_of_letter {c : Char} (h : letter? c ≠ none) : c ∈ knownLetters := by
  have hletter : isCodeLetter c = true := by
    rw [isCodeLetter_iff]
    unfold letter? at h
    cases hcolor : MinecraftColor.fromCodeChar c with
    | some color => exact Or.inl (Option.some_ne_none color)
    | none =>
      rw [hcolor] at h
      refine Or.inr fun hnone => h ?_
      rw [hnone]
      rfl
  have hall : "0123456789abcdefgABCDEFGklmnorKLMNOR".toList.all (· ∈ knownLetters) = true := by
    decide
  exact of_decide_eq_true (List.all_eq_true.mp hall c (of_decide_eq_true hletter))

/-- The letters of a match that mean something else, or nothing, to the other parser. -/
def redefinedLetters : List Char :=
  ['m', 'M', 'n', 'N', Char.ofNat 0x212A]

/-- The letters of the colors that only `_parse_as_str` knows, and only at the end of a piece. -/
def bedrockLetters : List Char :=
  "hijpqstuvHIJPQSTUV".toList

def goldLetters : List Char :=
  ['g', 'G']

theorem forall_known {p : Char → Bool} (h : knownLetters.all p = true) {c : Char}
    (hc : c ∈ knownLetters) : p c = true :=
  List.all_eq_true.mp h c hc

theorem letter?_eq_component {c : Char} (h : Python.Motd.isCode c = true)
    (hc : c ∉ redefinedLetters)
    : ∃ component, letter? c = some component
        ∧ componentOf? (lowerChar c) = some component.toPython ∧ lowerChar c ≠ 'g' := by
  have hall : knownLetters.all (fun c => !Python.Motd.isCode c || decide (c ∈ redefinedLetters)
      || (((letter? c).map MotdComponent.toPython = componentOf? (lowerChar c)
        && (letter? c).isSome) && (lowerChar c ≠ 'g'))) = true := by
    decide
  have hknown := forall_known hall (mem_knownLetters_of_isCode h)
  simp only [h, hc, Bool.not_true, Bool.false_or, decide_false, Bool.and_eq_true,
    decide_eq_true_eq] at hknown
  rcases hknown with ⟨⟨heq, hsome⟩, hg⟩
  rcases Option.isSome_iff_exists.mp hsome with ⟨component, hcomponent⟩
  rw [hcomponent, Option.map_some] at heq
  exact ⟨component, hcomponent, heq.symm, hg⟩

theorem component_of_redefined {c : Char} (hc : c ∈ redefinedLetters)
    : ∃ component, componentOf? (lowerChar c) = some component
        ∧ (letter? c).map MotdComponent.toPython ≠ some component ∧ lowerChar c ≠ 'g' := by
  have hall : redefinedLetters.all (fun c => (componentOf? (lowerChar c)).isSome
      && ((letter? c).map MotdComponent.toPython ≠ componentOf? (lowerChar c))
      && (lowerChar c ≠ 'g')) = true := by
    decide
  have hc := List.all_eq_true.mp hall c hc
  simp only [Bool.and_eq_true, decide_eq_true_eq] at hc
  rcases hc with ⟨⟨hsome, hne⟩, hg⟩
  rcases Option.isSome_iff_exists.mp hsome with ⟨component, hcomponent⟩
  rw [hcomponent] at hne
  exact ⟨component, hcomponent, hne, hg⟩

theorem mem_goldLetters {c : Char} (h : Python.Motd.isCode c = false) (hc : letter? c ≠ none)
    : c ∈ goldLetters := by
  have hall : knownLetters.all (fun c => Python.Motd.isCode c || (letter? c).isNone
      || decide (c ∈ goldLetters)) = true := by
    decide
  have hknown := forall_known hall (mem_knownLetters_of_letter hc)
  have hnone : (letter? c).isNone = false := by
    rw [Option.isNone_eq_false_iff]
    exact Option.isSome_iff_ne_none.mpr hc
  rw [h, hnone] at hknown
  exact of_decide_eq_true hknown

theorem mem_bedrockLetters {c : Char} {component : ParsedMotdComponent}
    (h : Python.Motd.isCode c = false) (hc : componentOf? (lowerChar c) = some component)
    (hgold : c ∉ goldLetters) : c ∈ bedrockLetters ∧ letter? c = none := by
  have hall : knownLetters.all (fun c => Python.Motd.isCode c || decide (c ∈ goldLetters)
      || (componentOf? (lowerChar c)).isNone
      || (decide (c ∈ bedrockLetters) && (letter? c).isNone)) = true := by
    decide
  have hknown := forall_known hall (mem_knownLetters_of_component hc)
  simp only [h, hgold, hc, decide_false, Option.isNone_some, Bool.false_or, Bool.and_eq_true,
    decide_eq_true_eq, Option.isNone_iff_eq_none] at hknown
  exact hknown

theorem component_of_bedrock {c : Char} (hc : c ∈ bedrockLetters)
    : Python.Motd.isCode c = false ∧ letter? c = none ∧ lowerChar c ≠ 'g'
        ∧ ∃ component, componentOf? (lowerChar c) = some component := by
  have hall : bedrockLetters.all (fun c => !Python.Motd.isCode c && (letter? c).isNone
      && (lowerChar c ≠ 'g') && (componentOf? (lowerChar c)).isSome) = true := by
    decide
  have hc := List.all_eq_true.mp hall c hc
  simp only [Bool.and_eq_true, Bool.not_eq_true', decide_eq_true_eq, Option.isNone_iff_eq_none,
    Option.isSome_iff_exists] at hc
  exact ⟨hc.1.1.1, hc.1.1.2, hc.1.2, hc.2⟩

theorem letter?_of_gold {c : Char} (hc : c ∈ goldLetters)
    : letter? c = some (.minecraftColor .minecoinGold) ∧ lowerChar c = 'g'
        ∧ componentOf? (lowerChar c) = some (.minecraftColor .minecoinGold)
        ∧ Python.Motd.isCode c = false := by
  have hall : goldLetters.all (fun c => (letter? c = some (.minecraftColor .minecoinGold))
      && (lowerChar c = 'g') && (componentOf? (lowerChar c) = some (.minecraftColor .minecoinGold))
      && !Python.Motd.isCode c) = true := by
    decide
  have hc := List.all_eq_true.mp hall c hc
  simp only [Bool.and_eq_true, Bool.not_eq_true', decide_eq_true_eq] at hc
  exact ⟨hc.1.1.1, hc.1.1.2, hc.1.2, hc.2⟩

structure PieceAgrees (bedrock : Bool) (piece : List Char) : Prop where
  redefined : ∀ c code, piece = [c, code] → IsSign c → code ∉ redefinedLetters
  bedrockColor : ∀ signs letter, piece = signs ++ [letter] → signs ≠ [] → (∀ c ∈ signs, IsSign c) →
    letter ∉ bedrockLetters
  gold : ∀ front c letter back, piece = front ++ c :: letter :: back → IsSign c →
    letter ∈ goldLetters → front = [] ∧ back = [] ∧ bedrock = true

def Differ {α : Type} (l r : List α) : Prop :=
  ∀ x y, l ++ x ≠ r ++ y

/-- The lists are the same if `p`, and else not, whatever follows them. -/
def SameOrDiffer {α : Type} (p : Prop) (l r : List α) : Prop :=
  (p ∧ l = r) ∨ (¬ p ∧ Differ l r)

theorem flatMap_eq_iff {α β : Type} {f g : α → List β} {P : α → Prop} {l : List α}
    (h : ∀ a ∈ l, SameOrDiffer (P a) (f a) (g a))
    : l.flatMap f = l.flatMap g ↔ ∀ a ∈ l, P a := by
  induction l with
  | nil => simp
  | cons a l ih =>
    have hrest := ih fun b hb => h b (List.mem_cons_of_mem a hb)
    rw [List.flatMap_cons, List.flatMap_cons, List.forall_mem_cons, ← hrest]
    rcases h a List.mem_cons_self with ⟨ha, heq⟩ | ⟨ha, hdiffer⟩
    . rw [heq, List.append_cancel_left_eq]
      exact (and_iff_right ha).symm
    . constructor
      . intro heq
        exact absurd heq (hdiffer _ _)
      . intro hand
        exact absurd hand.1 ha

theorem differ_of_head {α : Type} {a b : α} {l r : List α} (h : a ≠ b)
    : Differ (a :: l) (b :: r) := by
  intro x y heq
  exact h (List.cons.inj heq).1

theorem pythonTokens_str {bedrock : Bool} {piece : List Char}
    (h : parseElement bedrock piece = .str piece)
    : pythonTokens bedrock piece = piece.map .inl := by
  rw [pythonTokens, h]
  simp [Python.Motd.explode, ParsedMotdComponent.part]

theorem pythonTokens_code {bedrock : Bool} {piece signs : List Char} {letter : Char}
    {component : ParsedMotdComponent} (h : IsCode piece signs letter component)
    (hgold : ¬ IsJavaGold signs letter bedrock)
    : pythonTokens bedrock piece = [.inr component] := by
  rw [pythonTokens, h.parseElement_eq hgold,
    Python.Motd.explode_mark (Python.Motd.isColorOrFormatting_of_component h.component_eq)]

theorem rustTokens_pair {c code : Char} (hcode : code ≠ '#')
    : rustTokens [c, code] = if isCodeStart c then
        match letter? code with
        | some component => [.inr component.toPython]
        | none => [.inl c, .inl code]
      else [.inl c, .inl code] := by
  have hat := @codeAt_cons_cons c code hcode []
  have hsingle : codeAt [code] = none := rfl
  unfold rustTokens
  by_cases hc : isCodeStart c = true
  . rw [if_pos hc] at hat ⊢
    cases hletter : letter? code with
    | some component =>
      rw [hletter, Option.map_some] at hat
      rw [legacyTokens_of_codeAt hat, legacyTokens_nil]
      rfl
    | none =>
      rw [hletter, Option.map_none] at hat
      rw [legacyTokens_char hat, legacyTokens_char hsingle, legacyTokens_nil]
      rfl
  . rw [if_neg hc] at hat ⊢
    rw [legacyTokens_char hat, legacyTokens_char hsingle, legacyTokens_nil]
    rfl

theorem rustTokens_text {s : List Char} (hhash : '#' ∉ s)
    (h : ∀ front c code back, s = front ++ c :: code :: back → IsSign c → letter? code = none)
    : rustTokens s = s.map .inl := by
  unfold rustTokens
  induction s with
  | nil =>
    rw [legacyTokens_nil]
    rfl
  | cons c s ih =>
    have hnone : codeAt (c :: s) = none := by
      cases s with
      | nil => rfl
      | cons code s =>
        rw [codeAt_cons_cons (by rintro rfl; simp at hhash)]
        by_cases hc : isCodeStart c = true
        . rw [if_pos hc, h [] c code s rfl ((isCodeStart_iff c).mp hc), Option.map_none]
        . rw [if_neg hc]
    rw [legacyTokens_char hnone, List.map_cons, List.map_cons, ih]
    . rfl
    . exact fun hmem => hhash (List.mem_cons_of_mem c hmem)
    . intro front x code back heq
      exact h (c :: front) x code back (by rw [heq, List.cons_append])

theorem length_legacyTokens_le (s : List Char) : (legacyTokens s).length ≤ s.length := by
  induction hn : s.length using Nat.strongRecOn generalizing s with
  | ind n ih =>
    cases hcode : codeAt s with
    | some code =>
      have hlt := @length_of_codeAt _ code.2 _ hcode
      have := ih code.2.length (by omega) code.2 rfl
      rw [legacyTokens_of_codeAt hcode, List.length_cons]
      omega
    | none =>
      cases s with
      | nil =>
        rw [legacyTokens_nil]
        exact Nat.zero_le n
      | cons c s =>
        rw [List.length_cons] at hn
        have := ih s.length (by omega) s rfl
        rw [legacyTokens_char hcode, List.length_cons]
        omega

theorem differ_of_code {front back : List Char} {c letter : Char} {component : MotdComponent}
    (hhash : '#' ∉ front ++ c :: letter :: back) (hc : isCodeStart c = true)
    (hletter : letter? letter = some component)
    : Differ ((front ++ c :: letter :: back).map .inl)
        (rustTokens (front ++ c :: letter :: back)) := by
  have hfront : '#' ∉ front := fun hmem => hhash (List.mem_append_left _ hmem)
  have hback : '#' ∉ c :: letter :: back := fun hmem => hhash (List.mem_append_right _ hmem)
  have hboundary : Boundary front (c :: letter :: back) := by
    intro x y _ hy _
    cases hy
    exact letter?_of_isCodeStart (isCodeStart_python hc)
  have hcode : codeAt (c :: letter :: back) = some (component, back) := by
    rw [codeAt_cons_cons (by rintro rfl; simp at hback), if_pos hc, hletter, Option.map_some]
  have hsplit : rustTokens (front ++ c :: letter :: back)
      = rustTokens front ++ .inr component.toPython :: rustTokens back := by
    unfold rustTokens
    rw [legacyTokens_append hfront hback hboundary, legacyTokens_of_codeAt hcode, List.map_append,
      List.map_cons]
    rfl
  intro x y heq
  rw [hsplit, List.append_assoc] at heq
  -- the code stands before the end of the text
  have hlen : (rustTokens front).length ≤ front.length := by
    rw [rustTokens, List.length_map]
    exact length_legacyTokens_le front
  have hmark := congrArg (fun l => l[(rustTokens front).length]?) heq
  have hinside : (rustTokens front).length < (front ++ c :: letter :: back).length := by
    rw [List.length_append, List.length_cons]
    omega
  rw [List.getElem?_append_left (by rw [List.length_map]; exact hinside), List.getElem?_map,
    List.getElem?_eq_getElem hinside, List.getElem?_append_right (Nat.le_refl _),
    Nat.sub_self] at hmark
  cases hmark

theorem isCode_of_redefined {c : Char} (hc : c ∈ redefinedLetters)
    : Python.Motd.isCode c = true := by
  have hall : redefinedLetters.all Python.Motd.isCode = true := by decide
  exact List.all_eq_true.mp hall c hc

theorem pieceAgrees_match_iff {bedrock : Bool} {c code : Char} (h : IsMatch c code)
    : PieceAgrees bedrock [c, code] ↔ (IsSign c → code ∉ redefinedLetters) := by
  constructor
  . intro hagrees
    exact hagrees.redefined c code rfl
  intro hredefined
  constructor
  . intro c' code' heq
    cases heq
    exact hredefined
  . intro signs letter heq _ _ hbedrock
    have hpair : [c] ++ [code] = signs ++ [letter] := heq
    have hletter := List.singleton_inj.mp (List.append_inj' hpair rfl).2
    have hcode := (component_of_bedrock hbedrock).1
    rw [← hletter, h.2] at hcode
    cases hcode
  . intro front c' letter back heq _ hgold
    cases front with
    | nil =>
      cases heq
      have hcode := (letter?_of_gold hgold).2.2.2
      rw [h.2] at hcode
      cases hcode
    | cons x front =>
      have hlen := congrArg List.length heq
      simp at hlen
      omega

theorem match_agrees_or_differs {bedrock : Bool} {c code : Char} (h : IsMatch c code)
    (hhash : code ≠ '#')
    : SameOrDiffer (PieceAgrees bedrock [c, code]) (pythonTokens bedrock [c, code])
        (rustTokens [c, code]) := by
  rw [pieceAgrees_match_iff h]
  have hrust := @rustTokens_pair c code hhash
  by_cases hsign : IsSign c
  . rw [if_pos ((isCodeStart_iff c).mpr hsign)] at hrust
    have hcode {component : ParsedMotdComponent}
        (hcomponent : componentOf? (lowerChar code) = some component)
        (hg : lowerChar code ≠ 'g') : pythonTokens bedrock [c, code] = [.inr component] := by
      have hiscode : IsCode [c, code] [c] code component :=
        ⟨rfl, List.cons_ne_nil c [], by simpa using hsign, hcomponent⟩
      exact pythonTokens_code hiscode fun hgold => hg hgold.2.1
    by_cases hredefined : code ∈ redefinedLetters
    . right
      rcases component_of_redefined hredefined with ⟨component, hcomponent, hne, hg⟩
      rw [hcode hcomponent hg, hrust]
      refine ⟨fun himp => himp hsign hredefined, ?_⟩
      cases hletter : letter? code with
      | some component' =>
        rw [hletter, Option.map_some] at hne
        exact differ_of_head fun heq => hne (congrArg some (Sum.inr.inj heq).symm)
      | none => exact differ_of_head nofun
    . left
      rcases letter?_eq_component h.2 hredefined with ⟨component, hletter, hcomponent, hg⟩
      rw [hcode hcomponent hg, hrust, hletter]
      exact ⟨fun _ => hredefined, rfl⟩
  . left
    refine ⟨fun hc => absurd hc hsign, ?_⟩
    have hstr : parseElement bedrock [c, code] = .str [c, code] := by
      by_contra hne
      rcases Python.Motd.exists_isCode hne with ⟨signs, letter, component, hcode, _⟩
      cases signs with
      | nil => exact hcode.signs_ne_nil rfl
      | cons x signs =>
        have hx := hcode.isSign x List.mem_cons_self
        rw [← (List.cons.inj hcode.eq).1] at hx
        exact hsign hx
    rw [pythonTokens_str hstr, hrust, if_neg fun hc => hsign ((isCodeStart_iff c).mp hc)]
    rfl

theorem redefined_of_noMatch {piece : List Char} (h : NoMatch piece) (c code : Char)
    (heq : piece = [c, code]) (hsign : IsSign c) : code ∉ redefinedLetters := by
  intro hcode
  exact h [] c code [] heq
    ⟨isCodeStart_python ((isCodeStart_iff c).mpr hsign), isCode_of_redefined hcode⟩

theorem isCode_of_noMatch {front back : List Char} {c code : Char}
    (h : NoMatch (front ++ c :: code :: back)) (hsign : IsSign c)
    : Python.Motd.isCode code = false := by
  rw [← Bool.not_eq_true]
  intro hcode
  exact h front c code back rfl ⟨isCodeStart_python ((isCodeStart_iff c).mpr hsign), hcode⟩

theorem not_isJavaGold_bedrock (signs : List Char) (letter : Char)
    : ¬ IsJavaGold signs letter true :=
  fun h => Bool.false_ne_true h.2.2.symm

theorem str_agrees_or_differs {bedrock : Bool} {piece : List Char} (h : NoMatch piece)
    (hhash : '#' ∉ piece) (hstr : parseElement bedrock piece = .str piece)
    : SameOrDiffer (PieceAgrees bedrock piece) (pythonTokens bedrock piece) (rustTokens piece) := by
  have hnocode {signs : List Char} {letter : Char} {component : ParsedMotdComponent}
      (hcode : IsCode piece signs letter component) (hgold : ¬ IsJavaGold signs letter bedrock)
        : False := by
    have hmark := Python.Motd.isColorOrFormatting_of_component hcode.component_eq
    rw [← hcode.parseElement_eq hgold, hstr] at hmark
    cases hmark
  rw [pythonTokens_str hstr]
  by_cases hgold : ∃ front c letter back, piece = front ++ c :: letter :: back ∧ IsSign c
      ∧ letter ∈ goldLetters
  . right
    rcases hgold with ⟨front, c, letter, back, rfl, hsign, hletter⟩
    rcases letter?_of_gold hletter with ⟨hrust, _, hcomponent, _⟩
    refine ⟨fun hagrees => ?_, differ_of_code hhash ((isCodeStart_iff c).mpr hsign) hrust⟩
    rcases hagrees.gold front c letter back rfl hsign hletter with ⟨rfl, rfl, rfl⟩
    exact hnocode ⟨rfl, List.cons_ne_nil c [], by simpa using hsign, hcomponent⟩
      (not_isJavaGold_bedrock [c] letter)
  . left
    constructor
    . constructor
      . exact redefined_of_noMatch h
      . intro signs letter heq hne hsigns hletter
        rcases component_of_bedrock hletter with ⟨_, _, hg, component, hcomponent⟩
        exact hnocode ⟨heq, hne, hsigns, hcomponent⟩ fun hjava => hg hjava.2.1
      . intro front c letter back heq hsign hletter
        exact absurd ⟨front, c, letter, back, heq, hsign, hletter⟩ hgold
    . refine (rustTokens_text hhash ?_).symm
      intro front c code back heq hsign
      by_contra hsome
      have hcode : Python.Motd.isCode code = false := by
        rw [heq] at h
        exact isCode_of_noMatch h hsign
      exact hgold ⟨front, c, code, back, heq, hsign, mem_goldLetters hcode hsome⟩

theorem differ_of_mark {component : ParsedMotdComponent} {c code : Char} {rest : List Char}
    (hhash : '#' ∉ c :: code :: rest) (hcode : letter? code = none)
    : Differ [.inr component] (rustTokens (c :: code :: rest)) := by
  have hnone : codeAt (c :: code :: rest) = none := by
    rw [codeAt_cons_cons (by rintro rfl; simp at hhash), hcode, Option.map_none]
    split <;> rfl
  rw [rustTokens, legacyTokens_char hnone, List.map_cons]
  exact differ_of_head nofun

theorem sign_agrees_or_differs {bedrock : Bool} {c letter : Char} {component : ParsedMotdComponent}
    (h : NoMatch [c, letter]) (hhash : '#' ∉ [c, letter]) (hsign : IsSign c)
    (hcomponent : componentOf? (lowerChar letter) = some component)
    (hjava : ¬ IsJavaGold [c] letter bedrock)
    : SameOrDiffer (PieceAgrees bedrock [c, letter]) [.inr component] (rustTokens [c, letter]) := by
  by_cases hgold : letter ∈ goldLetters
  . left
    rcases letter?_of_gold hgold with ⟨hrust, hg, hpython, _⟩
    have hbedrock : bedrock = true := by
      rw [← Bool.not_eq_false]
      exact fun hfalse => hjava ⟨rfl, hg, hfalse⟩
    constructor
    . constructor
      . exact redefined_of_noMatch h
      . intro signs' letter' heq _ _ hletter
        have hpair : [c] ++ [letter] = signs' ++ [letter'] := heq
        have heq' := List.singleton_inj.mp (List.append_inj' hpair rfl).2
        rw [← heq'] at hletter
        exact (component_of_bedrock hletter).2.2.1 hg
      . intro front c' letter' back heq _ _
        have hlen := congrArg List.length heq
        simp only [List.length_append, List.length_cons, List.length_nil] at hlen
        have hfront : front.length = 0 := by omega
        have hback : back.length = 0 := by omega
        exact ⟨List.length_eq_zero_iff.mp hfront, List.length_eq_zero_iff.mp hback, hbedrock⟩
    . rw [hpython] at hcomponent
      cases hcomponent
      rw [rustTokens_pair (by rintro rfl; simp at hhash), if_pos ((isCodeStart_iff c).mpr hsign),
        hrust]
      rfl
  . right
    have hnomatch := @isCode_of_noMatch [] [] c letter h hsign
    rcases mem_bedrockLetters hnomatch hcomponent hgold with ⟨hletter, hnone⟩
    have hsigns : ∀ x ∈ [c], IsSign x := by simpa using hsign
    exact ⟨fun hagrees => hagrees.bedrockColor [c] letter rfl (List.cons_ne_nil c [])
      hsigns hletter,
      differ_of_mark hhash hnone⟩

theorem not_pieceAgrees_of_signs {bedrock : Bool} {c c' letter : Char} {signs : List Char}
    {component : ParsedMotdComponent} (hsigns : ∀ x ∈ c :: c' :: signs, IsSign x)
    (hnomatch : Python.Motd.isCode letter = false)
    (hcomponent : componentOf? (lowerChar letter) = some component)
    : ¬ PieceAgrees bedrock (c :: c' :: signs ++ [letter]) := by
  intro hagrees
  by_cases hgold : letter ∈ goldLetters
  . rcases List.eq_nil_or_concat (c' :: signs) with hnil | ⟨init, x, hinit⟩
    . cases hnil
    . rw [List.concat_eq_append] at hinit
      rw [hinit] at hagrees hsigns
      have hx := hsigns x (by simp)
      have hfront := (hagrees.gold (c :: init) x letter [] (by simp) hx hgold).1
      cases hfront
  . have hletter := (mem_bedrockLetters hnomatch hcomponent hgold).1
    exact hagrees.bedrockColor _ letter rfl (List.cons_ne_nil c _) hsigns hletter

theorem code_agrees_or_differs {bedrock : Bool} {piece signs : List Char} {letter : Char}
    {component : ParsedMotdComponent} (h : NoMatch piece) (hhash : '#' ∉ piece)
    (hcode : IsCode piece signs letter component) (hjava : ¬ IsJavaGold signs letter bedrock)
    : SameOrDiffer (PieceAgrees bedrock piece) (pythonTokens bedrock piece) (rustTokens piece) := by
  rw [pythonTokens_code hcode hjava]
  rcases hcode with ⟨rfl, hne, hsigns, hcomponent⟩
  match signs, hne with
  | [c], _ =>
    exact sign_agrees_or_differs h hhash (hsigns c List.mem_cons_self) hcomponent hjava
  | c :: c' :: signs, _ =>
    right
    have hnomatch : Python.Motd.isCode letter = false := by
      rcases List.eq_nil_or_concat (c' :: signs) with hnil | ⟨init, x, hinit⟩
      . cases hnil
      . rw [List.concat_eq_append] at hinit
        rw [hinit] at h hsigns
        have h : NoMatch (c :: init ++ x :: [letter]) := by simpa using h
        exact isCode_of_noMatch h (hsigns x (by simp))
    have hsign' := hsigns c' (List.mem_cons_of_mem c List.mem_cons_self)
    have hnone := letter?_of_isCodeStart (isCodeStart_python ((isCodeStart_iff c').mpr hsign'))
    exact ⟨not_pieceAgrees_of_signs hsigns hnomatch hcomponent, differ_of_mark hhash hnone⟩

theorem piece_agrees_or_differs {bedrock : Bool} {piece front back : List Char}
    (h : Python.Motd.IsPiece front piece back) (hhash : '#' ∉ piece)
    : SameOrDiffer (PieceAgrees bedrock piece) (pythonTokens bedrock piece) (rustTokens piece) := by
  rcases h with ⟨c, code, rfl, hmatch⟩ | ⟨hno, _⟩
  . exact match_agrees_or_differs hmatch (by rintro rfl; simp at hhash)
  by_cases hstr : parseElement bedrock piece = .str piece
  . exact str_agrees_or_differs hno hhash hstr
  . rcases Python.Motd.exists_isCode hstr with ⟨signs, letter, component, hcode, hjava⟩
    exact code_agrees_or_differs hno hhash hcode hjava

/--
No letter of the string is one that the parsers read in two ways at the place where it stands.
-/
structure ParsersAgree (bedrock : Bool) (s : List Char) : Prop where
  redefined : ∀ front c code back, s = front ++ c :: code :: back → IsSign c
    → code ∉ redefinedLetters
  bedrockColor : ∀ front signs letter back, s = front ++ (signs ++ [letter]) ++ back → signs ≠ [] →
    (∀ c ∈ signs, IsSign c) → Alone front back → letter ∉ bedrockLetters
  gold : ∀ front c letter back, s = front ++ c :: letter :: back → IsSign c → letter ∈ goldLetters →
    bedrock = true ∧ Alone front back

theorem noMatch_of_bedrockLetter {signs : List Char} {letter : Char}
    (hsigns : ∀ c ∈ signs, IsSign c)
    (hletter : letter ∈ bedrockLetters) : NoMatch (signs ++ [letter]) := by
  intro front c code back heq hmatch
  have hmem : code ∈ signs ++ [letter] := by
    rw [heq]
    simp
  have hcode : Python.Motd.isCode code = false := by
    rcases List.mem_append.mp hmem with hsign | hlast
    . have hstart := isCodeStart_python ((isCodeStart_iff code).mpr (hsigns code hsign))
      exact Python.Motd.isCode_of_isCodeStart hstart
    . rw [List.mem_singleton.mp hlast]
      exact (component_of_bedrock hletter).1
  rw [hmatch.2] at hcode
  cases hcode

theorem forall_pieceAgrees_iff {bedrock : Bool} {s : List Char}
    : (∀ piece ∈ splitCodes [] s, PieceAgrees bedrock piece) ↔ ParsersAgree bedrock s := by
  constructor
  . intro hpieces
    constructor
    . intro front c code back heq hsign hcode
      have hmatch : IsMatch c code :=
        ⟨isCodeStart_python ((isCodeStart_iff c).mpr hsign), isCode_of_redefined hcode⟩
      have hsplit : s = front ++ [c, code] ++ back := by
        rw [heq]
        simp
      have hmem := Python.Motd.mem_splitCodes_iff.mpr
        ⟨front, back, hsplit, Or.inl ⟨c, code, rfl, hmatch⟩⟩
      exact (hpieces _ hmem).redefined c code rfl hsign hcode
    . intro front signs letter back heq hne hsigns halone hletter
      have hmem := Python.Motd.mem_splitCodes_iff.mpr
        ⟨front, back, heq, Or.inr ⟨noMatch_of_bedrockLetter hsigns hletter, halone⟩⟩
      exact (hpieces _ hmem).bedrockColor signs letter rfl hne hsigns hletter
    . intro front c letter back heq hsign hletter
      have hstart := isCodeStart_python ((isCodeStart_iff c).mpr hsign)
      rcases letter?_of_gold hletter with ⟨_, _, _, hcode⟩
      have hnot : Python.Motd.isCodeStart letter = false := by
        rw [← Bool.not_eq_true]
        intro hletterstart
        have hnone := letter?_of_isCodeStart hletterstart
        rw [(letter?_of_gold hletter).1] at hnone
        cases hnone
      rcases Python.Motd.exists_piece_around hstart hcode hnot front back with ⟨a, b, hmem, halone⟩
      rw [← heq] at hmem
      rcases (hpieces _ hmem).gold a c letter b rfl hsign hletter with ⟨ha, hb, hbedrock⟩
      exact ⟨hbedrock, halone ha hb⟩
  . intro hagree piece hmem
    rcases Python.Motd.mem_splitCodes_iff.mp hmem with ⟨front, back, heq, hpiece⟩
    rcases hpiece with ⟨c, code, rfl, hmatch⟩ | ⟨hno, halone⟩
    . rw [pieceAgrees_match_iff hmatch]
      exact hagree.redefined front c code back (by rw [heq]; simp)
    constructor
    . exact redefined_of_noMatch hno
    . rintro signs letter rfl hne hsigns
      exact hagree.bedrockColor front signs letter back heq hne hsigns halone
    . rintro a c letter b rfl hsign hletter
      -- the code is alone in the string, so it is the whole piece
      rcases hagree.gold (front ++ a) c letter (b ++ back) (by rw [heq]; simp) hsign hletter
        with ⟨hbedrock, hstart, hend⟩
      have hb : NoMatch b := Python.Motd.NoMatch.right (s := [c, letter]) hno.right
      exact ⟨Python.Motd.eq_nil_of_endsWithCode halone.1 hno.left hstart,
        Python.Motd.eq_nil_of_startsWithCode halone.2 hb hend, hbedrock⟩

theorem parsers_agree_iff (s : List Char) (bedrock : Bool) (hhash : '#' ∉ s)
    : (∃ motd, Python.Motd.parse (.str s) bedrock = .ok motd
        ∧ Python.Motd.joinStrings motd.parsed
            = Python.Motd.joinStrings
                ((Motd.fromString s bedrock).parsed.map MotdComponent.toPython))
      ↔ ParsersAgree bedrock s := by
  have hsplit := @legacyTokens_splitCodes [] s List.not_mem_nil hhash
  have hflatten := Python.Motd.flatten_splitCodes [] s
  have hpieces : ∀ piece ∈ splitCodes [] s,
      SameOrDiffer (PieceAgrees bedrock piece) (pythonTokens bedrock piece) (rustTokens piece) := by
    intro piece hmem
    rcases Python.Motd.mem_splitCodes_iff.mp hmem with ⟨front, back, heq, hpiece⟩
    refine piece_agrees_or_differs hpiece fun hin => hhash ?_
    rw [heq]
    exact List.mem_append_left _ (List.mem_append_right _ hin)
  have hrust : Python.Motd.explode ((Motd.fromString s bedrock).parsed.map MotdComponent.toPython)
      = (splitCodes [] s).flatMap rustTokens := by
    rw [explode_toPython]
    change (Runs.explode ((parseLegacyString s).map MotdComponent.part)).map _ = _
    rw [explode_parseLegacyString, ← List.nil_append s, hsplit, List.map_flatMap]
    rfl
  have hpython : Python.Motd.parse (.str s) bedrock
      = .ok { parsed := Python.Motd.parseAsStr s bedrock, raw := .str s, bedrock := bedrock } := rfl
  rw [← forall_pieceAgrees_iff, ← flatMap_eq_iff hpieces, ← explode_parsePieces,
    ← Python.Motd.parseAsStr_eq, ← hrust, ← Python.Motd.joinStrings_eq_iff, hpython]
  constructor
  . rintro ⟨motd, hmotd, heq⟩
    cases hmotd
    exact heq
  . intro heq
    exact ⟨_, rfl, heq⟩

theorem parsers_agree_red
    : '#' ∉ "§cred &lbold".toList
      ∧ ((∃ motd, Python.Motd.parse (.str "§cred &lbold".toList) false = .ok motd
          ∧ Python.Motd.joinStrings motd.parsed = Python.Motd.joinStrings
              ((Motd.fromString "§cred &lbold".toList false).parsed.map MotdComponent.toPython))
        ↔ ParsersAgree false "§cred &lbold".toList) :=
  ⟨by decide, parsers_agree_iff _ false (by decide)⟩

/-- `&m` is strikethrough for `parse_legacy_string`, and a color of Bedrock for `_parse_as_str`. -/
theorem parsers_disagree
    : ¬ ∀ (s : List Char) (bedrock : Bool), '#' ∉ s → ∃ motd,
        Python.Motd.parse (.str s) bedrock = .ok motd
          ∧ Python.Motd.joinStrings motd.parsed = Python.Motd.joinStrings
              ((Motd.fromString s bedrock).parsed.map MotdComponent.toPython) := by
  intro h
  rcases h ['&', 'm', 'x'] false (by decide) with ⟨motd, hmotd, heq⟩
  cases hmotd
  have hcode : codeAt ['&', 'm', 'x'] = some (.formatting .strikethrough, ['x']) := by decide
  have htext : codeAt ['x'] = none := rfl
  have hrust : Runs.explode ((parseLegacyString ['&', 'm', 'x']).map MotdComponent.part)
      = [.inr (.formatting .strikethrough), .inl 'x'] := by
    rw [explode_parseLegacyString, legacyTokens_of_codeAt hcode, legacyTokens_char htext,
      legacyTokens_nil]
  have hpython : Python.Motd.explode (Python.Motd.parseAsStr ['&', 'm', 'x'] false)
      = [.inr (.minecraftColor .materialRedstone), .inl 'x'] := by
    decide
  rw [Python.Motd.joinStrings_eq_iff, hpython, explode_toPython] at heq
  change _
    = (Runs.explode ((parseLegacyString ['&', 'm', 'x']).map MotdComponent.part)).map _ at heq
  rw [hrust] at heq
  cases heq

end Rust

end McStatus
