import McStatus.Library.Aligned
import McStatus.Python.Motd.Inheritance
import McStatus.Python.Motd.Rendering
import McStatus.Python.Motd.StringParser

/-!
This module shows for which raw MOTDs every text is parsed for the edition that `parse` was called
with: `_parse_as_dict` does not tell a dict in `extra` about it.
-/

namespace McStatus

open Fallible

namespace Python

namespace Motd

/-- `_parse_as_dict`, were `bedrock` passed on by every call. -/
def parseAsDictThreaded (item : Dict) (bedrock : Bool) (auto_add : List ParsedMotdComponent)
    : Except Exception (List ParsedMotdComponent) := do
  let parsed_motd ← parseOwn item bedrock auto_add
  let auto_add := parsed_motd.filter isAutoAdd
  match h : extraElements item with
  | .error e => throw e
  | .ok elements =>
    let extra ← elements.attach.mapM fun ⟨element, hmem⟩ =>
      match element, hmem with
      | .dict fields, hmem =>
        have := sizeOf_extraElements h hmem
        parseAsDictThreaded fields bedrock auto_add
      | .str s, _ => .ok (auto_add ++ parseAsStr s bedrock)
      | _, _ => .error .typeError
    return parsed_motd ++ extra.flatten
termination_by sizeOf item

def parseRawThreaded (raw : Json) (bedrock : Bool) : Except Exception (List ParsedMotdComponent) :=
  match raw with
  | .list items => parseAsDictThreaded [("extra".toList, .list items)] bedrock []
  | .str s => .ok (parseAsStr s bedrock)
  | .dict fields => parseAsDictThreaded fields bedrock []
  | _ => .error .typeError

/-- The components that every text was parsed to are those for the edition of the MOTD. -/
def EditionReachesAll (motd : Motd) : Prop :=
  parseRawThreaded motd.raw motd.bedrock = .ok motd.parsed

/-- A piece of the text is `§g` or `&g`, which `_parse_as_str` only reads as a color for Bedrock. -/
def HasMinecoinCode (text : List Char) : Prop :=
  ∃ piece ∈ splitCodes [] text, standardizedElement piece = ['§', 'g']

inductive TextIn : Dict → List Char → Prop where
  | own (item : Dict) : TextIn item (ownText item)
  | string (item : Dict) (s : List Char) (hmem : .str s ∈ elementsOf item) : TextIn item s
  | dict (item fields : Dict) (text : List Char) (hmem : .dict fields ∈ elementsOf item)
      (h : TextIn fields text) : TextIn item text

def topElements (raw : Json) : List Json :=
  match raw with
  | .list items => items
  | .dict item => elementsOf item
  | _ => []

/-- A text that is inside of a dict in the `extra`, or in the list, at the top. -/
def NestedText (raw : Json) (text : List Char) : Prop :=
  ∃ fields, .dict fields ∈ topElements raw ∧ TextIn fields text

section Text

variable {text : List Char}

theorem isSign_of_lowerChar {c : Char} (h : lowerChar (if c = '&' then '§' else c) = '§')
    : IsSign c := by
  split at h
  . next heq => exact Or.inl heq
  unfold lowerChar at h
  split at h
  . exact absurd h (by decide)
  . have hmem : c ∈ ['§'] ++ ['§'].map Char.toUpper :=
      mem_of_toLower_mem (List.mem_singleton.mpr h)
    have hupper : ['§'].map Char.toUpper = ['§'] := by decide
    rw [hupper] at hmem
    exact Or.inr (by simpa using hmem)

theorem isCode_of_minecoin {element : List Char} (h : standardizedElement element = ['§', 'g'])
    : ∃ sign letter, IsCode element [sign] letter (.minecraftColor .minecoinGold) := by
  rw [standardizedElement, lower_eq, List.map_map] at h
  rcases List.map_eq_cons_iff.mp h with ⟨sign, rest, rfl, hsign, hrest⟩
  rcases List.map_eq_singleton_iff.mp hrest with ⟨letter, rfl, hletter⟩
  refine ⟨sign, letter, rfl, by simp, ?_, ?_⟩
  . simpa using isSign_of_lowerChar hsign
  . rw [Function.comp_apply] at hletter
    split at hletter
    . exact absurd hletter (by decide)
    . rw [hletter]
      decide

theorem parseElement_eq_or (element : List Char)
    : (∀ bedrock, parseElement bedrock element = parseElement false element)
        ∧ standardizedElement element ≠ ['§', 'g']
      ∨ parseElement false element = .str element
        ∧ parseElement true element = .minecraftColor .minecoinGold
        ∧ standardizedElement element = ['§', 'g'] := by
  by_cases hg : standardizedElement element = ['§', 'g']
  . right
    rcases isCode_of_minecoin hg with ⟨sign, letter, hcode⟩
    refine ⟨?_, hcode.parseElement_eq fun hgold => Bool.noConfusion hgold.2.2, hg⟩
    unfold parseElement
    exact if_pos ⟨hg, Bool.false_ne_true⟩
  . left
    refine ⟨fun bedrock => ?_, hg⟩
    have hno (bedrock : Bool) : ¬ (standardizedElement element = ['§', 'g'] ∧ ¬ bedrock) :=
      fun h => hg h.1
    unfold parseElement
    rw [standardizedElement] at hno
    simp only [hno, if_false]

theorem parseAsStr_eq_iff {a b : Bool}
    : parseAsStr text a = parseAsStr text b ↔ a = b ∨ ¬ HasMinecoinCode text := by
  by_cases hab : a = b
  . subst hab
    simp
  rw [or_iff_right hab, parseAsStr, parseAsStr, List.map_inj_left]
  constructor
  . rintro heq ⟨piece, hpiece, hcode⟩
    have hne : (!piece.isEmpty) = true := by
      cases piece with
      | nil => exact absurd hcode (by decide)
      | cons _ _ => rfl
    have hsame := heq piece (List.mem_filter.mpr ⟨hpiece, hne⟩)
    rcases parseElement_eq_or piece with ⟨_, hno⟩ | ⟨hjava, hbedrock, _⟩
    . exact hno hcode
    -- the flags are different, so one of them is that of Bedrock
    cases a <;> cases b <;> simp_all
  . intro hno piece hpiece
    rcases parseElement_eq_or piece with ⟨hsame, _⟩ | ⟨_, _, hcode⟩
    . rw [hsame a, hsame b]
    . exact absurd ⟨piece, (List.mem_filter.mp hpiece).1, hcode⟩ hno

theorem length_parseAsStr (a b : Bool)
    : (parseAsStr text a).length = (parseAsStr text b).length := by
  rw [parseAsStr, parseAsStr, List.length_map, List.length_map]

theorem filter_parseAsStr (a : Bool)
    : (parseAsStr text a).filter isAutoAdd = (parseAsStr text false).filter isAutoAdd := by
  unfold parseAsStr
  induction (splitCodes [] text).filter fun element => !element.isEmpty with
  | nil => rfl
  | cons piece pieces ih =>
    have hpiece : [parseElement a piece].filter isAutoAdd
        = [parseElement false piece].filter isAutoAdd := by
      rcases parseElement_eq_or piece with ⟨hsame, _⟩ | ⟨hjava, hbedrock, _⟩
      . rw [hsame a]
      . cases a with
        | false => rfl
        | true =>
          rw [hjava, hbedrock]
          rfl
    rw [List.map_cons, List.map_cons, ← List.singleton_append, List.filter_append, ih, hpiece,
      ← List.filter_append, List.singleton_append]

end Text

section Tree

variable {item : Dict} {auto_add : List ParsedMotdComponent}

theorem addText_cases (item : Dict)
    : (∀ bedrock parsed, addText item bedrock parsed = .error .typeError)
        ∨ ∀ bedrock parsed,
          addText item bedrock parsed = .ok (parsed ++ parseAsStr (ownText item) bedrock) := by
  have hnil (bedrock : Bool) : parseAsStr [] bedrock = [] := rfl
  unfold addText ownText
  cases item.get "text".toList with
  | none => exact Or.inr fun bedrock parsed => by simp [hnil]
  | some value =>
    cases value with
    | none => exact Or.inr fun bedrock parsed => by simp [hnil]
    | str text => exact Or.inr fun _ _ => rfl
    | _ => exact Or.inl fun _ _ => rfl

theorem parseOwn_cases (item : Dict) (auto_add : List ParsedMotdComponent)
    : (∃ e, ∀ bedrock, parseOwn item bedrock auto_add = .error e)
        ∨ ∃ front back, ∀ bedrock, parseOwn item bedrock auto_add
          = .ok (front ++ parseAsStr (ownText item) bedrock ++ back) := by
  unfold parseOwn
  cases addColor item auto_add with
  | error e => exact Or.inl ⟨e, fun _ => rfl⟩
  | ok colored =>
    rcases addText_cases item with herror | hok
    . left
      refine ⟨.typeError, fun bedrock => ?_⟩
      rw [ok_bind, herror, error_bind]
    . right
      refine ⟨Formatting.members.foldl (addStyle item) colored,
        addTranslate item [] ++ [.formatting .reset], fun bedrock => ?_⟩
      rw [ok_bind, hok, ok_bind, addTranslate_eq, pure_eq_ok, List.append_assoc]

theorem aligned_parseOwn (a b : Bool)
    : Aligned (parseOwn item a auto_add) (parseOwn item b auto_add)
        (a = b ∨ ¬ HasMinecoinCode (ownText item)) := by
  rcases parseOwn_cases item auto_add with ⟨e, herror⟩ | ⟨front, back, hok⟩
  . rw [herror, herror]
    exact .error e _
  . rw [hok, hok]
    refine .ok (by simp [length_parseAsStr a b]) ?_
    rw [List.append_cancel_right_eq, List.append_cancel_left_eq, parseAsStr_eq_iff]

theorem filter_parseOwn {a b : Bool} {l l' : List ParsedMotdComponent}
    (ha : parseOwn item a auto_add = .ok l) (hb : parseOwn item b auto_add = .ok l')
    : l.filter isAutoAdd = l'.filter isAutoAdd := by
  rcases parseOwn_cases item auto_add with ⟨e, herror⟩ | ⟨front, back, hok⟩
  . rw [herror] at ha
    cases ha
  . rw [hok] at ha hb
    cases ha
    cases hb
    rw [List.filter_append, List.filter_append, filter_parseAsStr a, List.filter_append,
      List.filter_append, filter_parseAsStr b]

def parseElementThreaded (bedrock : Bool) (auto_add : List ParsedMotdComponent) (element : Json)
    : Except Exception (List ParsedMotdComponent) :=
  match element with
  | .dict fields => parseAsDictThreaded fields bedrock auto_add
  | .str s => .ok (auto_add ++ parseAsStr s bedrock)
  | _ => .error .typeError

theorem parseAsDictThreaded_eq (item : Dict) (bedrock : Bool)
    (auto_add : List ParsedMotdComponent)
    : parseAsDictThreaded item bedrock auto_add
        = parseOwn item bedrock auto_add >>= fun parsed_motd => (parsed_motd ++ ·) <$>
          (extraElements item >>= fun elements => List.flatten <$>
            elements.mapM (parseElementThreaded bedrock (parsed_motd.filter isAutoAdd))) := by
  rw [parseAsDictThreaded]
  congr 1
  funext parsed_motd
  dsimp only
  split
  . next e he =>
    rw [he]
    rfl
  . next elements he =>
    have hattach : elements.attach.mapM (fun x =>
          parseElementThreaded bedrock (parsed_motd.filter isAutoAdd) x.1)
        = elements.mapM (parseElementThreaded bedrock (parsed_motd.filter isAutoAdd)) := by
      simp
    rw [he, ok_bind, ← hattach, Functor.map_map]
    rw [← bind_pure_comp]
    congr 1
    apply congrArg fun f => elements.attach.mapM f
    funext x
    rcases x with ⟨element, hmem⟩
    cases element <;> rfl

theorem parseAsDict_eq_bind (item : Dict) (bedrock : Bool) (auto_add : List ParsedMotdComponent)
    : parseAsDict item bedrock auto_add
        = parseOwn item bedrock auto_add >>= fun parsed_motd => (parsed_motd ++ ·) <$>
          (extraElements item >>= fun elements => List.flatten <$>
            elements.mapM (parseElementOf bedrock (parsed_motd.filter isAutoAdd))) := by
  rw [parseAsDict_unfold]
  congr 1
  funext parsed_motd
  rw [map_bind]
  congr 1
  funext elements
  rw [Functor.map_map, ← bind_pure_comp]

/-- An element that is parsed alike for `a` and, by a parser that passes it on, for `b`. -/
def ElementAgrees (a b : Bool) (element : Json) : Prop :=
  match element with
  | .dict fields => b = false ∨ ∀ text, TextIn fields text → ¬ HasMinecoinCode text
  | .str s => a = b ∨ ¬ HasMinecoinCode s
  | _ => True

theorem textIn_iff {text : List Char}
    : TextIn item text ↔ text = ownText item ∨ .str text ∈ elementsOf item
        ∨ ∃ fields, .dict fields ∈ elementsOf item ∧ TextIn fields text := by
  constructor
  . intro h
    cases h with
    | own => exact Or.inl rfl
    | string _ s hmem => exact Or.inr (Or.inl hmem)
    | dict _ fields _ hmem h => exact Or.inr (Or.inr ⟨fields, hmem, h⟩)
  . rintro (rfl | hmem | ⟨fields, hmem, h⟩)
    . exact .own item
    . exact .string item text hmem
    . exact .dict item fields text hmem h

theorem agrees_false_iff (b : Bool)
    : ((false = b ∨ ¬ HasMinecoinCode (ownText item))
          ∧ ∀ element ∈ elementsOf item, ElementAgrees false b element)
        ↔ b = false ∨ ∀ text, TextIn item text → ¬ HasMinecoinCode text := by
  cases b with
  | false =>
    refine ⟨fun _ => Or.inl rfl, fun _ => ⟨Or.inl rfl, ?_⟩⟩
    intro element _
    unfold ElementAgrees
    split
    . exact Or.inl rfl
    . exact Or.inl rfl
    . trivial
  | true =>
    rw [or_iff_right Bool.false_ne_true, or_iff_right Bool.false_ne_true.symm]
    constructor
    . rintro ⟨hown, helements⟩ text htext
      rcases textIn_iff.mp htext with rfl | hmem | ⟨fields, hmem, h⟩
      . exact hown
      . exact (helements _ hmem).resolve_left Bool.false_ne_true
      . exact (helements _ hmem).resolve_left Bool.false_ne_true.symm text h
    . intro h
      refine ⟨h _ (.own item), fun element hmem => ?_⟩
      cases element with
      | dict fields => exact Or.inr fun text htext => h text (.dict item fields text hmem htext)
      | str s => exact Or.inr (h s (.string item s hmem))
      | _ => trivial

theorem aligned_parseAsDict (item : Dict) (a b : Bool) (auto_add : List ParsedMotdComponent)
    : Aligned (parseAsDict item a auto_add) (parseAsDictThreaded item b auto_add)
        ((a = b ∨ ¬ HasMinecoinCode (ownText item))
          ∧ ∀ element ∈ elementsOf item, ElementAgrees a b element) := by
  rw [parseAsDict_eq_bind, parseAsDictThreaded_eq]
  apply (aligned_parseOwn a b).bind_append
  intro l l' hl hl'
  rw [filter_parseOwn hl hl']
  unfold elementsOf
  cases helements : extraElements item with
  | error e => exact .error e _
  | ok elements =>
    apply Aligned.flatten_mapM
    intro element hmem
    cases element with
    | dict fields =>
      have := sizeOf_extraElements helements hmem
      exact (aligned_parseAsDict fields false b _).congr (agrees_false_iff b)
    | str s =>
      refine .ok (by simp [length_parseAsStr a b]) ?_
      rw [List.append_cancel_left_eq, parseAsStr_eq_iff]
      rfl
    | _ => exact .error Exception.typeError _
termination_by sizeOf item

theorem parseAsDictThreaded_eq_iff {bedrock : Bool} {parsed : List ParsedMotdComponent}
    (h : parseAsDict item bedrock auto_add = .ok parsed)
    : parseAsDictThreaded item bedrock auto_add = .ok parsed
        ↔ bedrock = false ∨ ∀ text, (∃ fields, .dict fields ∈ elementsOf item ∧ TextIn fields text)
          → ¬ HasMinecoinCode text := by
  have haligned := aligned_parseAsDict item bedrock bedrock auto_add
  rw [h] at haligned
  rcases haligned.of_ok with ⟨parsed', hthreaded, heq⟩
  rw [hthreaded, Except.ok.injEq, eq_comm, heq, and_iff_right (Or.inl rfl)]
  constructor
  . intro hagrees
    rw [or_iff_not_imp_left]
    rintro hbedrock text ⟨fields, hmem, htext⟩
    exact (hagrees _ hmem).resolve_left hbedrock text htext
  . intro h element hmem
    cases element with
    | dict fields => exact h.imp_right fun h text htext => h text ⟨fields, hmem, htext⟩
    | str s => exact Or.inl rfl
    | _ => trivial

end Tree

/-- The dicts in `extra` are read for Java, which only matters where `§g` or `&g` is a piece. -/
theorem editionReachesAll_iff {raw : Json} {bedrock : Bool} {motd : Motd}
    (h : parse raw bedrock = .ok motd)
    : EditionReachesAll motd
        ↔ bedrock = false ∨ ∀ text, NestedText raw text → ¬ HasMinecoinCode text := by
  rcases bind_eq_ok.mp h with ⟨parsed, hparsed, heq⟩
  cases heq
  cases raw with
  | str s =>
    refine iff_of_true ?_ (Or.inr ?_)
    . exact hparsed
    . rintro text ⟨fields, hmem, _⟩
      exact absurd hmem List.not_mem_nil
  | list items => exact parseAsDictThreaded_eq_iff hparsed
  | dict item => exact parseAsDictThreaded_eq_iff hparsed
  | _ => cases hparsed

def nestedGold : Json :=
  .dict [("extra".toList, .list [.dict [("text".toList, .str "§g".toList)]])]

/-- The dict in `extra` keeps a text where the string beside it would become a color. -/
def nestedGoldMotd : Motd where
  parsed := [.formatting .reset, .str "§g".toList, .formatting .reset]
  raw := nestedGold
  bedrock := true

theorem parse_nestedGold : parse nestedGold true = .ok nestedGoldMotd := by
  have hraw : parseRaw nestedGold true = .ok nestedGoldMotd.parsed := by decide +kernel
  rw [parse, hraw]
  rfl

theorem editionReachesAll_nestedGold
    : EditionReachesAll nestedGoldMotd
        ↔ true = false ∨ ∀ text, NestedText nestedGold text → ¬ HasMinecoinCode text :=
  editionReachesAll_iff parse_nestedGold

theorem not_editionReachesAll_nestedGold
    : parse nestedGold true = .ok nestedGoldMotd
        ∧ parseRawThreaded nestedGold true
          = .ok [.formatting .reset, .minecraftColor .minecoinGold, .formatting .reset]
        ∧ ¬ ∀ raw bedrock motd, parse raw bedrock = .ok motd → EditionReachesAll motd := by
  have hthreaded : parseRawThreaded nestedGold true
      = .ok [.formatting .reset, .minecraftColor .minecoinGold, .formatting .reset] := by
    decide +kernel
  refine ⟨parse_nestedGold, hthreaded, fun h => ?_⟩
  have hreaches := h nestedGold true nestedGoldMotd parse_nestedGold
  rw [EditionReachesAll, nestedGoldMotd, hthreaded] at hreaches
  exact absurd hreaches (by decide)

end Motd

end Python

end McStatus
