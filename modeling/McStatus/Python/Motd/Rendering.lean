import Mathlib.Data.List.TakeWhile
import McStatus.Python.Motd.Events
import McStatus.Python.Motd.KeyErrors
import McStatus.Python.Motd.Motd
import McStatus.Python.Motd.SimplifySound

/-!
This module contains the raw MOTDs for Java whose rendering raises a `KeyError`: the ones that bring
a color of Bedrock along, by its code or by its name.
-/

namespace McStatus

open Fallible

namespace Python

namespace Motd

def bedrockLetters : List Char :=
  ['g', 'h', 'i', 'j', 'm', 'n', 'p', 'q', 's', 't', 'u', 'v']

/-- A piece of text that is the code of a color of Bedrock. A `g` behind one sign is left alone. -/
def IsBedrockCode (piece : List Char) : Prop :=
  ∃ starts code, piece = starts ++ [code] ∧ starts ≠ [] ∧ (∀ c ∈ starts, c = '&' ∨ c = '§')
    ∧ code.toLower ∈ bedrockLetters ∧ (code.toLower = 'g' → starts.length ≠ 1)

def HasBedrockCode (s : List Char) : Prop :=
  ∃ piece ∈ splitCodes [] s, IsBedrockCode piece

inductive SetsBedrockColor : Json → Prop where
  | str (s : List Char) (h : HasBedrockCode s) : SetsBedrockColor (.str s)
  | color (item : Dict) (color : List Char) (c : MinecraftColor)
      (hget : item.get "color".toList = some (.str color))
      (hname : MinecraftColor.ofName (upper color) = some c) (hc : c.bedrockOnly = true)
      : SetsBedrockColor (.dict item)
  | text (item : Dict) (s : List Char) (hget : item.get "text".toList = some (.str s))
      (h : HasBedrockCode s) : SetsBedrockColor (.dict item)
  | extra (item : Dict) (element : Json) (hmem : element ∈ elementsOf item)
      (h : SetsBedrockColor element) : SetsBedrockColor (.dict item)
  | list (items : List Json) (element : Json) (hmem : element ∈ items)
      (h : SetsBedrockColor element) : SetsBedrockColor (.list items)

theorem exists_of_mem_bedrockLetters {v : Char} (h : v ∈ bedrockLetters)
    : ∃ c, MinecraftColor.ofValue [v] = some c ∧ c.bedrockOnly = true := by
  have hall : bedrockLetters.all fun v => (MinecraftColor.ofValue [v]).any (·.bedrockOnly) := by
    decide
  have hv := List.all_eq_true.mp hall v h
  cases hc : MinecraftColor.ofValue [v] with
  | none =>
    rw [hc] at hv
    cases hv
  | some c =>
    rw [hc] at hv
    exact ⟨c, rfl, hv⟩

theorem mem_bedrockLetters_of_ofValue {value : List Char} {c : MinecraftColor}
    (h : MinecraftColor.ofValue value = some c) (hc : c.bedrockOnly = true)
    : ∃ v ∈ bedrockLetters, value = [v] := by
  have hall : ∀ m ∈ MinecraftColor.members, m.1.bedrockOnly = true → m.2.2 ∈ bedrockLetters := by
    decide
  rcases Option.map_eq_some_iff.mp h with ⟨m, hm, rfl⟩
  have hvalue := List.find?_some hm
  exact ⟨m.2.2, hall m (List.mem_of_find?_eq_some hm) hc, (of_decide_eq_true hvalue).symm⟩

theorem toLower_of_mem_bedrockLetters {c : Char}
    (h : (if c.toNat = 0x212A then 'k' else c.toLower) ∈ bedrockLetters)
    : (if c.toNat = 0x212A then 'k' else c.toLower) = c.toLower := by
  split
  . next hc =>
    rw [if_pos hc] at h
    exact absurd h (by decide)
  . rfl

theorem lower_of_mem_bedrockLetters {c : Char} (h : c.toLower ∈ bedrockLetters)
    : lower [c] = [c.toLower] := by
  have hc : c.toNat ≠ 0x212A := by
    intro hc
    have hkelvin : c = Char.ofNat 0x212A := by rw [← hc, Char.ofNat_toNat]
    rw [hkelvin] at h
    exact absurd h (by decide)
  simp [lower, hc]

def cleanElement (element : List Char) : List Char :=
  lower (element.dropWhile fun c => c = '&' ∨ c = '§')

def standardizedElement (element : List Char) : List Char :=
  lower (element.map fun c => if c = '&' then '§' else c)

theorem parseElement_eq_minecraftColor {element : List Char} {c : MinecraftColor}
    : parseElement false element = .minecraftColor c
        ↔ standardizedElement element ≠ ['§', 'g']
          ∧ (standardizedElement element).head? = some '§'
          ∧ MinecraftColor.ofValue (cleanElement element) = some c := by
  unfold parseElement
  change (if standardizedElement element = ['§', 'g'] ∧ ¬ false = true then _
    else if (standardizedElement element).head? = some '§' then _ else _) = _ ↔ _
  by_cases hg : standardizedElement element = ['§', 'g']
  . rw [if_pos ⟨hg, by decide⟩]
    exact ⟨fun h => (by cases h), fun h => absurd hg h.1⟩
  rw [if_neg fun h => hg h.1]
  by_cases hhead : (standardizedElement element).head? = some '§'
  . rw [if_pos hhead, ← cleanElement]
    cases MinecraftColor.ofValue (cleanElement element) with
    | some color =>
      constructor
      . intro h
        cases h
        exact ⟨hg, hhead, rfl⟩
      . rintro ⟨_, _, h⟩
        cases h
        rfl
    | none =>
      dsimp only
      constructor
      . intro h
        split at h <;> cases h
      . rintro ⟨_, _, h⟩
        cases h
  . rw [if_neg hhead]
    exact ⟨fun h => (by cases h), fun h => absurd h.2.1 hhead⟩

theorem cleanElement_append {starts : List Char} {code : Char}
    (hstarts : ∀ c ∈ starts, c = '&' ∨ c = '§') (hcode : code.toLower ∈ bedrockLetters)
    : cleanElement (starts ++ [code]) = [code.toLower] := by
  have hsign : ¬ (code = '&' ∨ code = '§') := by
    rintro (rfl | rfl) <;> exact absurd hcode (by decide)
  rw [cleanElement, List.dropWhile_append_of_pos fun c hc => decide_eq_true (hstarts c hc),
    List.dropWhile_cons_of_neg (by simpa using hsign), lower_of_mem_bedrockLetters hcode]

theorem standardizedElement_append {starts : List Char} {code : Char}
    (hstarts : ∀ c ∈ starts, c = '&' ∨ c = '§') (hcode : code.toLower ∈ bedrockLetters)
    : standardizedElement (starts ++ [code])
        = List.replicate starts.length '§' ++ [code.toLower] := by
  have hsign : code ≠ '&' := by
    rintro rfl
    exact absurd hcode (by decide)
  rw [standardizedElement, List.map_append, List.map_singleton, if_neg hsign, lower,
    List.map_append]
  congr 1
  . rw [List.map_map, List.eq_replicate_iff]
    refine ⟨List.length_map _, ?_⟩
    intro c hc
    rcases List.mem_map.mp hc with ⟨c', hc', rfl⟩
    rcases hstarts c' hc' with rfl | rfl <;> decide
  . exact lower_of_mem_bedrockLetters hcode

theorem parseElement_bedrockOnly_iff (piece : List Char)
    : (∃ c, parseElement false piece = .minecraftColor c ∧ c.bedrockOnly = true)
        ↔ IsBedrockCode piece := by
  constructor
  . rintro ⟨c, hparse, hc⟩
    rcases parseElement_eq_minecraftColor.mp hparse with ⟨hg, hhead, hvalue⟩
    rcases mem_bedrockLetters_of_ofValue hvalue hc with ⟨v, hv, hclean⟩
    rcases List.map_eq_singleton_iff.mp hclean with ⟨code, hcode, rfl⟩
    rw [toLower_of_mem_bedrockLetters hv] at hv
    have hpiece := List.takeWhile_append_dropWhile (p := fun c => c = '&' ∨ c = '§') (l := piece)
    rw [hcode] at hpiece
    have hstarts : ∀ c ∈ piece.takeWhile (fun c => c = '&' ∨ c = '§'), c = '&' ∨ c = '§' := by
      intro c hc
      have := List.mem_takeWhile_imp hc
      simpa using this
    rw [← hpiece, standardizedElement_append hstarts hv] at hg hhead
    refine ⟨_, code, hpiece.symm, ?_, hstarts, hv, ?_⟩
    . intro hnil
      rw [hnil] at hhead
      rw [Option.some.inj hhead] at hv
      exact absurd hv (by decide)
    . intro hcode hlen
      rw [hlen, hcode] at hg
      exact hg rfl
  . rintro ⟨starts, code, rfl, hne, hstarts, hcode, hg⟩
    rcases exists_of_mem_bedrockLetters hcode with ⟨c, hvalue, hc⟩
    refine ⟨c, parseElement_eq_minecraftColor.mpr ⟨?_, ?_, ?_⟩, hc⟩
    . rw [standardizedElement_append hstarts hcode]
      intro heq
      have hlen := congrArg List.length heq
      have hlast := congrArg List.getLast? heq
      rw [List.getLast?_concat] at hlast
      simp at hlen
      exact hg (Option.some.inj hlast) hlen
    . rw [standardizedElement_append hstarts hcode]
      cases starts with
      | nil => exact absurd rfl hne
      | cons x starts => rfl
    . rw [cleanElement_append hstarts hcode]
      exact hvalue

theorem unknown_java {c : MinecraftColor} : Unknown false c ↔ c.bedrockOnly = true :=
  and_iff_right rfl

theorem hasUnknown_parseAsStr (s : List Char)
    : HasUnknown false (parseAsStr s false) ↔ HasBedrockCode s := by
  constructor
  . rintro ⟨c, hmem, hc⟩
    rcases List.mem_map.mp hmem with ⟨piece, hpiece, hparse⟩
    exact ⟨piece, (List.mem_filter.mp hpiece).1,
      (parseElement_bedrockOnly_iff piece).mp ⟨c, hparse, hc.2⟩⟩
  . rintro ⟨piece, hpiece, hcode⟩
    rcases (parseElement_bedrockOnly_iff piece).mpr hcode with ⟨c, hparse, hc⟩
    have hne : (!piece.isEmpty) = true := by
      rcases hcode with ⟨starts, code, rfl, _⟩
      simp
    exact ⟨c, List.mem_map.mpr ⟨piece, List.mem_filter.mpr ⟨hpiece, hne⟩, hparse⟩, rfl, hc⟩

def NamesBedrockColor (item : Dict) : Prop :=
  ∃ color c, item.get "color".toList = some (.str color)
    ∧ MinecraftColor.ofName (upper color) = some c ∧ c.bedrockOnly = true

def TextHasBedrockCode (item : Dict) : Prop :=
  ∃ s, item.get "text".toList = some (.str s) ∧ HasBedrockCode s

theorem hasUnknown_parseColor {color : List Char} {component : ParsedMotdComponent}
    (h : parseColor color = .ok component)
    : HasUnknown false [component]
        ↔ ∃ c, MinecraftColor.ofName (upper color) = some c ∧ c.bedrockOnly = true := by
  unfold parseColor at h
  cases hname : MinecraftColor.ofName (upper color) with
  | some c =>
    rw [hname] at h
    cases h
    rw [hasUnknown_minecraftColor, unknown_java]
    exact ⟨fun hc => ⟨c, rfl, hc⟩, fun ⟨c', heq, hc⟩ => by cases heq; exact hc⟩
  | none =>
    rw [hname] at h
    dsimp only at h
    have hno (hother : ∀ c, component ≠ .minecraftColor c)
        : HasUnknown false [component]
          ↔ ∃ c, (none : Option MinecraftColor) = some c ∧ c.bedrockOnly = true :=
      ⟨fun hhas => absurd hhas (not_hasUnknown_singleton hother), fun ⟨_, heq, _⟩ => by cases heq⟩
    split at h
    . cases h
      exact hno fun c => nofun
    . split at h
      . cases h
        exact hno fun c => nofun
      . cases h

theorem hasUnknown_addColor {item : Dict} {l l' : List ParsedMotdComponent}
    (h : addColor item l = .ok l')
    : HasUnknown false l' ↔ HasUnknown false l ∨ NamesBedrockColor item := by
  have hnone (hget : ∀ color, item.get "color".toList ≠ some (.str color))
      : ¬ NamesBedrockColor item :=
    fun ⟨color, _, heq, _⟩ => hget color heq
  unfold addColor at h
  split at h
  . next hget =>
    cases h
    rw [or_iff_left (hnone fun color heq => by rw [hget] at heq; cases heq)]
  . next hget =>
    cases h
    rw [or_iff_left (hnone fun color heq => by rw [hget] at heq; cases heq)]
  . next color hget =>
    rcases bind_eq_ok.mp h with ⟨component, hcolor, heq⟩
    cases heq
    rw [hasUnknown_append, hasUnknown_parseColor hcolor, NamesBedrockColor, hget]
    apply or_congr_right
    constructor
    . rintro ⟨c, hname, hc⟩
      exact ⟨color, c, rfl, hname, hc⟩
    . rintro ⟨color', c, heq, hname, hc⟩
      cases heq
      exact ⟨c, hname, hc⟩
  . cases h

theorem hasUnknown_addStyle (item : Dict) (l : List ParsedMotdComponent) (f : Formatting)
    : HasUnknown false (addStyle item l f) ↔ HasUnknown false l := by
  unfold addStyle
  split
  . constructor
    . rintro ⟨c, hmem, hc⟩
      exact ⟨c, List.mem_of_mem_erase hmem, hc⟩
    . rintro ⟨c, hmem, hc⟩
      exact ⟨c, (List.mem_erase_of_ne (by simp)).mpr hmem, hc⟩
  . rfl
  . rfl
  . rw [hasUnknown_append, or_iff_left (not_hasUnknown_formatting false f)]

theorem hasUnknown_addStyles (item : Dict) (l : List ParsedMotdComponent) (fs : List Formatting)
    : HasUnknown false (fs.foldl (addStyle item) l) ↔ HasUnknown false l := by
  induction fs generalizing l with
  | nil => rfl
  | cons f fs ih => rw [List.foldl_cons, ih, hasUnknown_addStyle]

theorem hasUnknown_addText {item : Dict} {l l' : List ParsedMotdComponent}
    (h : addText item false l = .ok l')
    : HasUnknown false l' ↔ HasUnknown false l ∨ TextHasBedrockCode item := by
  have hnone (hget : ∀ text, item.get "text".toList ≠ some (.str text))
      : ¬ TextHasBedrockCode item :=
    fun ⟨text, heq, _⟩ => hget text heq
  unfold addText at h
  split at h
  . next hget =>
    cases h
    rw [or_iff_left (hnone fun text heq => by rw [hget] at heq; cases heq)]
  . next hget =>
    cases h
    rw [or_iff_left (hnone fun text heq => by rw [hget] at heq; cases heq)]
  . next text hget =>
    cases h
    rw [hasUnknown_append, hasUnknown_parseAsStr, TextHasBedrockCode, hget]
    apply or_congr_right
    exact ⟨fun hcode => ⟨text, rfl, hcode⟩, fun ⟨text', heq, hcode⟩ => by cases heq; exact hcode⟩
  . cases h

theorem hasUnknown_addTranslate (item : Dict) (l : List ParsedMotdComponent)
    : HasUnknown false (addTranslate item l) ↔ HasUnknown false l := by
  unfold addTranslate
  split
  . rfl
  . rfl
  . rw [hasUnknown_append, or_iff_left (not_hasUnknown_translationTag false _)]
  . rw [hasUnknown_append, or_iff_left (not_hasUnknown_translationTag false _)]

theorem hasUnknown_parseOwn {item : Dict} {auto_add l : List ParsedMotdComponent}
    (h : parseOwn item false auto_add = .ok l)
    : HasUnknown false l
        ↔ (HasUnknown false auto_add ∨ NamesBedrockColor item) ∨ TextHasBedrockCode item := by
  rcases bind_eq_ok.mp h with ⟨colored, hcolor, h⟩
  rcases bind_eq_ok.mp h with ⟨texts, htext, heq⟩
  cases heq
  rw [hasUnknown_append, or_iff_left (not_hasUnknown_formatting false .reset),
    hasUnknown_addTranslate, hasUnknown_addText htext, hasUnknown_addStyles,
    hasUnknown_addColor hcolor]

theorem not_hasUnknown_filter_isAutoAdd (l : List ParsedMotdComponent)
    : ¬ HasUnknown false (l.filter isAutoAdd) := by
  rintro ⟨c, hmem, _⟩
  have := (List.mem_filter.mp hmem).2
  cases this

theorem setsBedrockColor_dict {item : Dict}
    : SetsBedrockColor (.dict item)
        ↔ (NamesBedrockColor item ∨ TextHasBedrockCode item)
          ∨ ∃ element ∈ elementsOf item, SetsBedrockColor element := by
  constructor
  . intro h
    cases h with
    | color _ color c hget hname hc => exact Or.inl (Or.inl ⟨color, c, hget, hname, hc⟩)
    | text _ s hget h => exact Or.inl (Or.inr ⟨s, hget, h⟩)
    | extra _ element hmem h => exact Or.inr ⟨element, hmem, h⟩
  . rintro ((⟨color, c, hget, hname, hc⟩ | ⟨s, hget, h⟩) | ⟨element, hmem, h⟩)
    . exact .color item color c hget hname hc
    . exact .text item s hget h
    . exact .extra item element hmem h

theorem setsBedrockColor_str {s : List Char} : SetsBedrockColor (.str s) ↔ HasBedrockCode s := by
  constructor
  . intro h
    cases h with
    | str _ h => exact h
  . exact .str s

theorem extraElements_of_parseAsDict {item : Dict} {bedrock : Bool}
    {auto_add parsed : List ParsedMotdComponent}
    (h : parseAsDict item bedrock auto_add = .ok parsed)
    : ∃ elements, extraElements item = .ok elements := by
  rw [parseAsDict] at h
  rcases bind_eq_ok.mp h with ⟨own, _, h⟩
  dsimp only at h
  split at h
  . cases h
  . next elements helements => exact ⟨elements, helements⟩

theorem hasUnknown_parseAsDict {item : Dict} {auto_add parsed : List ParsedMotdComponent}
    (h : parseAsDict item false auto_add = .ok parsed)
    : HasUnknown false parsed ↔ HasUnknown false auto_add ∨ SetsBedrockColor (.dict item) := by
  rw [parseAsDict_eq (extraElements_of_parseAsDict h)] at h
  rcases bind_eq_ok.mp h with ⟨own, hown, h⟩
  rcases bind_eq_ok.mp h with ⟨extra, hextra, heq⟩
  cases heq
  rcases mem_of_mapM_eq_ok hextra with ⟨hinto, honto⟩
  -- what an element adds, where the recursion goes down the tree
  have helement (element : Json) (hmem : element ∈ elementsOf item) (l : List ParsedMotdComponent)
      (hl : parseElementOf false (own.filter isAutoAdd) element = .ok l)
      : HasUnknown false l ↔ SetsBedrockColor element := by
    cases element with
    | dict fields =>
      have := sizeOf_elementsOf hmem
      rw [hasUnknown_parseAsDict hl, or_iff_right (not_hasUnknown_filter_isAutoAdd own)]
    | str s =>
      cases hl
      rw [hasUnknown_append, or_iff_right (not_hasUnknown_filter_isAutoAdd own),
        hasUnknown_parseAsStr, setsBedrockColor_str]
    | _ => cases hl
  rw [hasUnknown_append, hasUnknown_parseOwn hown, hasUnknown_flatten, setsBedrockColor_dict,
    or_assoc, or_assoc]
  apply or_congr_right
  rw [or_assoc]
  apply or_congr_right
  apply or_congr_right
  constructor
  . rintro ⟨l, hl, hhas⟩
    rcases honto l hl with ⟨element, hmem, hok⟩
    exact ⟨element, hmem, (helement element hmem l hok).mp hhas⟩
  . rintro ⟨element, hmem, hsets⟩
    rcases hinto element hmem with ⟨l, hl, hok⟩
    exact ⟨l, hl, (helement element hmem l hok).mpr hsets⟩
termination_by sizeOf item

theorem removeUntilStable_sublist (parsed : List ParsedMotdComponent)
    : (removeUntilStable parsed).Sublist parsed := by
  fun_induction removeUntilStable parsed with
  | case1 parsed h => exact List.Sublist.refl parsed
  | case2 parsed h _ ih => exact ih.trans (leaveOut_sublist 0 parsed (getUnusedElements parsed))

theorem simplify_ok {setIter : SetIter} (hinside : setIter.StaysInside) (bedrock : Bool)
    (parsed : List ParsedMotdComponent)
    : ∃ simplified, simplify setIter parsed = .ok simplified
        ∧ (HasUnknown bedrock simplified → HasUnknown bedrock parsed) := by
  rcases squashNearbyStrings_ok hinside (removeUntilStable parsed) with ⟨simplified, hok, hmem⟩
  refine ⟨simplified, hok, ?_⟩
  rintro ⟨c, hc, hunknown⟩
  exact ⟨c, (removeUntilStable_sublist parsed).subset (hmem _ hc rfl), hunknown⟩

def Renders (setIter : SetIter) (motd : Motd) : Prop :=
  IsOk motd.toHtml ∧ IsOk motd.toAnsi
    ∧ ∃ motd', simplified setIter motd = .ok motd' ∧ IsOk motd'.toHtml ∧ IsOk motd'.toAnsi

theorem renders_iff_hasUnknown {setIter : SetIter} (hinside : setIter.StaysInside) (motd : Motd)
    : motd.Renders setIter ↔ ¬ HasUnknown motd.bedrock motd.parsed := by
  have hhtml (motd : Motd) : IsOk motd.toHtml ↔ ¬ HasUnknown motd.bedrock motd.parsed :=
    (raisesAtUnknown_htmlTransformer motd.bedrock).transform motd.parsed
  have hansi (motd : Motd) : IsOk motd.toAnsi ↔ ¬ HasUnknown motd.bedrock motd.parsed :=
    (raisesAtUnknown_ansiTransformer motd.bedrock).transform motd.parsed
  constructor
  . rintro ⟨hok, _⟩
    exact (hhtml motd).mp hok
  . intro hknown
    rcases simplify_ok hinside motd.bedrock motd.parsed with ⟨parsed, hsimplify, hback⟩
    have hknown' : ¬ HasUnknown motd.bedrock parsed := fun h => hknown (hback h)
    have hsimplified : simplified setIter motd = .ok { motd with parsed := parsed } := by
      rw [simplified, hsimplify]
      rfl
    exact ⟨(hhtml motd).mpr hknown, (hansi motd).mpr hknown, _, hsimplified,
      (hhtml _).mpr hknown', (hansi _).mpr hknown'⟩

theorem hasUnknown_parse {raw : Json} {bedrock : Bool} {motd : Motd}
    (h : parse raw bedrock = .ok motd)
    : HasUnknown motd.bedrock motd.parsed ↔ bedrock = false ∧ SetsBedrockColor raw := by
  rcases bind_eq_ok.mp h with ⟨parsed, hparsed, heq⟩
  cases heq
  cases bedrock with
  | true => exact ⟨fun ⟨_, _, hc⟩ => (nomatch hc.1), fun hc => (nomatch hc.1)⟩
  | false =>
    rw [and_iff_right rfl]
    have hnone : ¬ HasUnknown false [] := fun ⟨_, hmem, _⟩ => List.not_mem_nil hmem
    cases raw with
    | str s =>
      cases hparsed
      rw [hasUnknown_parseAsStr, setsBedrockColor_str]
    | dict fields => rw [hasUnknown_parseAsDict hparsed, or_iff_right hnone]
    | list items =>
      have hcolor : ¬ NamesBedrockColor [("extra".toList, .list items)] := by
        rintro ⟨_, _, hget, _⟩
        cases hget
      have htext : ¬ TextHasBedrockCode [("extra".toList, .list items)] := by
        rintro ⟨_, hget, _⟩
        cases hget
      rw [hasUnknown_parseAsDict hparsed, or_iff_right hnone, setsBedrockColor_dict,
        or_iff_right (not_or.mpr ⟨hcolor, htext⟩)]
      constructor
      . rintro ⟨element, hmem, hsets⟩
        exact .list items element hmem hsets
      . rintro (_ | _ | _ | _ | ⟨_, element, hmem, hsets⟩)
        exact ⟨element, hmem, hsets⟩
    | _ => cases hparsed

theorem renders_iff {setIter : SetIter} (hinside : setIter.StaysInside) {raw : Json}
    {bedrock : Bool}
    {motd : Motd} (hparse : parse raw bedrock = .ok motd)
    : motd.Renders setIter ↔ ¬ (bedrock = false ∧ SetsBedrockColor raw) := by
  rw [renders_iff_hasUnknown hinside, hasUnknown_parse hparse]

def redstone (bedrock : Bool) : Motd where
  parsed := [.minecraftColor .materialRedstone, .str "x".toList]
  raw := .str "&mx".toList
  bedrock := bedrock

theorem parse_redstone (bedrock : Bool)
    : parse (.str "&mx".toList) bedrock = .ok (redstone bedrock) := by
  cases bedrock <;> rfl

theorem renders_redstone : (redstone true).Renders SetIter.sorted :=
  (renders_iff (SetIter.Ascending.staysInside ascending_sorted) (parse_redstone true)).mpr
    fun h => nomatch h.1

/-- `&m` is strikethrough on Java, and is read as a color that Java does not have. -/
theorem not_renders_redstone
    : (redstone false).toHtml = .error (.keyError "MATERIAL_REDSTONE".toList)
        ∧ (redstone false).toAnsi = .error (.keyError "MATERIAL_REDSTONE".toList)
        ∧ ¬ ∀ raw bedrock motd, parse raw bedrock = .ok motd → motd.Renders SetIter.sorted := by
  have hhtml : (redstone false).toHtml = .error (.keyError "MATERIAL_REDSTONE".toList) := rfl
  refine ⟨hhtml, rfl, ?_⟩
  intro h
  rcases h _ false _ (parse_redstone false) with ⟨⟨html, hok⟩, _⟩
  rw [hhtml] at hok
  cases hok

end Motd

end Python

end McStatus
