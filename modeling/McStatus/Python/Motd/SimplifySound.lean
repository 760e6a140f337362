import Mathlib.Data.Finset.Sort
import McStatus.Python.Motd.Squash
import McStatus.Python.Motd.UnusedElements

/-!
This module shows for which lists `simplify` keeps what is displayed, up to whitespace.
-/

namespace McStatus

namespace Python

namespace Motd

def isVisible (item : ParsedMotdComponent) : Bool :=
  match item with
  | .str s => s.any (!isSpaceChar ·)
  | _ => false

def visible (style : Style) (parsed : List ParsedMotdComponent) : List (Char × Style) :=
  (display.render style parsed).filter fun x => !isSpaceChar x.1

structure Scan where
  style : Style
  kept : Style
  active : Active
  /-- What is active when only the codes count that are not removed in a first round. -/
  keptActive : Active

namespace Scan

def start : Scan where
  style := .plain
  kept := .plain
  active := .nothing
  keptActive := .nothing

def next (scan : Scan) (item : ParsedMotdComponent) (rest : List ParsedMotdComponent) : Scan where
  style := scan.style.apply item
  kept := if overridden item rest then scan.kept else scan.kept.apply item
  active := scan.active.next item
  keptActive :=
    if overridden item rest ∨ scan.active.repeats item ∨ rest.head? = some item then
      scan.keptActive
    else
      scan.keptActive.next item

def cleaned (scan : Scan) : Scan where
  style := scan.kept
  kept := scan.kept
  active := scan.keptActive
  keptActive := scan.keptActive

end Scan

/-- No pass is wrong about a code that is not overridden. -/
structure Sound (scan : Scan) (item : ParsedMotdComponent) (rest : List ParsedMotdComponent) : Prop
    where
  /-- What is taken for a repetition changes nothing. -/
  repeated : scan.active.repeats item = true ∨ scan.keptActive.repeats item = true
    ∨ (item = .formatting .reset ∧ rest.head? = some item) → scan.kept.apply item = scan.kept
  /-- Of two equal formattings next to each other, both are removed. -/
  doubled : item.isFormatting = true → item ≠ .formatting .reset → rest.head? ≠ some item
  /-- A color does not need the overridden codes before it. -/
  color : item.isColor = true → colorBeforeWord rest = false →
    scan.kept.apply item = scan.style.apply item

/-- No pass is wrong about a code in front of something visible. -/
def AllSound (scan : Scan) (parsed : List ParsedMotdComponent) : Prop :=
  match parsed with
  | [] => True
  | item :: rest =>
    (rest.any isVisible = true → overridden item rest = false → Sound scan item rest)
      ∧ AllSound (scan.next item rest) rest

section Code

variable {item : ParsedMotdComponent} {rest : List ParsedMotdComponent} {active : Active}

theorem shows_of_isCode (h : item.isCode = true) : display.shows item = [] := by
  cases item <;> first | rfl | simp [ParsedMotdComponent.isCode] at h

theorem isStr_of_isCode (h : item.isCode = true) : item.isStr = false := by
  cases item <;> first | rfl | simp [ParsedMotdComponent.isCode] at h

theorem isVisible_of_isCode (h : item.isCode = true) : isVisible item = false := by
  cases item <;> first | rfl | simp [ParsedMotdComponent.isCode] at h

theorem isWord_of_isCode (h : item.isCode = true) : isWord item = false := by
  cases item <;> first | rfl | simp [ParsedMotdComponent.isCode] at h

theorem next_of_not_isCode (h : item.isCode = false) (active : Active)
    : active.next item = active := by
  cases item <;> first | rfl | simp [ParsedMotdComponent.isCode] at h

theorem isCode_cases (h : item.isCode = true)
    : item.isColor = true ∨ item.isFormatting = true := by
  cases item with
  | formatting f => exact Or.inr rfl
  | minecraftColor _ | webColor _ => exact Or.inl rfl
  | translationTag _ | str _ => cases h

theorem next_of_repeats (h : active.repeats item = true) : active.next item = active := by
  cases item with
  | formatting f =>
    cases f <;> unfold Active.repeats at h <;> dsimp only at h <;> unfold Active.next <;>
      dsimp only <;> rw [← of_decide_eq_true h]
  | minecraftColor c => rw [Active.next, ← of_decide_eq_true h]
  | webColor c => rw [Active.next, ← of_decide_eq_true h]
  | _ => rfl

theorem any_isStr_of_visible (h : rest.any isVisible = true) : rest.any (·.isStr) = true := by
  rw [List.any_eq_true] at h ⊢
  rcases h with ⟨item, hmem, hitem⟩
  refine ⟨item, hmem, ?_⟩
  cases item with
  | str s => rfl
  | _ => simp [isVisible] at hitem

theorem isWord_of_isVisible (h : isVisible item = true) : isWord item = true := by
  cases item with
  | str s =>
    rw [isVisible, List.any_eq_true] at h
    rcases h with ⟨c, hmem, hc⟩
    have hall : s.all isSpaceChar = false := by
      rw [List.all_eq_false]
      exact ⟨c, hmem, by simpa using hc⟩
    rw [isWord, isspace, hall]
    simp
  | _ => simp [isVisible] at h

end Code

section Round

variable {scan : Scan} {item : ParsedMotdComponent} {rest parsed : List ParsedMotdComponent}

theorem overridden_of_head {next_item : ParsedMotdComponent} (hitem : item.isColor = true)
    (h : rest.head? = some next_item) (hnext : next_item.isColor = true)
    : overridden item rest = true := by
  cases rest with
  | nil => simp at h
  | cons first rest =>
    rw [List.head?_cons, Option.some.injEq] at h
    simp [overridden, colorBeforeStr, hitem, h, hnext]

theorem next_of_isUnused (h : isUnused scan.active item rest = true)
    (hvisible : rest.any isVisible = true)
    (hsound : overridden item rest = false → Sound scan item rest)
    : (scan.next item rest).cleaned = scan.cleaned := by
  cases hover : overridden item rest with
  | true => simp [Scan.next, Scan.cleaned, hover]
  | false =>
    have hsound := hsound hover
    have hstr := any_isStr_of_visible hvisible
    have hcases : scan.active.repeats item = true ∨ rest.head? = some item := by
      simpa [isUnused, hover, hstr, isCode_of_isUnused h] using h
    have hkept : scan.kept.apply item = scan.kept := by
      apply hsound.repeated
      rcases hcases with hrepeats | hhead
      . exact Or.inl hrepeats
      . by_cases hreset : item = .formatting .reset
        . exact Or.inr (Or.inr ⟨hreset, hhead⟩)
        . exfalso
          rcases isCode_cases (isCode_of_isUnused h) with hcolor | hformatting
          . simp [overridden_of_head hcolor hhead hcolor] at hover
          . exact hsound.doubled hformatting hreset hhead
    simp [Scan.next, Scan.cleaned, hover, hcases, hkept]

theorem visible_cons (style : Style) (item : ParsedMotdComponent)
    (rest : List ParsedMotdComponent)
    : visible style (item :: rest)
        = ((display.shows item).filter (!isSpaceChar ·)).map (fun x => (x, style))
          ++ visible (style.apply item) rest := by
  rw [visible, Display.render_cons, List.filter_append, List.filter_map]
  rfl

theorem filter_shows (h : isVisible item = false)
    : (display.shows item).filter (!isSpaceChar ·) = [] := by
  cases item with
  | str s =>
    rw [isVisible, List.any_eq_false] at h
    rw [List.filter_eq_nil_iff]
    exact h
  | _ => rfl

theorem visible_of_not_visible (h : parsed.any isVisible = false) (style : Style)
    : visible style parsed = [] := by
  induction parsed generalizing style with
  | nil => rfl
  | cons item rest ih =>
    rw [List.any_cons, Bool.or_eq_false_iff] at h
    rw [visible_cons, filter_shows h.1, ih h.2]
    rfl

theorem any_isVisible_clean (active : Active) (parsed : List ParsedMotdComponent)
    : (clean active parsed).any isVisible = parsed.any isVisible := by
  induction parsed generalizing active with
  | nil => rfl
  | cons item rest ih =>
    unfold clean
    split
    . next h => rw [ih, List.any_cons, isVisible_of_isCode (isCode_of_isUnused h), Bool.false_or]
    . next h => rw [List.any_cons, List.any_cons, ih]

theorem colorBeforeStr_clean {active : Active} (h : colorBeforeStr (clean active parsed) = true)
    : colorBeforeStr parsed = true := by
  induction parsed generalizing active with
  | nil => exact h
  | cons item rest ih =>
    unfold clean at h
    unfold colorBeforeStr
    split at h
    . next hunused => simp [isStr_of_isCode (isCode_of_isUnused hunused), ih h]
    . next hunused =>
      rw [colorBeforeStr, Bool.or_eq_true, Bool.and_eq_true] at h
      rcases h with h | ⟨hstr, h⟩
      . rw [h, Bool.true_or]
      . rw [hstr, ih h, Bool.and_true, Bool.or_true]

theorem colorBeforeWord_clean {active : Active} (h : colorBeforeWord (clean active parsed) = true)
    : colorBeforeWord parsed = true := by
  induction parsed generalizing active with
  | nil => exact h
  | cons item rest ih =>
    unfold clean at h
    unfold colorBeforeWord
    split at h
    . next hunused => simp [isWord_of_isCode (isCode_of_isUnused hunused), ih h]
    . next hunused =>
      rw [colorBeforeWord, Bool.or_eq_true, Bool.and_eq_true] at h
      rcases h with h | ⟨hword, h⟩
      . rw [h, Bool.true_or]
      . rw [hword, ih h, Bool.and_true, Bool.or_true]

theorem colorBeforeWord_of_colorBeforeStr (h : colorBeforeStr parsed = true)
    : colorBeforeWord parsed = true := by
  induction parsed with
  | nil => exact h
  | cons item rest ih =>
    rw [colorBeforeStr, Bool.or_eq_true, Bool.and_eq_true] at h
    rw [colorBeforeWord, Bool.or_eq_true, Bool.and_eq_true]
    rcases h with h | ⟨hstr, h⟩
    . exact Or.inl h
    . refine Or.inr ⟨?_, ih h⟩
      cases item <;> first | rfl | simp [ParsedMotdComponent.isStr] at hstr

theorem overridden_clean {active : Active} (h : overridden item rest = false)
    : overridden item (clean active rest) = false := by
  rw [← Bool.not_eq_true] at h ⊢
  intro hclean
  apply h
  rw [overridden, Bool.or_eq_true, Bool.and_eq_true, Bool.and_eq_true] at hclean ⊢
  rcases hclean with ⟨hitem, hclean⟩ | ⟨hitem, hclean⟩
  . exact Or.inl ⟨hitem, colorBeforeStr_clean hclean⟩
  . exact Or.inr ⟨hitem, colorBeforeWord_clean hclean⟩

theorem next_of_not_isUnused (h : isUnused scan.active item rest = false)
    : (scan.next item rest).cleaned = {
        style := scan.kept.apply item
        kept := scan.kept.apply item
        active := scan.keptActive.next item
        keptActive := scan.keptActive.next item
      } := by
  simp only [isUnused, Bool.or_eq_false_iff, Bool.and_eq_false_iff] at h
  rcases h with ⟨⟨hover, hrepeats⟩, hhead⟩
  cases hcode : item.isCode with
  | true =>
    have hhead : rest.head? ≠ some item := by
      rcases hhead with hhead | ⟨hhead, _⟩
      . simp [hcode] at hhead
      . exact of_decide_eq_false hhead
    simp [Scan.next, Scan.cleaned, hover, hrepeats, hhead]
  | false => simp [Scan.next, Scan.cleaned, hover, next_of_not_isCode hcode]

theorem head_clean_not_isColor {active : Active} (h : colorBeforeStr rest = false)
    {next_item : ParsedMotdComponent} (hnext : (clean active rest).head? = some next_item)
    : next_item.isColor = false := by
  induction rest generalizing active with
  | nil => simp [clean] at hnext
  | cons first rest ih =>
    rw [colorBeforeStr, Bool.or_eq_false_iff, Bool.and_eq_false_iff] at h
    unfold clean at hnext
    split at hnext
    . next hunused =>
      have hstr := isStr_of_isCode (isCode_of_isUnused hunused)
      apply ih _ hnext
      simpa [hstr] using h.2
    . rw [List.head?_cons, Option.some.injEq] at hnext
      rw [← hnext]
      exact h.1

theorem next_formatting {f : Formatting} (hf : f ≠ .reset) (active : Active)
    : active.next (.formatting f) = { active with formatting := some f } := by
  cases f <;> first | rfl | exact absurd rfl hf

theorem repeats_formatting {f : Formatting} (hf : f ≠ .reset) (active : Active)
    : active.repeats (.formatting f) = decide (active.formatting = some f) := by
  cases f <;> first | rfl | exact absurd rfl hf

theorem apply_formatting {f : Formatting} (hf : f ≠ .reset) (style : Style)
    : style.apply (.formatting f)
        = { style with formattings := insert f style.formattings } := by
  cases f <;> first | rfl | exact absurd rfl hf

theorem formatting_of_isFormatting (h : item.isFormatting = true) : ∃ f, item = .formatting f := by
  cases item with
  | formatting f => exact ⟨f, rfl⟩
  | _ => simp [ParsedMotdComponent.isFormatting] at h

theorem not_repeats_next {f g : Formatting} (h : g ≠ f) (active : Active)
    : (active.next (.formatting f)).repeats (.formatting g) = false := by
  by_cases hf : f = .reset
  . subst hf
    rw [repeats_formatting h]
    rfl
  . rw [next_formatting hf]
    by_cases hg : g = .reset
    . simp [hg, Active.repeats, Active.nothing]
    . rw [repeats_formatting hg]
      simpa using Ne.symm h

theorem not_isUnused_of_formatting {f g : Formatting} (hne : g ≠ f)
    (hover : overridden (.formatting f) (.formatting g :: rest) = false)
    (hvisible : rest.any isVisible = true)
    (hsound : AllSound (scan.next (.formatting f) (.formatting g :: rest)) (.formatting g :: rest))
    : isUnused (scan.active.next (.formatting f)) (.formatting g) rest = false := by
  have hcolor : colorBeforeWord rest = false := by
    simpa [overridden, colorBeforeWord, ParsedMotdComponent.isColor, isWord,
      ParsedMotdComponent.isFormatting] using hover
  have hover' : overridden (.formatting g) rest = false := by
    simp [overridden, hcolor, ParsedMotdComponent.isColor]
  have hsound := hsound.1 hvisible hover'
  have hhead : rest.head? ≠ some (.formatting g) := by
    intro hhead
    by_cases hg : g = .reset
    . -- the style is not plain behind the first formatting
      subst hg
      have hkept : (scan.next (.formatting f) (.formatting .reset :: rest)).kept
          = { scan.kept with formattings := insert f scan.kept.formattings } := by
        rw [← apply_formatting (Ne.symm hne)]
        simp [Scan.next, hover]
      have happly := hsound.repeated (Or.inr (Or.inr ⟨rfl, hhead⟩))
      rw [hkept] at happly
      have hempty : ∅ = insert f scan.kept.formattings := congrArg Style.formattings happly
      exact Finset.insert_ne_empty _ _ hempty.symm
    . exact hsound.doubled rfl (by simpa using hg) hhead
  simp [isUnused, hover', not_repeats_next hne, hhead, any_isStr_of_visible hvisible]

theorem head_clean_ne (hunused : isUnused scan.active item rest = false)
    (hcode : item.isCode = true) (hvisible : rest.any isVisible = true)
    (hsound : AllSound (scan.next item rest) rest)
    : (clean (scan.active.next item) rest).head? ≠ some item := by
  intro hhead
  simp only [isUnused, Bool.or_eq_false_iff, hcode, Bool.true_and] at hunused
  rcases hunused with ⟨⟨hover, _⟩, hfirst, _⟩
  rcases isCode_cases hcode with hcolor | hformatting
  . have hstr : colorBeforeStr rest = false := by
      rw [overridden, hcolor, Bool.true_and, Bool.or_eq_false_iff] at hover
      exact hover.1
    have := head_clean_not_isColor hstr hhead
    simp [hcolor] at this
  . rcases formatting_of_isFormatting hformatting with ⟨f, rfl⟩
    cases rest with
    | nil => simp at hvisible
    | cons first rest =>
      have hne : first ≠ .formatting f := by simpa using hfirst
      have hkept : isUnused (scan.active.next (.formatting f)) first rest = false := by
        rw [← Bool.not_eq_true]
        intro hunused
        have hfcode := isCode_of_isUnused hunused
        rw [List.any_cons, isVisible_of_isCode hfcode, Bool.false_or] at hvisible
        rcases isCode_cases hfcode with hcolor | hformatting'
        . simp [overridden, colorBeforeWord, hcolor, ParsedMotdComponent.isFormatting] at hover
        . rcases formatting_of_isFormatting hformatting' with ⟨g, rfl⟩
          have := not_isUnused_of_formatting (by simpa using hne) hover hvisible hsound
          simp [this] at hunused
      rw [clean, if_neg (by simp [hkept]), List.head?_cons, Option.some.injEq] at hhead
      exact hne hhead

theorem allSound_of_not_visible (h : parsed.any isVisible = false) : AllSound scan parsed := by
  induction parsed generalizing scan with
  | nil => trivial
  | cons item rest ih =>
    rw [List.any_cons, Bool.or_eq_false_iff] at h
    refine ⟨?_, ih h.2⟩
    intro hvisible
    simp [h.2] at hvisible

theorem sound_cleaned (hunused : isUnused scan.active item rest = false)
    (hvisible : rest.any isVisible = true) (hsound : Sound scan item rest)
    (hrest : AllSound (scan.next item rest) rest)
    : Sound scan.cleaned item (clean (scan.active.next item) rest)
        ∧ scan.cleaned.next item (clean (scan.active.next item) rest)
          = (scan.next item rest).cleaned := by
  have hover : overridden item rest = false := by
    simp only [isUnused, Bool.or_eq_false_iff] at hunused
    exact hunused.1.1
  have hhead : item.isCode = true → (clean (scan.active.next item) rest).head? ≠ some item :=
    fun hcode => head_clean_ne hunused hcode hvisible hrest
  constructor
  . refine { repeated := ?_, doubled := ?_, color := ?_ }
    . rintro (hrepeats | hrepeats | ⟨rfl, hreset⟩)
      . exact hsound.repeated (Or.inr (Or.inl hrepeats))
      . exact hsound.repeated (Or.inr (Or.inl hrepeats))
      . exact absurd hreset (hhead rfl)
    . intro hformatting _
      apply hhead
      cases item <;> first | rfl | simp [ParsedMotdComponent.isFormatting] at hformatting
    . intro _ _
      rfl
  . rw [next_of_not_isUnused hunused, Scan.next]
    simp only [Scan.cleaned, overridden_clean hover, Bool.false_eq_true, if_false, false_or]
    congr 1
    split
    . next h =>
      rcases h with hrepeats | h
      . rw [next_of_repeats hrepeats]
      . cases hcode : item.isCode with
        | true => exact absurd h (hhead hcode)
        | false => rw [next_of_not_isCode hcode]
    . rfl

theorem allSound_cleaned (h : AllSound scan parsed)
    : AllSound scan.cleaned (clean scan.active parsed) := by
  induction parsed generalizing scan with
  | nil => trivial
  | cons item rest ih =>
    have hrest := ih h.2
    cases hvisible : rest.any isVisible with
    | false =>
      have hclean := any_isVisible_clean (scan.active.next item) rest
      rw [hvisible] at hclean
      unfold clean
      split
      . exact allSound_of_not_visible hclean
      . refine ⟨?_, allSound_of_not_visible hclean⟩
        intro hvisible'
        simp [hclean] at hvisible'
    | true =>
      unfold clean
      split
      . next hunused =>
        rw [next_of_isUnused hunused hvisible (h.1 hvisible)] at hrest
        exact hrest
      . next hunused =>
        rw [Bool.not_eq_true] at hunused
        have hover : overridden item rest = false := by
          simp only [isUnused, Bool.or_eq_false_iff] at hunused
          exact hunused.1.1
        rcases sound_cleaned hunused hvisible (h.1 hvisible hover) h.2 with ⟨hsound, hnext⟩
        refine ⟨fun _ _ => hsound, ?_⟩
        rw [hnext]
        exact hrest

theorem kept_eq_style (hzone : colorBeforeWord (item :: rest) = false → scan.kept = scan.style)
    (hsound : overridden item rest = false → Sound scan item rest)
    (h : colorBeforeWord rest = false)
    : (scan.next item rest).kept = (scan.next item rest).style := by
  have hstr : colorBeforeStr rest = false := by
    rw [← Bool.not_eq_true] at h ⊢
    exact fun hstr => h (colorBeforeWord_of_colorBeforeStr hstr)
  have hover : overridden item rest = false := by
    rw [overridden, hstr, h, Bool.and_false, Bool.and_false, Bool.or_false]
  have hnext : (scan.next item rest).kept = scan.kept.apply item := by
    simp [Scan.next, hover]
  rw [hnext]
  cases hcolor : item.isColor with
  | true => exact (hsound hover).color hcolor h
  | false =>
    rw [hzone (by rw [colorBeforeWord, hcolor, h, Bool.and_false, Bool.or_false])]
    rfl

theorem visible_clean (hzone : colorBeforeWord parsed = false → scan.kept = scan.style)
    (h : AllSound scan parsed)
    : visible scan.kept (clean scan.active parsed) = visible scan.style parsed := by
  -- `kept` is the style of the cleaned list, and catches up with `style` before every word
  induction parsed generalizing scan with
  | nil => rfl
  | cons item rest ih =>
    have hshown : ((display.shows item).filter (!isSpaceChar ·)).map (fun x => (x, scan.kept))
        = ((display.shows item).filter (!isSpaceChar ·)).map (fun x => (x, scan.style)) := by
      cases hitem : isVisible item with
      | true =>
        -- nothing behind a visible string overrides what is before it
        have hword := isWord_of_isVisible hitem
        have hcolor : item.isColor = false := by
          cases item <;> first | rfl | simp [isVisible] at hitem
        rw [hzone (by simp [colorBeforeWord, hword, hcolor])]
      | false => simp [filter_shows hitem]
    cases hvisible : rest.any isVisible with
    | false =>
      have hclean := any_isVisible_clean (scan.active.next item) rest
      rw [hvisible] at hclean
      rw [visible_cons, visible_of_not_visible hvisible, List.append_nil, ← hshown]
      unfold clean
      split
      . next hunused =>
        rw [visible_of_not_visible hclean, shows_of_isCode (isCode_of_isUnused hunused)]
        rfl
      . rw [visible_cons, visible_of_not_visible hclean, List.append_nil]
    | true =>
      have hrest := ih (kept_eq_style hzone (h.1 hvisible)) h.2
      rw [visible_cons, ← hshown]
      unfold clean
      split
      . next hunused =>
        have hnext := congrArg Scan.kept (next_of_isUnused hunused hvisible (h.1 hvisible))
        have hkept : (scan.next item rest).kept = scan.kept := hnext
        rw [hkept] at hrest
        rw [shows_of_isCode (isCode_of_isUnused hunused)]
        exact hrest
      . next hunused =>
        rw [Bool.not_eq_true] at hunused
        have hnext := congrArg Scan.kept (next_of_not_isUnused hunused)
        have hkept : (scan.next item rest).kept = scan.kept.apply item := hnext
        rw [hkept] at hrest
        rw [visible_cons]
        exact congrArg _ hrest

end Round

section Loop

variable {parsed : List ParsedMotdComponent}

theorem visible_removeUnused (h : AllSound .start parsed)
    : visible .plain (removeUnused parsed) = visible .plain parsed
        ∧ AllSound .start (removeUnused parsed) := by
  rw [removeUnused_eq_clean]
  exact ⟨@visible_clean .start parsed (fun _ => rfl) h, @allSound_cleaned .start parsed h⟩

theorem visible_removeUntilStable (h : AllSound .start parsed)
    : visible .plain (removeUntilStable parsed) = visible .plain parsed := by
  fun_induction removeUntilStable parsed with
  | case1 parsed _ => rfl
  | case2 parsed _ _ ih =>
    rcases visible_removeUnused h with ⟨hvisible, hsound⟩
    rw [ih hsound, hvisible]

def Displays (setIter : SetIter) (parsed : List ParsedMotdComponent) : Prop :=
  ∃ simplified, simplify setIter parsed = .ok simplified
    ∧ visible .plain simplified = visible .plain parsed

/--
`simplify` keeps what is displayed, when no pass is wrong about a code and Python goes through the
indices of what is to be squashed in ascending order.
-/
theorem simplify_displays {setIter : SetIter}
    (hascending : setIter.Ascending (fillers (removeUntilStable parsed)))
    (h : AllSound .start parsed) : Displays setIter parsed := by
  rcases squashNearbyStrings_render hascending with ⟨simplified, hsquash, hrender⟩
  refine ⟨simplified, hsquash, ?_⟩
  rw [visible, hrender]
  exact visible_removeUntilStable h

instance (scan : Scan) (item : ParsedMotdComponent) (rest : List ParsedMotdComponent)
    : Decidable (Sound scan item rest) :=
  decidable_of_iff
    ((scan.active.repeats item = true ∨ scan.keptActive.repeats item = true
        ∨ (item = .formatting .reset ∧ rest.head? = some item) → scan.kept.apply item = scan.kept)
      ∧ (item.isFormatting = true → item ≠ .formatting .reset → rest.head? ≠ some item)
      ∧ (item.isColor = true → colorBeforeWord rest = false →
        scan.kept.apply item = scan.style.apply item))
    ⟨fun h => ⟨h.1, h.2.1, h.2.2⟩, fun h => ⟨h.repeated, h.doubled, h.color⟩⟩

instance decidableAllSound (scan : Scan) (parsed : List ParsedMotdComponent)
    : Decidable (AllSound scan parsed) :=
  match parsed with
  | [] => .isTrue trivial
  | item :: rest =>
    have := decidableAllSound (scan.next item rest) rest
    inferInstanceAs (Decidable (_ ∧ _))

def SetIter.sorted : SetIter where
  iterate s := s.sort
  nodup s := s.sort_nodup (· ≤ ·)
  mem_iff s _ := s.mem_sort (· ≤ ·)

theorem ascending_sorted (s : Finset Nat) : SetIter.sorted.Ascending s :=
  s.sortedLT_sort.pairwise

def greens : List ParsedMotdComponent :=
  [
    .minecraftColor .green, .str "1".toList, .minecraftColor .green, .str "2".toList,
    .formatting .bold, .minecraftColor .green, .str "3".toList
  ]

theorem simplify_displays_greens : Displays SetIter.sorted greens :=
  simplify_displays (ascending_sorted _) (by decide)

def doubleRed : List ParsedMotdComponent :=
  [.minecraftColor .red, .minecraftColor .red, .str "x".toList]

theorem removeUntilStable_doubleRed : removeUntilStable doubleRed = [.str "x".toList] := by
  have hround : removeUnused doubleRed = [.str "x".toList] := by decide
  have hne : removeUnused doubleRed ≠ doubleRed := by decide
  have hstable : removeUnused [.str "x".toList] = [.str "x".toList] := by decide
  rw [removeUntilStable_of_ne hne, hround, removeUntilStable_of_eq hstable]

/-- The first of the two colors is removed for the second, and the second for the first. -/
theorem simplify_doubleRed
    : (∀ setIter, simplify setIter doubleRed = .ok [.str "x".toList])
        ∧ ∀ setIter, ¬ ∀ parsed, Displays setIter parsed := by
  have hsimplify : ∀ setIter, simplify setIter doubleRed = .ok [.str "x".toList] := by
    intro setIter
    have hempty : setIter.iterate ∅ = [] := by
      rw [List.eq_nil_iff_forall_not_mem]
      intro i hi
      simpa using (setIter.mem_iff _ _).mp hi
    rw [simplify, removeUntilStable_doubleRed]
    simp [squashNearbyStrings, fillValues, hempty, popFillers]
  refine ⟨hsimplify, ?_⟩
  intro setIter h
  rcases h doubleRed with ⟨simplified, hrun, hvisible⟩
  rw [hsimplify, Except.ok.injEq] at hrun
  rw [← hrun] at hvisible
  revert hvisible
  decide

end Loop

end Motd

end Python

end McStatus
