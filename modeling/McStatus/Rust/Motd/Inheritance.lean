import Mathlib.Data.Finset.Lattice.Lemmas
import McStatus.Rust.Motd.Events

/-!
This module shows for which chat components the parsed list displays every text in its own style.
The list is flat, so the style of a text depends on all that was pushed before.
-/

namespace McStatus

namespace Rust

/--
Nothing is left over from the objects that began before: a colored text belongs to the object that
began last, or to one of the same style, and before a text without a color there was no color and
no formatting that the text should not have.
-/
def Settled (before : List Style) (style : Style) : Prop :=
  if style.color.isSome then
    before.getLast? = some style
  else
    ∀ b ∈ before, b.color = none ∧ b.formattings ⊆ style.formattings

def AllSettled (before : List Style) (es : List Event) : Prop :=
  match es with
  | [] => True
  | .opened path :: es => AllSettled (before ++ [styleOf path]) es
  | .shown path c _ :: es =>
    (display.shows c ≠ [] → Settled before (styleOf path)) ∧ AllSettled before es

def Style.after (style e : Style) : Style :=
  if e.color.isSome then e else { style with formattings := style.formattings ∪ e.formattings }

def leftover (before : List Style) : Style :=
  before.foldl Style.after Style.plain

@[simp]
theorem leftover_concat (before : List Style) (e : Style)
    : leftover (before ++ [e]) = (leftover before).after e := by
  rw [leftover, List.foldl_append]
  rfl

theorem final_formattings {fs : List Formatting} (h : .reset ∉ fs) (s : Style)
    : display.final s (fs.map .formatting)
        = { s with formattings := s.formattings ∪ fs.toFinset } := by
  induction fs generalizing s with
  | nil => simp
  | cons f fs ih =>
    rw [List.mem_cons, not_or] at h
    rw [List.map_cons, Display.final_cons, apply_formatting (Ne.symm h.1), ih h.2,
      List.toFinset_cons, Finset.insert_union, Finset.union_insert]

theorem apply_component (color : ColorState) (s : Style)
    : display.apply s color.component = { color := some color, formattings := ∅ } := by
  cases color <;> rfl

theorem final_emit_opened (path : List Object) (s : Style)
    : display.final s (Event.emit (.opened path)) = s.after (styleOf path) := by
  have hreset : ∀ p : Formatting → Bool, Formatting.reset ∉ allFormattings.filter p := by
    intro p hmem
    rw [List.mem_filter] at hmem
    exact absurd hmem.1 (by decide)
  rw [Event.emit, Display.final_append, final_formattings (hreset _), Style.after]
  cases hcolor : (styleOf path).color with
  | none => rfl
  | some color =>
    rw [Option.map_some, Option.toList_some, Display.final_cons, Display.final_nil,
      apply_component, Option.isSome_some, if_pos rfl, Finset.empty_union, ← hcolor]
    rfl

theorem render_emit_opened (path : List Object) (s : Style)
    : display.render s (Event.emit (.opened path)) = [] := by
  apply Display.render_of_forall_silent
  intro c hc
  rw [Event.emit, List.mem_append] at hc
  rcases hc with hc | hc
  . rw [Option.mem_toList, Option.map_eq_some_iff] at hc
    rcases hc with ⟨color, -, rfl⟩
    cases color <;> rfl
  . rcases List.mem_map.mp hc with ⟨f, -, rfl⟩
    rfl

theorem leftover_nil : leftover [] = Style.plain := rfl

/-- A text inside `path` comes after its own object, and a colored one after a colored one. -/
structure Inside (before : List Style) (path : List Object) : Prop where
  mem : path = [] ∨ styleOf path ∈ before
  color : (styleOf path).color.isSome → ∃ front last, before = front ++ [last] ∧ last.color.isSome

theorem leftover_color_of_mem {before : List Style} {b : Style} (hb : b ∈ before)
    (hcolor : b.color.isSome) : (leftover before).color.isSome := by
  induction before using List.reverseRecOn with
  | nil => simp at hb
  | append_singleton before e ih =>
    rw [leftover_concat, Style.after]
    split
    . next he => exact he
    . next he =>
      rcases List.mem_append.mp hb with hmem | hmem
      . exact ih hmem
      . rw [List.mem_singleton] at hmem
        rw [hmem] at hcolor
        exact absurd hcolor he

theorem leftover_of_colorless {before : List Style} (h : ∀ b ∈ before, b.color = none)
    : (leftover before).color = none
        ∧ ∀ f, f ∈ (leftover before).formattings ↔ ∃ b ∈ before, f ∈ b.formattings := by
  induction before using List.reverseRecOn with
  | nil => exact ⟨rfl, by simp [leftover, Style.plain]⟩
  | append_singleton before e ih =>
    rcases ih fun b hb => h b (List.mem_append_left [e] hb) with ⟨hcolor, hformattings⟩
    have he : e.color = none := h e (by simp)
    have hafter : leftover (before ++ [e])
        = { leftover before with
            formattings := (leftover before).formattings ∪ e.formattings } := by
      rw [leftover_concat, Style.after, he]
      rfl
    rw [hafter]
    refine ⟨hcolor, ?_⟩
    intro f
    simp only [Finset.mem_union, hformattings, List.mem_append, List.mem_singleton]
    constructor
    . rintro (⟨b, hb, hf⟩ | hf)
      . exact ⟨b, Or.inl hb, hf⟩
      . exact ⟨e, Or.inr rfl, hf⟩
    . rintro ⟨b, hb | rfl, hf⟩
      . exact Or.inl ⟨b, hb, hf⟩
      . exact Or.inr hf

theorem leftover_eq_iff {before : List Style} {path : List Object} (h : Inside before path)
    : leftover before = styleOf path ↔ Settled before (styleOf path) := by
  unfold Settled
  split
  . next hcolor =>
    rcases h.color hcolor with ⟨front, last, rfl, hlast⟩
    rw [leftover_concat, Style.after, if_pos hlast, List.getLast?_concat, Option.some.injEq]
  . next hcolor =>
    rw [Option.isSome_iff_ne_none, not_not] at hcolor
    constructor
    . intro heq b hb
      have hnone : ∀ b ∈ before, b.color = none := by
        intro b hb
        cases hbc : b.color with
        | none => rfl
        | some c =>
          have := leftover_color_of_mem hb (by rw [hbc]; rfl)
          rw [heq, hcolor] at this
          simp at this
      refine ⟨hnone b hb, ?_⟩
      intro f hf
      rw [← heq, (leftover_of_colorless hnone).2]
      exact ⟨b, hb, hf⟩
    . intro hsettled
      rcases leftover_of_colorless fun b hb => (hsettled b hb).1 with ⟨hnone, hformattings⟩
      have hsame : (leftover before).formattings = (styleOf path).formattings := by
        ext f
        rw [hformattings]
        constructor
        . rintro ⟨b, hb, hf⟩
          exact (hsettled b hb).2 hf
        . intro hf
          rcases h.mem with rfl | hmem
          . have : (styleOf []).formattings = ∅ := by decide
            rw [this] at hf
            simp at hf
          . exact ⟨_, hmem, hf⟩
      cases hleft : leftover before
      cases hstyle : styleOf path
      simp only [hleft, hstyle] at hnone hsame hcolor
      rw [hnone, hcolor, hsame]

def Nested (before : List Style) (es : List Event) : Prop :=
  match es with
  | [] => True
  | .opened path :: es => Nested (before ++ [styleOf path]) es
  | .shown path _ _ :: es => Inside before path ∧ Nested before es

def opens (before : List Style) (es : List Event) : List Style :=
  match es with
  | [] => before
  | .opened path :: es => opens (before ++ [styleOf path]) es
  | .shown _ _ _ :: es => opens before es

theorem opens_append (before : List Style) (es es' : List Event)
    : opens before (es ++ es') = opens (opens before es) es' := by
  induction es generalizing before with
  | nil => rfl
  | cons e es ih => cases e <;> exact ih _

theorem Nested.append {before : List Style} {es es' : List Event} (h : Nested before es)
    (h' : Nested (opens before es) es') : Nested before (es ++ es') := by
  induction es generalizing before with
  | nil => exact h'
  | cons e es ih =>
    cases e with
    | opened path => exact @ih (before ++ [styleOf path]) h h'
    | shown path c hc => exact ⟨h.1, ih h.2 h'⟩

theorem nested_of_shown {before : List Style} {path : List Object} {es : List Event}
    (hin : Inside before path) (h : ∀ e ∈ es, ∃ c hc, e = .shown path c hc)
    : Nested before es ∧ opens before es = before := by
  induction es with
  | nil => exact ⟨trivial, rfl⟩
  | cons e es ih =>
    rcases h e List.mem_cons_self with ⟨c, hc, rfl⟩
    rcases ih fun x hx => h x (List.mem_cons_of_mem _ hx) with ⟨hnested, hopens⟩
    exact ⟨⟨hin, hnested⟩, hopens⟩

theorem shown_of_mem_textEvents {path : List Object} {s : List Char} {e : Event}
    (h : e ∈ textEvents path s) : ∃ c hc, e = .shown path c hc := by
  unfold textEvents at h
  split at h
  . simp at h
  . rw [List.mem_singleton] at h
    exact ⟨_, _, h⟩

theorem styleOf_color_isSome {path : List Object} (hvalid : ValidPath path)
    : (styleOf path).color.isSome ↔ (path.findSome? ownColor).isSome := by
  unfold styleOf
  cases hcolor : path.findSome? ownColor with
  | none => simp
  | some s =>
    rcases List.exists_of_findSome?_eq_some hcolor with ⟨obj, hmem, hobj⟩
    simp only [Option.bind_some, hvalid obj hmem s hobj, Option.isSome_some]

theorem inside_of_opened (before : List Style) (path : List Object)
    : Inside (before ++ [styleOf path]) path :=
  { mem := Or.inr (by simp), color := fun h => ⟨before, styleOf path, rfl, h⟩ }

theorem nested_objectEvents (before : List Style) (obj : Object) (path : List Object)
    : Nested before (objectEvents obj path)
        ∧ opens before (objectEvents obj path) = before ++ [styleOf path] := by
  apply nested_of_shown (inside_of_opened before path)
  intro e he
  rcases List.mem_append.mp he with he | he
  . rw [Option.mem_toList, Option.map_eq_some_iff] at he
    rcases he with ⟨id, -, rfl⟩
    exact ⟨_, _, rfl⟩
  . cases htext : ownText obj with
    | none => simp [htext] at he
    | some s =>
      rw [htext] at he
      exact shown_of_mem_textEvents he

theorem mem_opens {before : List Style} {b : Style} (hb : b ∈ before) (es : List Event)
    : b ∈ opens before es := by
  induction es generalizing before with
  | nil => exact hb
  | cons e es ih =>
    cases e with
    | opened path => exact ih (List.mem_append_left _ hb)
    | shown path c hc => exact ih hb

theorem nested_flatMap {items : List Value} {path : List Object}
    (h : ∀ item ∈ items, ∀ before, Inside before path →
      Nested before (events item path) ∧ Inside (opens before (events item path)) path)
    {before : List Style} (hin : Inside before path)
    : Nested before (items.flatMap fun item => events item path)
        ∧ Inside (opens before (items.flatMap fun item => events item path)) path := by
  induction items generalizing before with
  | nil => exact ⟨trivial, hin⟩
  | cons item items ih =>
    rcases h item List.mem_cons_self before hin with ⟨hnested, hin'⟩
    rcases ih (fun x hx => h x (List.mem_cons_of_mem _ hx)) hin' with ⟨hnested', hin''⟩
    rw [List.flatMap_cons, opens_append]
    exact ⟨hnested.append hnested', hin''⟩

theorem Inside.tail {before : List Style} {obj : Object} {path : List Object}
    (h : Inside before (obj :: path)) (hvalid : ValidPath (obj :: path))
    (hmem : path = [] ∨ styleOf path ∈ before) : Inside before path := by
  refine { mem := hmem, color := fun hcolor => h.color ?_ }
  have hvalid' : ValidPath path := fun o ho => hvalid o (List.mem_cons_of_mem obj ho)
  rw [styleOf_color_isSome hvalid'] at hcolor
  rw [styleOf_color_isSome hvalid, List.findSome?_cons]
  cases ownColor obj with
  | none => exact hcolor
  | some s => rfl

theorem nested_events {value : Value} (h : Component value) {before : List Style}
    {path : List Object} (hvalid : ValidPath path) (hin : Inside before path)
    : Nested before (events value path) ∧ Inside (opens before (events value path)) path := by
  induction h generalizing before path with
  | string s _ =>
    rw [events]
    rcases nested_of_shown hin fun e he => shown_of_mem_textEvents he with ⟨hnested, hopens⟩
    rw [hopens]
    exact ⟨hnested, hin⟩
  | object obj hcolor _ _ ih =>
    have hvalid' : ValidPath (obj :: path) := by
      intro o ho
      rcases List.mem_cons.mp ho with rfl | hmem
      . exact hcolor
      . exact hvalid o hmem
    rcases nested_objectEvents before obj (obj :: path) with ⟨hobject, hopens⟩
    rcases nested_flatMap (fun item hitem before' hin' => ih item hitem hvalid' hin')
      (inside_of_opened before (obj :: path)) with ⟨hnested, hin'⟩
    rw [← hopens] at hnested hin'
    rw [events_object]
    constructor
    . exact hobject.append hnested
    . rw [opens_append]
      apply hin'.tail hvalid'
      rcases hin.mem with hnil | hmem
      . exact Or.inl hnil
      . exact Or.inr (mem_opens (mem_opens hmem _) _)

theorem render_emit_iff {before : List Style} {es : List Event} (h : Nested before es)
    : display.render (leftover before) (es.flatMap Event.emit) = expected es
        ↔ AllSettled before es := by
  induction es generalizing before with
  | nil => simp [expected, AllSettled]
  | cons e es ih =>
    cases e with
    | opened path =>
      rw [List.flatMap_cons, Display.render_append, render_emit_opened, final_emit_opened,
        List.nil_append, ← leftover_concat, expected, AllSettled]
      exact ih h
    | shown path c hc =>
      -- a text leaves the style as it is
      have happly : display.apply (leftover before) c = leftover before := by
        cases c <;> first | rfl | simp [MotdComponent.isText] at hc
      rw [List.flatMap_cons, Event.emit, List.singleton_append, Display.render_cons, happly,
        expected, AllSettled, Display.append_map_iff, leftover_eq_iff h.1, ih h.2]

/--
The list that `parse_json_component` returns displays every text with the color and the formattings
of the nearest objects that set them, exactly when nothing is left over before a text.
-/
theorem parseJsonComponent_displays_iff {value : Value} (h : Component value)
    : (∃ components, parseJsonComponent value = .ok components
          ∧ display.render Style.plain components = expected (events value []))
        ↔ AllSettled [] (events value []) := by
  have hvalid : ValidPath [] := by
    intro obj hobj
    simp at hobj
  have hin : Inside [] [] := { mem := Or.inl rfl, color := fun h => by simp [styleOf] at h }
  have hparse := parseJsonComponentInner_eq h represents_nil hvalid
  rw [← render_emit_iff (nested_events h hvalid hin).1, leftover_nil]
  constructor
  . rintro ⟨components, hrun, hrender⟩
    rw [parseJsonComponent, hparse, Except.ok.injEq] at hrun
    rw [hrun]
    exact hrender
  . intro hrender
    exact ⟨_, hparse, hrender⟩

def boldText : Object :=
  [("text".toList, .string "A".toList), ("bold".toList, .bool true)]

def nextText : Object :=
  [("text".toList, .string "B".toList)]

def boldSibling : Value :=
  .object [("extra".toList, .array [.object boldText, .object nextText])]

theorem component_of_colorless {obj : Object} (hcolor : ownColor obj = none)
    (htext : (ownText obj).all (fun s => decide (FreeOfCodes s)) = true)
    (hextra : ∀ item ∈ extraItems obj, Component item) : Component (.object obj) := by
  refine Component.object obj ?_ ?_ hextra
  . intro s hs
    rw [hcolor] at hs
    simp at hs
  . intro s hs
    rw [hs] at htext
    exact of_decide_eq_true htext

theorem component_boldSibling : Component boldSibling := by
  apply component_of_colorless rfl rfl
  intro item hitem
  rcases List.mem_pair.mp hitem with rfl | rfl
  . exact component_of_colorless rfl (by decide) fun item hitem => absurd hitem List.not_mem_nil
  . exact component_of_colorless rfl (by decide) fun item hitem => absurd hitem List.not_mem_nil

theorem parseJsonComponent_displays_boldSibling
    : (∃ components, parseJsonComponent boldSibling = .ok components
          ∧ display.render Style.plain components = expected (events boldSibling []))
        ↔ AllSettled [] (events boldSibling []) :=
  parseJsonComponent_displays_iff component_boldSibling

theorem parseJsonComponent_boldSibling
    : parseJsonComponent boldSibling
          = .ok [.formatting .bold, .text "A".toList, .text "B".toList]
        ∧ ¬ ∀ value, Component value → ∃ components, parseJsonComponent value = .ok components
          ∧ display.render Style.plain components = expected (events value []) := by
  have hparse : parseJsonComponent boldSibling
      = .ok [.formatting .bold, .text "A".toList, .text "B".toList] := by
    decide +kernel
  refine ⟨hparse, fun h => ?_⟩
  rcases h boldSibling component_boldSibling with ⟨components, hrun, hrender⟩
  rw [hparse, Except.ok.injEq] at hrun
  subst hrun
  revert hrender
  decide +kernel

end Rust

end McStatus
