import McStatus.Rust.Motd.Impl

/-!
This module contains chat components as trees: the style a text should have, which comes from the
nearest objects around it, and the document order in which `parse_json_component` goes through
them.
-/

namespace McStatus

open Fallible

namespace Rust

abbrev Object := List (List Char × Value)

def ownColor (obj : Object) : Option (List Char) :=
  (Value.get obj "color".toList).bind Value.asStr

def ownFlag (key : String) (obj : Object) : Option Bool :=
  (Value.get obj key.toList).bind Value.asBool

def ownText (obj : Object) : Option (List Char) :=
  (Value.get obj "text".toList).bind Value.asStr

def ownTranslate (obj : Object) : Option (List Char) :=
  (Value.get obj "translate".toList).bind Value.asStr

def colorState (color_str : List Char) : Option ColorState :=
  match parseColor color_str with
  | .ok (some (.minecraftColor c)) => some (.minecraft c)
  | .ok (some (.webColor c)) => some (.web c)
  | _ => none

/-- What the nearest object sets that sets `f`. The path is from the inside to the root. -/
def nearestFlag (path : List Object) (f : Formatting) : Option Bool :=
  match f with
  | .bold => path.findSome? (ownFlag "bold")
  | .italic => path.findSome? (ownFlag "italic")
  | .underlined => path.findSome? (ownFlag "underlined")
  | .strikethrough => path.findSome? (ownFlag "strikethrough")
  | .obfuscated => path.findSome? (ownFlag "obfuscated")
  | .reset => none

def allFormattings : List Formatting :=
  [.bold, .italic, .underlined, .strikethrough, .obfuscated]

def styleOf (path : List Object) : Style where
  color := (path.findSome? ownColor).bind colorState
  formattings := (allFormattings.filter fun f => nearestFlag path f = some true).toFinset

def FreeOfCodes (s : List Char) : Prop :=
  '§' ∉ s ∧ '&' ∉ s

instance (s : List Char) : Decidable (FreeOfCodes s) :=
  inferInstanceAs (Decidable ('§' ∉ s ∧ '&' ∉ s))

/-- A tree of objects and strings, with valid colors and texts without codes. -/
inductive Component : Value → Prop where
  | string (s : List Char) (htext : FreeOfCodes s) : Component (.string s)
  | object (obj : Object) (hcolor : ∀ s, ownColor obj = some s → (colorState s).isSome)
      (htext : ∀ s, ownText obj = some s → FreeOfCodes s)
      (hextra : ∀ item ∈ extraItems obj, Component item) : Component (.object obj)

inductive Event where
  /-- An object begins. It is the first one of the path. -/
  | opened (path : List Object)
  /-- Something is shown that has its style from the path. -/
  | shown (path : List Object) (c : MotdComponent) (hc : c.isText = true)

def textEvents (path : List Object) (s : List Char) : List Event :=
  if s.isEmpty then [] else [.shown path (.text s) rfl]

def objectEvents (obj : Object) (path : List Object) : List Event :=
  let translate := (ownTranslate obj).map fun id => Event.shown path (.translationTag id) rfl
  let text := (ownText obj).map (textEvents path)
  .opened path :: (translate.toList ++ text.getD [])

def events (value : Value) (path : List Object) : List Event :=
  match value with
  | .string s => textEvents path s
  | .object obj =>
    objectEvents obj (obj :: path)
      ++ (extraItems obj).attach.flatMap fun ⟨item, _⟩ => events item (obj :: path)
  | _ => []
termination_by sizeOf value
decreasing_by
  exact sizeOf_extraItems (by assumption)

def expected (es : List Event) : List (Char × Style) :=
  match es with
  | [] => []
  | .opened _ :: es => expected es
  | .shown path c _ :: es => (display.shows c).map (fun x => (x, styleOf path)) ++ expected es

namespace ColorState

def component (color : ColorState) : MotdComponent :=
  match color with
  | minecraft c => .minecraftColor c
  | web c => .webColor c

end ColorState

def Event.emit (e : Event) : ComponentList :=
  match e with
  | opened path =>
    ((styleOf path).color.map ColorState.component).toList
      ++ (allFormattings.filter fun f => nearestFlag path f = some true).map .formatting
  | shown _ c _ => [c]

structure Represents (path : List Object) (style : StyleState) : Prop where
  bold : style.bold = nearestFlag path .bold
  italic : style.italic = nearestFlag path .italic
  underlined : style.underlined = nearestFlag path .underlined
  strikethrough : style.strikethrough = nearestFlag path .strikethrough
  obfuscated : style.obfuscated = nearestFlag path .obfuscated
  color : style.color = path.findSome? ownColor

theorem represents_nil : Represents [] {} :=
  { bold := rfl, italic := rfl, underlined := rfl, strikethrough := rfl, obfuscated := rfl,
    color := rfl }

theorem findSome?_cons_orElse {α β : Type} (f : α → Option β) (a : α) (as : List α)
    : (a :: as).findSome? f = (f a <|> as.findSome? f) := by
  rw [List.findSome?_cons]
  cases f a <;> rfl

theorem Represents.cons {path : List Object} {style : StyleState} (h : Represents path style)
    (obj : Object) : Represents (obj :: path) (StyleState.ofObject obj style) := by
  constructor
  . rw [nearestFlag, findSome?_cons_orElse, StyleState.ofObject, h.bold]
    rfl
  . rw [nearestFlag, findSome?_cons_orElse, StyleState.ofObject, h.italic]
    rfl
  . rw [nearestFlag, findSome?_cons_orElse, StyleState.ofObject, h.underlined]
    rfl
  . rw [nearestFlag, findSome?_cons_orElse, StyleState.ofObject, h.strikethrough]
    rfl
  . rw [nearestFlag, findSome?_cons_orElse, StyleState.ofObject, h.obfuscated]
    rfl
  . rw [findSome?_cons_orElse, StyleState.ofObject, h.color]
    rfl

theorem Represents.emitFormatting {path : List Object} {style : StyleState}
    (h : Represents path style)
    : style.emitFormatting
        = (allFormattings.filter fun f => nearestFlag path f = some true).map .formatting := by
  rw [StyleState.emitFormatting, h.bold, h.italic, h.underlined, h.strikethrough, h.obfuscated]
  simp only [emitFlag, allFormattings, List.filter_cons, List.filter_nil, decide_eq_true_eq]
  repeat' split
  all_goals rfl

def ValidPath (path : List Object) : Prop :=
  ∀ obj ∈ path, ∀ s, ownColor obj = some s → (colorState s).isSome

theorem emitColor_of_valid {color_str : List Char} (h : (colorState color_str).isSome)
    : emitColor (some color_str)
        = .ok ((colorState color_str).map ColorState.component).toList := by
  unfold colorState at h ⊢
  rw [emitColor]
  split at h
  . next c heq =>
    rw [heq]
    rfl
  . next c heq =>
    rw [heq]
    rfl
  . simp at h

theorem Represents.emitColor {path : List Object} {style : StyleState} (h : Represents path style)
    (hvalid : ValidPath path)
    : Rust.emitColor style.color
        = .ok ((styleOf path).color.map ColorState.component).toList := by
  rw [h.color, styleOf]
  cases hcolor : path.findSome? ownColor with
  | none => rfl
  | some color_str =>
    rcases List.exists_of_findSome?_eq_some hcolor with ⟨obj, hmem, hobj⟩
    rw [Option.bind_some]
    exact emitColor_of_valid (hvalid obj hmem color_str hobj)

theorem flatMap_emit_textEvents {path : List Object} {s : List Char} (h : FreeOfCodes s)
    : (textEvents path s).flatMap Event.emit = emitText s := by
  have hfree : ¬ ('§' ∈ s ∨ '&' ∈ s) := by
    rw [not_or]
    exact h
  rw [textEvents, emitText, if_neg hfree]
  split <;> rfl

theorem Represents.emitObject {path : List Object} {style : StyleState} (h : Represents path style)
    (hvalid : ValidPath path) {obj : Object} (htext : ∀ s, ownText obj = some s → FreeOfCodes s)
    : Rust.emitObject obj style = .ok ((objectEvents obj path).flatMap Event.emit) := by
  rw [Rust.emitObject, h.emitColor hvalid, ok_bind, h.emitFormatting, objectEvents,
    List.flatMap_cons, List.flatMap_append]
  have htranslate : ((ownTranslate obj).map fun id =>
        Event.shown path (.translationTag id) rfl).toList.flatMap Event.emit
      = ((ownTranslate obj).map fun id => MotdComponent.translationTag id).toList := by
    cases ownTranslate obj <;> rfl
  have htexts : (((ownText obj).map (textEvents path)).getD []).flatMap Event.emit
      = ((ownText obj).map emitText).getD [] := by
    cases hs : ownText obj with
    | none => rfl
    | some s => exact flatMap_emit_textEvents (htext s hs)
  dsimp only
  rw [htranslate, htexts, ← List.append_assoc]
  rfl

theorem events_object (obj : Object) (path : List Object)
    : events (.object obj) path
        = objectEvents obj (obj :: path)
          ++ (extraItems obj).flatMap fun item => events item (obj :: path) := by
  rw [events]
  simp

theorem parseJsonComponentInner_object (obj : Object) (inherited : StyleState)
    : parseJsonComponentInner (.object obj) inherited
        =
      (do
        let own ← emitObject obj (StyleState.ofObject obj inherited)
        let extra ← (extraItems obj).mapM fun item =>
          parseJsonComponentInner item (StyleState.ofObject obj inherited)
        return own ++ extra.flatten) := by
  rw [parseJsonComponentInner]
  simp

theorem parseJsonComponentInner_eq {value : Value} (h : Component value) {path : List Object}
    {style : StyleState} (hstyle : Represents path style) (hvalid : ValidPath path)
    : parseJsonComponentInner value style = .ok ((events value path).flatMap Event.emit) := by
  induction h generalizing path style with
  | string s htext =>
    rw [parseJsonComponentInner, events, flatMap_emit_textEvents htext]
    rfl
  | object obj hcolor htext hextra ih =>
    have hstyle' := hstyle.cons obj
    have hvalid' : ValidPath (obj :: path) := by
      intro o ho
      rcases List.mem_cons.mp ho with rfl | hmem
      . exact hcolor
      . exact hvalid o hmem
    rw [parseJsonComponentInner_object, hstyle'.emitObject hvalid' htext, ok_bind,
      mapM_of_forall_ok fun item hmem => ih item hmem hstyle' hvalid', ok_bind, events_object,
      List.flatMap_append, List.flatMap_assoc, pure_eq_ok, ← List.flatMap_def]

end Rust

end McStatus
