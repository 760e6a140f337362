import McStatus.Rust.Motd.Events
import McStatus.Rust.Motd.Legacy
import McStatus.Rust.Motd.WebColor
import McStatus.Rust.Response.Java

/-!
This module contains how much of the text of a server description is in the MOTD of the response.
-/

namespace McStatus

open Fallible

namespace Rust

def chatComponents (v : Value) : List Value :=
  match v with
  | .object obj =>
    .object obj :: (extraItems obj).attach.flatMap fun ⟨item, _⟩ => chatComponents item
  | .array items => items.attach.flatMap fun ⟨item, _⟩ => chatComponents item
  | v => [v]
termination_by sizeOf v
decreasing_by
  . exact sizeOf_extraItems (by assumption)
  . exact Value.sizeOf_asArray rfl (by assumption)

theorem chatComponents_string (s : List Char) : chatComponents (.string s) = [.string s] := by
  rw [chatComponents]
  . exact nofun
  . exact nofun

theorem chatComponents_object (obj : Object)
    : chatComponents (.object obj) = .object obj :: (extraItems obj).flatMap chatComponents := by
  rw [chatComponents]
  simp

theorem chatComponents_array (items : List Value)
    : chatComponents (.array items) = items.flatMap chatComponents := by
  rw [chatComponents]
  simp

def Value.ownText (v : Value) : List Char :=
  match v with
  | .string s => s
  | .object obj => (Rust.ownText obj).getD []
  | _ => []

def Value.allText (v : Value) : List Char :=
  (chatComponents v).flatMap Value.ownText

/--
A string, or a chat object that has such components in its `extra`, without codes in the texts.
-/
inductive ChatComponent : Value → Prop where
  | string (s : List Char) (htext : FreeOfCodes s) : ChatComponent (.string s)
  | object (obj : Object)
      (htext : Value.get obj "text".toList = none
        ∨ ∃ s, Value.get obj "text".toList = some (.string s) ∧ FreeOfCodes s)
      (htranslate : Value.get obj "translate".toList = none)
      (hextra : Value.get obj "extra".toList = none
        ∨ ∃ items, Value.get obj "extra".toList = some (.array items))
      (hitems : ∀ item ∈ extraItems obj, ChatComponent item) : ChatComponent (.object obj)

inductive ServerDescription : Value → Prop where
  | component (v : Value) (h : ChatComponent v) : ServerDescription v
  | array (items : List Value) (h : ∀ item ∈ items, ChatComponent item)
      : ServerDescription (.array items)

/-- None of the colors in a description makes `parse_web_color` panic. -/
def ColorsRead (v : Value) : Prop :=
  ∀ obj, .object obj ∈ chatComponents v → ∀ s, ownColor obj = some s → ColorReads s

theorem ColorsRead.own {obj : Object} (h : ColorsRead (.object obj)) {s : List Char}
    (hs : ownColor obj = some s) : ColorReads s := by
  apply h obj _ s hs
  rw [chatComponents_object]
  exact List.mem_cons_self

theorem ColorsRead.item {obj : Object} (h : ColorsRead (.object obj)) {item : Value}
    (hitem : item ∈ extraItems obj) : ColorsRead item := by
  intro obj' hobj'
  apply h obj'
  rw [chatComponents_object]
  exact List.mem_cons_of_mem _ (List.mem_flatMap.mpr ⟨item, hitem, hobj'⟩)

theorem colorsRead_object {obj : Object} (hown : ∀ s, ownColor obj = some s → ColorReads s)
    (hitems : ∀ item ∈ extraItems obj, ColorsRead item) : ColorsRead (.object obj) := by
  intro obj' hobj'
  rw [chatComponents_object] at hobj'
  rcases List.mem_cons.mp hobj' with heq | hmem
  . cases heq
    exact hown
  . rcases List.mem_flatMap.mp hmem with ⟨item, hitem, hin⟩
    exact hitems item hitem obj' hin

theorem toPlain_append (l r : ComponentList) : toPlain (l ++ r) = toPlain l ++ toPlain r := by
  induction l with
  | nil => rfl
  | cons c l ih => cases c <;> simp [toPlain, ih]

theorem toPlain_emitFlag (flag : Option Bool) (f : Formatting)
    : toPlain (emitFlag flag f) = [] := by
  unfold emitFlag
  split <;> rfl

theorem toPlain_emitFormatting (style : StyleState) : toPlain style.emitFormatting = [] := by
  simp only [StyleState.emitFormatting, toPlain_append, toPlain_emitFlag, List.append_nil]

theorem toPlain_emitText {s : List Char} (h : FreeOfCodes s) : toPlain (emitText s) = s := by
  have hfree : ¬ ('§' ∈ s ∨ '&' ∈ s) := not_or.mpr h
  unfold emitText
  rw [if_neg hfree]
  split
  . next hempty => exact (List.isEmpty_iff.mp hempty).symm
  . exact List.append_nil s

theorem toPlain_parseColor {s : List Char} {color : Option MotdComponent}
    (h : parseColor s = .ok color) : toPlain color.toList = [] := by
  unfold parseColor at h
  split at h
  . cases h
    rfl
  . rcases bind_eq_ok.mp h with ⟨web, _, hreturn⟩
    cases hreturn
    cases web <;> rfl

theorem toPlain_emitColor {color : Option (List Char)} {components : ComponentList}
    (h : emitColor color = .ok components) : toPlain components = [] := by
  cases color with
  | none =>
    cases h
    rfl
  | some color_str =>
    rw [emitColor] at h
    rcases bind_eq_ok.mp h with ⟨color, hcolor, hreturn⟩
    cases hreturn
    exact toPlain_parseColor hcolor

theorem toPlain_emitObject {obj : Object} {style : StyleState} {components : ComponentList}
    (htext : ∀ s, ownText obj = some s → FreeOfCodes s)
    (htranslate : Value.get obj "translate".toList = none)
    (h : emitObject obj style = .ok components) : toPlain components = (ownText obj).getD [] := by
  rw [emitObject] at h
  rcases bind_eq_ok.mp h with ⟨color, hcolor, hreturn⟩
  dsimp only at hreturn
  rw [htranslate, pure_eq_ok, Except.ok.injEq] at hreturn
  rw [← hreturn, toPlain_append, toPlain_append, toPlain_append, toPlain_emitColor hcolor,
    toPlain_emitFormatting]
  change toPlain (((ownText obj).map emitText).getD []) = _
  cases hs : ownText obj with
  | none => rfl
  | some s => exact toPlain_emitText (htext s hs)

theorem ChatComponent.freeOfCodes {obj : Object} (h : ChatComponent (.object obj)) (s : List Char)
    (hs : ownText obj = some s) : FreeOfCodes s := by
  cases h with
  | object obj htext =>
    rw [ownText] at hs
    rcases htext with hnone | ⟨text, hget, hfree⟩
    . rw [hnone] at hs
      cases hs
    . rw [hget] at hs
      cases hs
      exact hfree

theorem allText_object (obj : Object)
    : Value.allText (.object obj)
        = (ownText obj).getD [] ++ (extraItems obj).flatMap Value.allText := by
  rw [Value.allText, chatComponents_object, List.flatMap_cons, List.flatMap_assoc]
  rfl

theorem toPlain_flatten {items : List Value} {parts : List ComponentList}
    (h : List.Forall₂ (fun item part => toPlain part = Value.allText item) items parts)
    : toPlain parts.flatten = items.flatMap Value.allText := by
  induction h with
  | nil => rfl
  | cons hitem _ ih => rw [List.flatten_cons, toPlain_append, hitem, List.flatMap_cons, ih]

theorem parseJsonComponentInner_text {value : Value} (h : ChatComponent value)
    (hcolors : ColorsRead value) {style : StyleState}
    (hstyle : ∀ s, style.color = some s → ColorReads s)
    : ∃ components, parseJsonComponentInner value style = .ok components
        ∧ toPlain components = value.allText := by
  induction h generalizing style with
  | string s hfree =>
    refine ⟨emitText s, by rw [parseJsonComponentInner]; rfl, ?_⟩
    rw [toPlain_emitText hfree, Value.allText, chatComponents_string]
    exact (List.append_nil s).symm
  | object obj htext htranslate hextra hitems ih =>
    have hobject := ChatComponent.object obj htext htranslate hextra hitems
    have hstyle' : ∀ s, (StyleState.ofObject obj style).color = some s → ColorReads s := by
      intro s hs
      change (ownColor obj <|> style.color) = some s at hs
      cases hown : ownColor obj with
      | none =>
        rw [hown] at hs
        exact hstyle s hs
      | some color =>
        rw [hown] at hs
        cases hs
        exact hcolors.own hown
    rcases emitObject_ok_iff.mpr hstyle' with ⟨own, hown⟩
    rcases exists_mapM_of_forall fun item hitem => ih item hitem (hcolors.item hitem) hstyle'
      with ⟨extra, hrun, hall⟩
    refine ⟨own ++ extra.flatten, ?_, ?_⟩
    . rw [parseJsonComponentInner_object, hown, ok_bind, hrun, ok_bind]
      rfl
    . rw [toPlain_append, toPlain_emitObject hobject.freeOfCodes htranslate hown, allText_object,
        toPlain_flatten hall]

theorem colorsRead_of_parseJsonComponentInner {value : Value} (h : ChatComponent value)
    {style : StyleState} {components : ComponentList}
    (hrun : parseJsonComponentInner value style = .ok components) : ColorsRead value := by
  induction h generalizing style components with
  | string s hfree =>
    intro obj hobj
    rw [chatComponents_string] at hobj
    cases List.mem_singleton.mp hobj
  | object obj htext htranslate hextra hitems ih =>
    rw [parseJsonComponentInner_object] at hrun
    rcases bind_eq_ok.mp hrun with ⟨own, hown, hrun⟩
    rcases bind_eq_ok.mp hrun with ⟨extra, hmap, _⟩
    apply colorsRead_object
    . intro s hs
      apply emitObject_ok_iff.mp ⟨own, hown⟩ s
      change (ownColor obj <|> style.color) = some s
      rw [hs]
      rfl
    . intro item hitem
      rcases (mem_of_mapM_eq_ok hmap).1 item hitem with ⟨part, _, hpart⟩
      exact ih item hitem hpart

theorem parseJsonComponent_array (items : List Value)
    : parseJsonComponent (.array items) = .ok [] := by
  rw [parseJsonComponent, parseJsonComponentInner]
  . rfl
  . intro s hs
    cases hs
  . intro obj hobj
    cases hobj

def KeepsText (description : Value) : Prop :=
  match description with
  | .array items => (Value.array items).allText = []
  | description => ColorsRead description

theorem plainText_of_freeOfCodes {s : List Char} (h : FreeOfCodes s) : plainText s = (s, []) := by
  induction s with
  | nil => rfl
  | cons c s ih =>
    have hc : isCodeStart c = false := by
      rw [isCodeStart, decide_eq_false_iff_not, not_or]
      exact ⟨fun heq => h.1 (by rw [heq]; exact List.mem_cons_self),
        fun heq => h.2 (by rw [heq]; exact List.mem_cons_self)⟩
    have hrest : FreeOfCodes s :=
      ⟨fun hmem => h.1 (List.mem_cons_of_mem c hmem), fun hmem => h.2 (List.mem_cons_of_mem c hmem)⟩
    have hbreaks : breaksText (c :: s) = false := by
      cases s <;> simp [breaksText, hc]
    rw [plainText_cons hbreaks, ih hrest]

theorem toPlain_parseLegacyString {s : List Char} (h : FreeOfCodes s)
    : toPlain (parseLegacyString s) = s := by
  cases s with
  | nil =>
    rw [parseLegacyString, parseLegacyString.go]
    rfl
  | cons c s =>
    have hplain := plainText_of_freeOfCodes h
    rw [plainText] at hplain
    split at hplain
    . cases hplain
    . have hc : isCodeStart c = false := by
        rw [isCodeStart, decide_eq_false_iff_not, not_or]
        exact ⟨fun heq => h.1 (by rw [heq]; exact List.mem_cons_self),
          fun heq => h.2 (by rw [heq]; exact List.mem_cons_self)⟩
      rw [Prod.mk.injEq, List.cons.injEq] at hplain
      rw [parseLegacyString, go_text (Or.inl hc), hplain.1.2, hplain.2, parseLegacyString.go]
      exact List.append_nil (c :: s)

theorem toMotd_text_iff {description : Value} {raw : RawMotd} (h : ServerDescription description)
    (hraw : RawMotd.deserialize description = some raw)
    : (∃ motd, raw.toMotd = .ok motd ∧ motd.toPlain = description.allText)
        ↔ KeepsText description := by
  cases h with
  | array items hitems =>
    cases hraw
    rw [RawMotd.toMotd, Motd.fromJson, parseJsonComponent_array, ok_bind, KeepsText]
    constructor
    . rintro ⟨motd, hmotd, htext⟩
      cases hmotd
      exact htext.symm
    . intro htext
      exact ⟨_, rfl, htext.symm⟩
  | component v hv =>
    have hempty : ∀ s, ({} : StyleState).color = some s → ColorReads s := nofun
    cases hv with
    | string s hfree =>
      cases hraw
      have hcolors : KeepsText (.string s) := by
        intro obj hobj
        rw [chatComponents_string] at hobj
        cases List.mem_singleton.mp hobj
      have htext : Value.allText (.string s) = s := by
        rw [Value.allText, chatComponents_string]
        exact List.append_nil s
      exact iff_of_true ⟨_, rfl, (toPlain_parseLegacyString hfree).trans htext.symm⟩ hcolors
    | object obj htext htranslate hextra hitems =>
      have hobject := ChatComponent.object obj htext htranslate hextra hitems
      cases hraw
      have hkeeps : KeepsText (.object obj) = ColorsRead (.object obj) := rfl
      rw [RawMotd.toMotd, Motd.fromJson, hkeeps]
      constructor
      . rintro ⟨motd, hmotd, _⟩
        rcases bind_eq_ok.mp hmotd with ⟨components, hrun, _⟩
        exact colorsRead_of_parseJsonComponentInner hobject hrun
      . intro hcolors
        rcases parseJsonComponentInner_text hobject hcolors hempty with ⟨components, hrun, hplain⟩
        rw [parseJsonComponent, hrun, ok_bind]
        exact ⟨_, rfl, hplain⟩

theorem deserialize_description {fields : Object} {description : Value} {raw : RawJavaResponse}
    (hget : Value.get fields "description".toList = some description)
    (hraw : RawJavaResponse.deserialize (.object fields) = some raw)
    : RawMotd.deserialize description = some raw.description := by
  have hfield := (RawJavaResponse.deserialize_eq_some_iff.mp hraw).2.1
  rwa [Serde.field_of_get hget] at hfield

/--
The MOTD of the response has all the text of a description of strings and objects, exactly when that
has no color that panics and is no array, or has no text at all.
-/
theorem build_text_iff {fields : Object} {description : Value} {raw : RawJavaResponse}
    (hget : Value.get fields "description".toList = some description)
    (hdescription : ServerDescription description)
    (hraw : RawJavaResponse.deserialize (.object fields) = some raw) (hversion : raw.version.isSome)
    (latency : Float)
    : (∃ response, JavaStatusResponse.build (.object fields) latency = .ok (.ok response)
          ∧ response.motd.toPlain = description.allText)
        ↔ KeepsText description := by
  rw [← toMotd_text_iff hdescription (deserialize_description hget hraw)]
  rcases Option.isSome_iff_exists.mp hversion with ⟨version, hversion⟩
  constructor
  . rintro ⟨response, hbuild, htext⟩
    rcases JavaStatusResponse.build_eq_ok_iff.mp hbuild with ⟨raw', v, motd, hraw', _, hmotd, rfl⟩
    rw [hraw, Option.some.injEq] at hraw'
    rw [hraw']
    exact ⟨motd, hmotd, htext⟩
  . rintro ⟨motd, hmotd, htext⟩
    refine ⟨.ofRaw (.object fields) latency raw version motd, ?_, htext⟩
    exact JavaStatusResponse.build_eq_ok_iff.mpr ⟨raw, version, motd, hraw, hversion, hmotd, rfl⟩

def versionField : Value :=
  .object [("name".toList, .string "1.8".toList), ("protocol".toList, .number (.posInt 47))]

def statusOf (description : Value) : Object :=
  [("description".toList, description), ("version".toList, versionField)]

def rawStatusOf (description : RawMotd) : RawJavaResponse where
  description := description
  players := none
  version := some { name := "1.8".toList, protocol := 47 }
  enforces_secure_chat := none
  favicon := none
  forge_data := none
  modinfo := none

theorem build_text_hello
    : (∃ response, JavaStatusResponse.build (.object (statusOf (.string "Hello".toList))) 0
            = .ok (.ok response)
          ∧ response.motd.toPlain = (Value.string "Hello".toList).allText)
        ↔ KeepsText (.string "Hello".toList) :=
  @build_text_iff (statusOf (.string "Hello".toList)) (.string "Hello".toList)
    (rawStatusOf (.string "Hello".toList)) rfl (.component _ (.string _ (by decide))) rfl rfl 0

theorem build_text_array
    : ¬ ∀ (fields : Object) (description : Value) (raw : RawJavaResponse) (latency : Float),
        Value.get fields "description".toList = some description → ServerDescription description →
        RawJavaResponse.deserialize (.object fields) = some raw → raw.version.isSome →
        ∃ response, JavaStatusResponse.build (.object fields) latency = .ok (.ok response)
          ∧ response.motd.toPlain = description.allText := by
  intro h
  have hshape : ServerDescription (.array [.string ['A']]) := by
    refine .array _ fun item hitem => ?_
    rw [List.mem_singleton.mp hitem]
    exact .string _ (by decide)
  rcases h (statusOf (.array [.string ['A']])) _ (rawStatusOf (.object (.array [.string ['A']]))) 0
    rfl hshape rfl rfl with ⟨response, hbuild, htext⟩
  have hraw : RawJavaResponse.deserialize (.object (statusOf (.array [.string ['A']])))
      = some (rawStatusOf (.object (.array [.string ['A']]))) := rfl
  rcases JavaStatusResponse.build_eq_ok_iff.mp hbuild with ⟨raw, v, motd, hraw', _, hmotd, rfl⟩
  rw [hraw] at hraw'
  cases hraw'
  rw [rawStatusOf, RawMotd.toMotd, Motd.fromJson, parseJsonComponent_array] at hmotd
  cases hmotd
  rw [Value.allText, chatComponents_array, List.flatMap_singleton, chatComponents_string] at htext
  cases htext

end Rust

end McStatus
