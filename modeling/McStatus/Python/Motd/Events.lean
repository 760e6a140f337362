import McStatus.Library.Loop
import McStatus.Python.Motd.Impl

/-!
This module contains a dict MOTD as a tree: the formattings a text should have, which come from the
nearest dicts around it, and the document order in which `_parse_as_dict` goes through the tree.
-/

namespace McStatus

open Fallible

namespace Python

namespace Motd

/-- What a dict says about `f`, if it has a boolean for it. -/
def ownFlag (f : Formatting) (item : Dict) : Option Bool :=
  match item.get f.key with
  | some (.bool b) => some b
  | _ => none

/-- The formattings of a text inside the dicts of `path`, which goes from the inside to the root. -/
def formattingsOf (path : List Dict) : Finset Formatting :=
  (Formatting.members.filter fun f =>
    f ≠ .reset ∧ path.findSome? (ownFlag f) = some true).toFinset

def ownText (item : Dict) : List Char :=
  match item.get "text".toList with
  | some (.str text) => text
  | _ => []

def ownColor (item : Dict) : List ParsedMotdComponent :=
  match addColor item [] with
  | .ok color => color
  | .error _ => []

def elementsOf (item : Dict) : List Json :=
  match extraElements item with
  | .ok elements => elements
  | .error _ => []

theorem sizeOf_elementsOf {item fields : Dict} (hmem : .dict fields ∈ elementsOf item)
    : sizeOf fields < sizeOf item := by
  unfold elementsOf at hmem
  split at hmem
  . next h => exact sizeOf_extraElements h hmem
  . simp at hmem

def FreeOfCodes (text : List Char) (bedrock : Bool) : Prop :=
  ∀ c ∈ parseAsStr text bedrock, ∃ s, c = .str s

/-- A dict MOTD whose elements are dicts and strings, with valid colors and texts without codes. -/
inductive DictMotd : Dict → Bool → Prop where
  | dict (item : Dict) (bedrock : Bool)
      (hcolor : ∃ color, addColor item [] = .ok color)
      (htext : ∃ texts, addText item bedrock [] = .ok texts)
      (hfree : FreeOfCodes (ownText item) bedrock)
      (hextra : ∃ elements, extraElements item = .ok elements)
      (hkind : ∀ element ∈ elementsOf item,
        (∃ s, element = .str s) ∨ ∃ fields, element = .dict fields)
      (hstr : ∀ s, .str s ∈ elementsOf item → FreeOfCodes s bedrock)
      (hdict : ∀ fields, .dict fields ∈ elementsOf item → DictMotd fields false)
      : DictMotd item bedrock

inductive Event where
  | dict (item : Dict) (parents : List Dict) (bedrock : Bool)
  | string (path : List Dict) (s : List Char) (bedrock : Bool)

def events (item : Dict) (bedrock : Bool) (path : List Dict) : List Event :=
  .dict item path bedrock :: (elementsOf item).attach.flatMap fun ⟨element, hmem⟩ =>
    match element, hmem with
    | .dict fields, hmem =>
      have := sizeOf_elementsOf hmem
      events fields false (item :: path)
    | .str s, _ => [.string (item :: path) s bedrock]
    | _, _ => []
termination_by sizeOf item

def expected (es : List Event) : List (Char × Finset Formatting) :=
  match es with
  | [] => []
  | .dict item parents _ :: es =>
    (ownText item).map (fun x => (x, formattingsOf (item :: parents))) ++ expected es
  | .string path s _ :: es => s.map (fun x => (x, formattingsOf path)) ++ expected es

def styled (item : Dict) (auto_add : List ParsedMotdComponent) : List ParsedMotdComponent :=
  Formatting.members.foldl (addStyle item) (auto_add ++ ownColor item)

/-- What is passed on to the elements of the first dict of the path. -/
def autoAdd (path : List Dict) : List ParsedMotdComponent :=
  match path with
  | [] => []
  | item :: path => (styled item (autoAdd path)).filter isAutoAdd

def Event.emit (e : Event) : List ParsedMotdComponent :=
  match e with
  | dict item parents bedrock =>
    styled item (autoAdd parents) ++ parseAsStr (ownText item) bedrock
      ++ (addTranslate item [] ++ [.formatting .reset])
  | string path s bedrock => autoAdd path ++ parseAsStr s bedrock

theorem addColor_map (item : Dict) (parsed : List ParsedMotdComponent)
    : addColor item parsed = (addColor item []).map (parsed ++ ·) := by
  unfold addColor
  split
  . simp [Except.map]
  . simp [Except.map]
  . next color _ => cases parseColor color <;> rfl
  . rfl

theorem addColor_eq {item : Dict} (h : ∃ color, addColor item [] = .ok color)
    (parsed : List ParsedMotdComponent)
    : addColor item parsed = .ok (parsed ++ ownColor item) := by
  rcases h with ⟨color, h⟩
  rw [addColor_map, ownColor, h]
  rfl

theorem addText_eq {item : Dict} {bedrock : Bool}
    (h : ∃ texts, addText item bedrock [] = .ok texts) (parsed : List ParsedMotdComponent)
    : addText item bedrock parsed = .ok (parsed ++ parseAsStr (ownText item) bedrock) := by
  have hnil : parseAsStr [] bedrock = [] := rfl
  rcases h with ⟨texts, h⟩
  unfold addText ownText at *
  split at h
  . next hnone => simp only [hnone, hnil, List.append_nil]
  . next hnone => simp only [hnone, hnil, List.append_nil]
  . next hsome => simp only [hsome]
  . simp at h

theorem addTranslate_eq (item : Dict) (parsed : List ParsedMotdComponent)
    : addTranslate item parsed = parsed ++ addTranslate item [] := by
  unfold addTranslate
  split <;> simp

theorem parseOwn_eq {item : Dict} {bedrock : Bool} (h : DictMotd item bedrock)
    (parents : List Dict)
    : parseOwn item bedrock (autoAdd parents) = .ok (Event.emit (.dict item parents bedrock)) := by
  cases h with
  | dict _ _ hcolor htext _ _ _ _ _ =>
    rw [parseOwn, addColor_eq hcolor]
    simp only [bind, Except.bind, addText_eq htext, pure, Except.pure]
    rw [addTranslate_eq, List.append_assoc]
    rfl

theorem isAutoAdd_addTranslate {item : Dict} {e : ParsedMotdComponent}
    (h : e ∈ addTranslate item []) : isAutoAdd e = false := by
  unfold addTranslate at h
  split at h <;> simp at h <;> subst h <;> rfl

theorem filter_emit {item : Dict} {bedrock : Bool} (h : DictMotd item bedrock)
    (parents : List Dict)
    : (Event.emit (.dict item parents bedrock)).filter isAutoAdd = autoAdd (item :: parents) := by
  cases h with
  | dict _ _ _ _ hfree _ _ _ _ =>
    have htext : (parseAsStr (ownText item) bedrock).filter isAutoAdd = [] := by
      rw [List.filter_eq_nil_iff]
      intro e he
      rcases hfree e he with ⟨s, rfl⟩
      simp [isAutoAdd]
    have htranslate : (addTranslate item []).filter isAutoAdd = [] := by
      rw [List.filter_eq_nil_iff]
      intro e he
      rw [isAutoAdd_addTranslate he]
      decide
    rw [Event.emit, List.filter_append, List.filter_append, List.filter_append, htext, htranslate,
      autoAdd]
    simp [isAutoAdd]

def parseElementOf (bedrock : Bool) (auto_add : List ParsedMotdComponent) (element : Json)
    : Except Exception (List ParsedMotdComponent) :=
  match element with
  | .dict fields => parseAsDict fields false auto_add
  | .str s => .ok (auto_add ++ parseAsStr s bedrock)
  | _ => .error .typeError

def elementEvents (bedrock : Bool) (path : List Dict) (element : Json) : List Event :=
  match element with
  | .dict fields => events fields false path
  | .str s => [.string path s bedrock]
  | _ => []

theorem events_eq (item : Dict) (bedrock : Bool) (path : List Dict)
    : events item bedrock path
        = .dict item path bedrock
          :: (elementsOf item).flatMap (elementEvents bedrock (item :: path)) := by
  rw [events]
  congr 1
  have hattach : (elementsOf item).attach.flatMap (fun x =>
        elementEvents bedrock (item :: path) x.1)
      = (elementsOf item).flatMap (elementEvents bedrock (item :: path)) := by
    simp
  rw [← hattach]
  apply congrArg fun f => (elementsOf item).attach.flatMap f
  funext x
  rcases x with ⟨element, hmem⟩
  cases element <;> rfl

theorem parseAsDict_unfold (item : Dict) (bedrock : Bool) (auto_add : List ParsedMotdComponent)
    : parseAsDict item bedrock auto_add
        =
      (do
        let parsed_motd ← parseOwn item bedrock auto_add
        let elements ← extraElements item
        let extra ← elements.mapM (parseElementOf bedrock (parsed_motd.filter isAutoAdd))
        return parsed_motd ++ extra.flatten) := by
  rw [parseAsDict]
  congr 1
  funext parsed_motd
  dsimp only
  split
  . next e he =>
    rw [he]
    rfl
  . next elements he =>
    rw [he, ok_bind]
    congr 1
    have hattach : elements.attach.mapM (fun x =>
          parseElementOf bedrock (parsed_motd.filter isAutoAdd) x.1)
        = elements.mapM (parseElementOf bedrock (parsed_motd.filter isAutoAdd)) := by
      simp
    rw [← hattach]
    apply congrArg fun f => elements.attach.mapM f
    funext x
    rcases x with ⟨element, hmem⟩
    cases element <;> rfl

theorem parseAsDict_eq {item : Dict} {bedrock : Bool} {auto_add : List ParsedMotdComponent}
    (h : ∃ elements, extraElements item = .ok elements)
    : parseAsDict item bedrock auto_add
        =
      (do
        let parsed_motd ← parseOwn item bedrock auto_add
        let extra ← (elementsOf item).mapM (parseElementOf bedrock (parsed_motd.filter isAutoAdd))
        return parsed_motd ++ extra.flatten) := by
  rcases h with ⟨elements, helements⟩
  rw [parseAsDict_unfold, elementsOf, helements]
  rfl

theorem parseAsDict_eq_emit {item : Dict} {bedrock : Bool} (h : DictMotd item bedrock)
    (path : List Dict)
    : parseAsDict item bedrock (autoAdd path)
        = .ok ((events item bedrock path).flatMap Event.emit) := by
  induction h generalizing path with
  | dict item bedrock hcolor htext hfree hextra hkind hstr hdict ih =>
    have hmotd := DictMotd.dict item bedrock hcolor htext hfree hextra hkind hstr hdict
    have helement : ∀ element ∈ elementsOf item,
        parseElementOf bedrock (autoAdd (item :: path)) element
          = .ok ((elementEvents bedrock (item :: path) element).flatMap Event.emit) := by
      intro element hmem
      rcases hkind element hmem with ⟨s, rfl⟩ | ⟨fields, rfl⟩
      . simp [parseElementOf, elementEvents, Event.emit]
      . exact ih fields hmem (item :: path)
    rw [parseAsDict_eq hextra, parseOwn_eq hmotd, ok_bind, filter_emit hmotd,
      mapM_of_forall_ok helement, ok_bind, events_eq, List.flatMap_cons, List.flatMap_assoc,
      pure_eq_ok, ← List.flatMap_def]

end Motd

end Python

end McStatus
