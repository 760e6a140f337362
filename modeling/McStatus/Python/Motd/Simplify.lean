import Mathlib.Data.Finset.Lattice.Lemmas
import McStatus.Library.Removal
import McStatus.Python.Motd.Components

/-!
This module contains `Motd.simplify` of `mcstatus/motd/_motd.py` and the passes of
`mcstatus/motd/_simplifies.py`.
-/

namespace McStatus

namespace Python

def isSpaceChar (c : Char) : Bool :=
  c.toNat ∈ [0x9, 0xA, 0xB, 0xC, 0xD, 0x1C, 0x1D, 0x1E, 0x1F, 0x20, 0x85, 0xA0, 0x1680, 0x2000,
    0x2001, 0x2002, 0x2003, 0x2004, 0x2005, 0x2006, 0x2007, 0x2008, 0x2009, 0x200A, 0x2028, 0x2029,
    0x202F, 0x205F, 0x3000]

def isspace (s : List Char) : Bool :=
  !s.isEmpty && s.all isSpaceChar

/-- How Python goes through a set of indices. It comes to every member once, in some order. -/
structure SetIter where
  iterate : Finset Nat → List Nat
  nodup : ∀ s, (iterate s).Nodup
  mem_iff : ∀ s i, i ∈ iterate s ↔ i ∈ s

/-- `list.pop(index)`, where a negative index counts from the end. -/
def pop {α : Type} (l : List α) (index : Int) : Except Exception (List α) :=
  let index := if index < 0 then index + l.length else index
  if 0 ≤ index ∧ index < l.length then
    .ok (l.eraseIdx index.toNat)
  else
    .error .indexError

namespace ParsedMotdComponent

/-- `isinstance(item, (MinecraftColor, WebColor))` -/
def isColor (item : ParsedMotdComponent) : Bool :=
  match item with
  | minecraftColor _ | webColor _ => true
  | _ => false

def isFormatting (item : ParsedMotdComponent) : Bool :=
  match item with
  | formatting _ => true
  | _ => false

def isStr (item : ParsedMotdComponent) : Bool :=
  match item with
  | str _ => true
  | _ => false

/-- `isinstance(item, (MinecraftColor, WebColor, Formatting))` -/
def isCode (item : ParsedMotdComponent) : Bool :=
  match item with
  | minecraftColor _ | webColor _ | formatting _ => true
  | _ => false

end ParsedMotdComponent

namespace Motd

/-- `get_double_items` from an index on. -/
def getDoubleItems (index : Nat) (parsed : List ParsedMotdComponent) : Finset Nat :=
  match parsed with
  | item :: next_item :: parsed =>
    let to_remove := getDoubleItems (index + 1) (next_item :: parsed)
    if item.isCode ∧ item = next_item then insert index to_remove else to_remove
  | _ => ∅

/-- `get_double_colors` from an index on. -/
def getDoubleColors (prev_color : Option Nat) (index : Nat) (parsed : List ParsedMotdComponent)
    : Finset Nat :=
  match parsed with
  | [] => ∅
  | item :: parsed =>
    if item.isColor then
      let to_remove := getDoubleColors (some index) (index + 1) parsed
      match prev_color with
      | some prev_color => insert prev_color to_remove
      | none => to_remove
    else if item.isStr then
      getDoubleColors none (index + 1) parsed
    else
      getDoubleColors prev_color (index + 1) parsed

/-- `get_formatting_before_color` from an index on. -/
def getFormattingBeforeColor (collected_formattings : Finset Nat) (index : Nat)
    (parsed : List ParsedMotdComponent) : Finset Nat :=
  match parsed with
  | [] => ∅
  | item :: parsed =>
    match item with
    | .formatting _ =>
      getFormattingBeforeColor (insert index collected_formattings) (index + 1) parsed
    | .str s =>
      if isspace s then
        getFormattingBeforeColor collected_formattings (index + 1) parsed
      else
        getFormattingBeforeColor ∅ (index + 1) parsed
    | .minecraftColor _ | .webColor _ =>
      collected_formattings ∪ getFormattingBeforeColor ∅ (index + 1) parsed
    | .translationTag _ => getFormattingBeforeColor collected_formattings (index + 1) parsed

structure Active where
  color : Option ParsedMotdComponent
  formatting : Option Formatting
  deriving DecidableEq

namespace Active

def nothing : Active where
  color := none
  formatting := none

def next (active : Active) (item : ParsedMotdComponent) : Active :=
  match item with
  | .minecraftColor _ | .webColor _ => { active with color := some item }
  | .formatting .reset => nothing
  | .formatting f => { active with formatting := some f }
  | .translationTag _ | .str _ => active

def repeats (active : Active) (item : ParsedMotdComponent) : Bool :=
  match item with
  | .minecraftColor _ | .webColor _ => active.color = some item
  | .formatting .reset => active = nothing
  | .formatting f => active.formatting = some f
  | .translationTag _ | .str _ => false

end Active

/-- `get_meaningless_resets_and_colors` from an index on. -/
def getMeaninglessResetsAndColors (active : Active) (index : Nat)
    (parsed : List ParsedMotdComponent) : Finset Nat :=
  match parsed with
  | [] => ∅
  | item :: parsed =>
    let to_remove := getMeaninglessResetsAndColors (active.next item) (index + 1) parsed
    if active.repeats item then insert index to_remove else to_remove

/-- The loop of `get_end_non_text`, over `reversed(parsed)`. -/
def getEndNonText.go (length rev_index : Nat) (parsed : List ParsedMotdComponent) : Finset Nat :=
  match parsed with
  | [] => ∅
  | .str _ :: _ => ∅
  | item :: parsed =>
    let to_remove := go length (rev_index + 1) parsed
    if item.isCode then insert (length - 1 - rev_index) to_remove else to_remove

def getEndNonText (parsed : List ParsedMotdComponent) : Finset Nat :=
  getEndNonText.go parsed.length 0 parsed.reverse

def getUnusedElements (parsed : List ParsedMotdComponent) : Finset Nat :=
  getDoubleItems 0 parsed
    ∪ getDoubleColors none 0 parsed
    ∪ getFormattingBeforeColor ∅ 0 parsed
    ∪ getMeaninglessResetsAndColors .nothing 0 parsed
    ∪ getEndNonText parsed

/-- One round of the loop in `simplify`. -/
def removeUnused (parsed : List ParsedMotdComponent) : List ParsedMotdComponent :=
  leaveOut 0 parsed (getUnusedElements parsed)

def removeUntilStable (parsed : List ParsedMotdComponent) : List ParsedMotdComponent :=
  if h : removeUnused parsed = parsed then
    parsed
  else
    have := length_leaveOut_lt h
    removeUntilStable (removeUnused parsed)
termination_by parsed.length

theorem removeUntilStable_of_eq {parsed : List ParsedMotdComponent}
    (h : removeUnused parsed = parsed) : removeUntilStable parsed = parsed := by
  unfold removeUntilStable
  rw [dif_pos h]

theorem removeUntilStable_of_ne {parsed : List ParsedMotdComponent}
    (h : removeUnused parsed ≠ parsed)
    : removeUntilStable parsed = removeUntilStable (removeUnused parsed) := by
  conv => lhs; unfold removeUntilStable
  rw [dif_neg h]

/-- The loop of `squash_nearby_strings` that fills the values, with the item of an index on. -/
def fillValues (index : Nat) (item : ParsedMotdComponent) (parsed : List ParsedMotdComponent)
    : List ParsedMotdComponent × Finset Nat :=
  match parsed with
  | [] => ([item], ∅)
  | next_item :: parsed =>
    match item, next_item with
    | .str s, .str next =>
      let (filled, fillers) := fillValues (index + 1) (.str (s ++ next)) parsed
      (item :: filled, insert index fillers)
    | _, _ =>
      let (filled, fillers) := fillValues (index + 1) next_item parsed
      (item :: filled, fillers)

/-- The loop of `squash_nearby_strings` that removes the fillers. -/
def popFillers (parsed : List ParsedMotdComponent) (already_removed : Nat) (fillers : List Nat)
    : Except Exception (List ParsedMotdComponent) :=
  match fillers with
  | [] => .ok parsed
  | index_to_remove :: fillers => do
    let parsed ← pop parsed (index_to_remove - already_removed)
    popFillers parsed (already_removed + 1) fillers

def squashNearbyStrings (setIter : SetIter) (parsed : List ParsedMotdComponent)
    : Except Exception (List ParsedMotdComponent) :=
  match parsed with
  | [] => .ok []
  | item :: parsed =>
    let (filled, fillers) := fillValues 0 item parsed
    popFillers filled 0 (setIter.iterate fillers)

def simplify (setIter : SetIter) (parsed : List ParsedMotdComponent)
    : Except Exception (List ParsedMotdComponent) :=
  squashNearbyStrings setIter (removeUntilStable parsed)

end Motd

end Python

end McStatus
