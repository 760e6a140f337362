import McStatus.Library.Html
import McStatus.Library.Display
import Mathlib.Data.Finset.Insert

/-!
This module contains how a text looks: its color and its attributes, and how they are read from the
HTML elements that are open around it.
-/

namespace McStatus

inductive Attribute where
  | bold
  | italic
  | underlined
  | blinking
  | crossedOut
  deriving DecidableEq, Repr

structure Look where
  color : Option (Int × Int × Int)
  attributes : Finset Attribute
  deriving DecidableEq

namespace Look

def plain : Look where
  color := none
  attributes := ∅

def paint (look : Look) (rgb : Int × Int × Int) : Look :=
  { look with color := some rgb }

def add (look : Look) (a : Attribute) : Look :=
  { look with attributes := insert a look.attributes }

end Look

namespace Html

def tagStep (stack : List (List Char)) (body : List Char) : List (List Char) :=
  match body with
  | '/' :: name => stack.eraseP fun opened => tagName opened = name
  | body => body :: stack

def openTags (stack bodies : List (List Char)) : List (List Char) :=
  bodies.foldl tagStep stack

@[simp]
theorem openTags_nil (stack : List (List Char)) : openTags stack [] = stack := rfl

@[simp]
theorem openTags_cons (stack : List (List Char)) (body : List Char) (bodies : List (List Char))
    : openTags stack (body :: bodies) = openTags (tagStep stack body) bodies := rfl

theorem map_tagName_eraseP (stack : List (List Char)) (name : List Char)
    : (stack.eraseP fun opened => tagName opened = name).map tagName
        = (stack.map tagName).erase name := by
  induction stack with
  | nil => rfl
  | cons body stack ih =>
    rw [List.map_cons, List.erase_cons, List.eraseP_cons]
    by_cases hname : tagName body = name
    . simp [hname]
    . simp [hname, ih]

theorem openTags_close {stack names : List (List Char)} (h : (stack.map tagName).Perm names)
    : openTags stack (names.map ('/' :: ·)) = [] := by
  induction names generalizing stack with
  | nil => exact List.map_eq_nil_iff.mp h.eq_nil
  | cons name names ih =>
    rw [List.map_cons, openTags_cons]
    apply ih
    rw [tagStep, map_tagName_eraseP]
    have := h.erase name
    rwa [List.erase_cons_head] at this

def display : Display Token (List (List Char)) Char where
  apply stack t :=
    match t with
    | .tag body => tagStep stack body
    | .text _ => stack
  shows t :=
    match t with
    | .tag _ => []
    | .text s => unescape s

theorem final_map_tag (stack bodies : List (List Char))
    : display.final stack (bodies.map .tag) = openTags stack bodies :=
  List.foldl_map

theorem render_map_tag (stack bodies : List (List Char))
    : display.render stack (bodies.map .tag) = [] := by
  apply Display.render_of_forall_silent
  intro t ht
  rcases List.mem_map.mp ht with ⟨body, _, rfl⟩
  rfl

theorem render_escape (stack : List (List Char)) (s : List Char)
    : display.render stack [.text (escape s)] = s.map (fun x => (x, stack)) := by
  have hread := unescape_escape_append s []
  rw [List.append_nil, unescape, List.append_nil] at hread
  rw [Display.render_cons, Display.render_nil, List.append_nil]
  exact congrArg (List.map fun x => (x, stack)) hread

structure Styles where
  color? : List Char → Option (Int × Int × Int)
  attribute? : List Char → Option Attribute

namespace Styles

variable (styles : Styles)

def look (stack : List (List Char)) : Look where
  color := stack.findSome? styles.color?
  attributes := (stack.filterMap styles.attribute?).toFinset

variable {styles}

theorem look_color {body : List Char} {rgb : Int × Int × Int}
    (hcolor : styles.color? body = some rgb)
    (hattribute : styles.attribute? body = none) (stack : List (List Char))
    : styles.look (body :: stack) = (styles.look stack).paint rgb := by
  unfold look Look.paint
  rw [List.findSome?_cons, hcolor, List.filterMap_cons_none hattribute]

theorem look_attribute {body : List Char} {a : Attribute} (hcolor : styles.color? body = none)
    (hattribute : styles.attribute? body = some a) (stack : List (List Char))
    : styles.look (body :: stack) = (styles.look stack).add a := by
  unfold look Look.add
  rw [List.findSome?_cons, hcolor, List.filterMap_cons_some hattribute, List.toFinset_cons]

theorem look_none {body : List Char} (hcolor : styles.color? body = none)
    (hattribute : styles.attribute? body = none) (stack : List (List Char))
    : styles.look (body :: stack) = styles.look stack := by
  unfold look
  rw [List.findSome?_cons, hcolor, List.filterMap_cons_none hattribute]

end Styles

end Html

end McStatus
