import McStatus.Python.Basic

/-!
This module contains the values `json.loads` returns.
-/

namespace McStatus

namespace Python

inductive Json where
  | none
  | bool (b : Bool)
  | number
  | str (s : List Char)
  | list (items : List Json)
  | dict (fields : List (List Char × Json))

abbrev Dict := List (List Char × Json)

namespace Dict

/-- `item.get(key)`, where `some .none` stands for a key that is there and has the value `None`. -/
def get (item : Dict) (key : List Char) : Option Json :=
  match item with
  | [] => none
  | (k, v) :: item => if k = key then some v else get item key

theorem sizeOf_get {item : Dict} {key : List Char} {v : Json} (h : get item key = some v)
    : sizeOf v < sizeOf item := by
  induction item with
  | nil => simp [get] at h
  | cons field item ih =>
    rcases field with ⟨k, w⟩
    rw [get] at h
    split at h
    . rw [Option.some.injEq] at h
      subst h
      simp only [List.cons.sizeOf_spec, Prod.mk.sizeOf_spec]
      omega
    . have := ih h
      simp only [List.cons.sizeOf_spec]
      omega

end Dict

/-- What a `for` loop goes through: the items of a list, the characters of a string, keys. -/
def Json.iter (v : Json) : Except Exception (List Json) :=
  match v with
  | list items => .ok items
  | str s => .ok (s.map fun c => str [c])
  | dict fields => .ok (fields.map fun (k, _) => str k)
  | _ => .error .typeError

theorem Json.sizeOf_iter {v : Json} {elements : List Json} {fields : Dict}
    (h : v.iter = .ok elements) (hmem : dict fields ∈ elements) : sizeOf fields < sizeOf v := by
  cases v with
  | list items =>
    rw [iter, Except.ok.injEq] at h
    subst h
    have := List.sizeOf_lt_of_mem hmem
    simp only [dict.sizeOf_spec, list.sizeOf_spec] at this ⊢
    omega
  | str s =>
    rw [iter, Except.ok.injEq] at h
    subst h
    simp at hmem
  | dict fields' =>
    rw [iter, Except.ok.injEq] at h
    subst h
    simp at hmem
  | _ => simp [iter] at h

end Python

end McStatus
