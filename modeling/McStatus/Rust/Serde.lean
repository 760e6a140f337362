import McStatus.Rust.Json

/-!
This module contains what `serde` derives: how a struct is read from a JSON value, and the values of
the types that its fields have. A value that cannot be read is `none`, since the texts of these
errors come from `serde`.
-/

namespace McStatus

namespace Rust

namespace Serde

def string (v : Value) : Option (List Char) :=
  match v with
  | .string s => some s
  | _ => none

def bool (v : Value) : Option Bool :=
  match v with
  | .bool b => some b
  | _ => none

def u32 (v : Value) : Option UInt32 :=
  match v with
  | .number (.posInt n) => if n.toNat < UInt32.size then some n.toUInt32 else none
  | _ => none

def value (v : Value) : Option Value :=
  some v

def option {α : Type} (read : Value → Option α) (v : Value) : Option (Option α) :=
  match v with
  | .null => some none
  | v => (read v).map some

def vec {α : Type} (read : Value → Option α) (v : Value) : Option (List α) :=
  match v with
  | .array items => items.mapM read
  | _ => none

inductive Missing (α : Type) where
  | error
  /-- An `Option` without `#[serde(default)]`: only an object may lack it. -/
  | option (a : α)
  /-- `#[serde(default)]` -/
  | default (a : α)

namespace Missing

def inObject {α : Type} (missing : Missing α) : Option α :=
  match missing with
  | error => none
  | option a | default a => some a

def inArray {α : Type} (missing : Missing α) : Option α :=
  match missing with
  | error | option _ => none
  | default a => some a

end Missing

/-- A field of a struct: an object has it under one of its names, an array at its place. -/
def field {α : Type} (raw : Value) (names : List String) (place : Nat) (missing : Missing α)
    (read : Value → Option α) : Option α :=
  match raw with
  | .object obj =>
    match names.filterMap fun name => Value.get obj name.toList with
    | [] => missing.inObject
    | [v] => read v
    -- duplicate field
    | _ => none
  | .array items =>
    match items[place]? with
    | some v => read v
    | none => missing.inArray
  | _ => none

/-- An array that a struct is read from has no more items than the struct has fields. -/
def checkLength (raw : Value) (fields : Nat) : Option Unit :=
  match raw with
  | .array items => if items.length ≤ fields then some () else none
  | _ => some ()

theorem field_of_get {α : Type} {obj : List (List Char × Value)} {name : String} {v : Value}
    (h : Value.get obj name.toList = some v) (place : Nat) (missing : Missing α)
    (read : Value → Option α) : field (.object obj) [name] place missing read = read v := by
  simp only [field, List.filterMap_cons, List.filterMap_nil, h]

theorem field_of_get_none {α : Type} {obj : List (List Char × Value)} {name : String}
    (h : Value.get obj name.toList = none) (place : Nat) (missing : Missing α)
    (read : Value → Option α)
    : field (.object obj) [name] place missing read = missing.inObject := by
  simp only [field, List.filterMap_cons, List.filterMap_nil, h]

theorem field_congr {α : Type} {obj obj' : List (List Char × Value)} {names : List String}
    (h : ∀ name ∈ names, Value.get obj name.toList = Value.get obj' name.toList) (place : Nat)
    (missing : Missing α) (read : Value → Option α)
    : field (.object obj) names place missing read
        = field (.object obj') names place missing read := by
  rw [field, field, List.filterMap_congr h]

theorem vec_map {α β : Type} {read : Value → Option α} {toValue : β → Value} {f : β → α}
    {as : List β}
    (h : ∀ a ∈ as, read (toValue a) = some (f a))
    : vec read (.array (as.map toValue)) = some (as.map f) := by
  rw [vec]
  induction as with
  | nil => rfl
  | cons a as ih =>
    rw [List.map_cons, List.mapM_cons, h a List.mem_cons_self,
      ih fun b hb => h b (List.mem_cons_of_mem a hb)]
    rfl

end Serde

end Rust

end McStatus
