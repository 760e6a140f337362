import McStatus.Rust.Basic

/-!
This module contains the JSON values of `serde_json`, with the accessors the library uses.
-/

namespace McStatus

namespace Rust

/-- `serde_json::Number`. Which number it is plays a role for the unsigned integers only. -/
inductive Number where
  | posInt (n : UInt64)
  | negInt
  | float
  deriving DecidableEq, Repr

inductive Value where
  | null
  | bool (b : Bool)
  | number (n : Number)
  | string (s : List Char)
  | array (items : List Value)
  | object (fields : List (List Char × Value))

namespace Value

def asStr (v : Value) : Option (List Char) :=
  match v with
  | string s => some s
  | _ => none

def asBool (v : Value) : Option Bool :=
  match v with
  | bool b => some b
  | _ => none

def asU64 (v : Value) : Option UInt64 :=
  match v with
  | number (.posInt n) => some n
  | _ => none

def asArray (v : Value) : Option (List Value) :=
  match v with
  | array items => some items
  | _ => none

def get (fields : List (List Char × Value)) (key : List Char) : Option Value :=
  match fields with
  | [] => none
  | (k, v) :: fields => if k = key then some v else get fields key

theorem sizeOf_get {fields : List (List Char × Value)} {key : List Char} {v : Value}
    (h : get fields key = some v) : sizeOf v < sizeOf fields := by
  induction fields with
  | nil => simp [get] at h
  | cons field fields ih =>
    rcases field with ⟨k, w⟩
    rw [get] at h
    split at h
    . rw [Option.some.injEq] at h
      subst h
      simp only [List.cons.sizeOf_spec, Prod.mk.sizeOf_spec]
      omega
    . have := ih h
      simp only [List.cons.sizeOf_spec]
      omega

theorem sizeOf_asArray {v item : Value} {items : List Value} (h : v.asArray = some items)
    (hmem : item ∈ items) : sizeOf item < sizeOf v := by
  cases v with
  | array items' =>
    rw [asArray, Option.some.injEq] at h
    subst h
    have := List.sizeOf_lt_of_mem hmem
    simp only [array.sizeOf_spec]
    omega
  | _ => simp [asArray] at h

end Value

end Rust

end McStatus
