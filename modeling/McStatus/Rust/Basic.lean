import McStatus.Library.Loop
import McStatus.Library.NulText

/-!
This module contains what the Rust half of the library shares: its error type, computations that
return an error or panic, checked slicing and integer parsing.
-/

namespace McStatus

open Fallible

namespace Rust

/-- `McStatusError`, without the payloads of foreign error types. -/
inductive McStatusError where
  | io
  | json
  | protocol (msg : String)
  | dns (msg : String)
  | timeout
  | invalidResponse (msg : String)
  | noResponse
  | invalidAddress (msg : String)
  | utf8
  | parseInt
  | other (msg : String)
  deriving DecidableEq, Repr

inductive Failure where
  /-- `Err(e)` is returned. -/
  | error (e : McStatusError)
  /-- The thread panics: an index or a slice is out of range. -/
  | panic
  deriving DecidableEq, Repr

abbrev Exec (α : Type) := Except Failure α

theorem returns_iff_ne_panic {α : Type} {x : Exec α}
    : ((∃ a, x = .ok a) ∨ ∃ e, x = .error (.error e)) ↔ x ≠ .error .panic := by
  cases x with
  | ok a => simp
  | error failure => cases failure <;> simp

def index (data : List α) (i : Nat) : Exec α :=
  match data[i]? with
  | some a => pure a
  | none => throw .panic

/-- `&data[start..]` -/
def sliceFrom (data : List α) (start : Nat) : Exec (List α) :=
  if start ≤ data.length then pure (data.drop start) else throw .panic

/-- `&data[start..stop]` -/
def slice (data : List α) (start stop : Nat) : Exec (List α) :=
  if start ≤ stop ∧ stop ≤ data.length then
    pure ((data.drop start).take (stop - start))
  else
    throw .panic

theorem index_of_getElem? {data : List α} {i : Nat} {a : α} (h : data[i]? = some a)
    : index data i = .ok a := by
  rw [index, h]
  rfl

theorem exists_index_of_lt (data : List α) (i : Nat) (h : i < data.length)
    : ∃ a, index data i = .ok a :=
  ⟨_, index_of_getElem? (List.getElem?_eq_getElem h)⟩

theorem sliceFrom_of_le {data : List α} {start : Nat} (h : start ≤ data.length)
    : sliceFrom data start = .ok (data.drop start) := by
  simp [sliceFrom, h]

theorem sliceFrom_of_lt {data : List α} {start : Nat} (h : data.length < start)
    : sliceFrom data start = .error .panic := by
  have : ¬ (start ≤ data.length) := by omega
  simp [sliceFrom, this]

theorem slice_of_le {data : List α} {start stop : Nat} (h1 : start ≤ stop)
    (h2 : stop ≤ data.length)
    : slice data start stop = .ok ((data.drop start).take (stop - start)) := by
  simp [slice, h1, h2]

def decimal? (digits : List Char) : Option Nat :=
  digits.foldlM (fun n c => if c.isDigit then some (10 * n + (c.toNat - '0'.toNat)) else none) 0

/--
`str::parse` at an unsigned integer type with `size` values: digits, with a `+` allowed in front.
-/
def parseUnsigned (size : Nat) (s : List Char) : Option Nat :=
  let digits := match s with
    | '+' :: t => t
    | _ => s
  if digits.isEmpty then
    none
  else
    (decimal? digits).filter (· < size)

def parseU32 (s : List Char) : Option UInt32 :=
  (parseUnsigned UInt32.size s).map UInt32.ofNat

def parseU16 (s : List Char) : Option UInt16 :=
  (parseUnsigned UInt16.size s).map UInt16.ofNat

/-- The sign in front of a number, as whether it is negative, and what follows. -/
def splitSign (s : List Char) : Bool × List Char :=
  match s with
  | '-' :: t => (true, t)
  | '+' :: t => (false, t)
  | _ => (false, s)

/-- `str::parse` at `i32`: digits, with one sign allowed in front. -/
def parseI32 (s : List Char) : Option Int32 :=
  let (negative, digits) := splitSign s
  if digits.isEmpty then
    none
  else do
    let n ← decimal? digits
    let value : Int := if negative then -n else n
    if -2 ^ 31 ≤ value ∧ value < 2 ^ 31 then some (Int32.ofInt value) else none

def toBeBytes (n : Int32) : List UInt8 :=
  let bits := n.toUInt32
  [(bits >>> 24).toUInt8, (bits >>> 16).toUInt8, (bits >>> 8).toUInt8, bits.toUInt8]

example : parseU32 "20".toList = some 20 := by decide

example : parseI32 "-20".toList = some (-20) := by decide

end Rust

end McStatus
