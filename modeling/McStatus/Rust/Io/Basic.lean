import McStatus.Library.Reader

/-!
This module contains the part of `std::io` that `io.rs` and `buffer.rs` stand on.
-/

namespace McStatus

open Reader

namespace Rust

inductive ErrorKind where
  | unexpectedEof
  | writeZero
  | invalidData
  | invalidInput
  deriving DecidableEq, Repr

inductive IoError where
  /-- `Error::new(kind, message)` -/
  | new (kind : ErrorKind) (message : String)
  /-- `Error::new(InvalidData, e)` of a `FromUtf8Error`. -/
  | fromUtf8
  deriving DecidableEq, Repr

inductive IoFailure where
  | error (e : IoError)
  | panic
  deriving DecidableEq, Repr

/-- Computations on an object of type `σ` that return an `std::io::Result`. -/
abbrev Io (σ : Type) := EStateM IoFailure σ

def throwIo {σ α : Type} (kind : ErrorKind) (message : String) : Io σ α :=
  throw (.error (.new kind message))

def unwrap {σ α : Type} (x : Except String α) : Io σ α :=
  match x with
  | .ok a => pure a
  | .error _ => throw .panic

/-- `std::io::Read`. Every byte read makes a source smaller, so reading on comes to an end. -/
class Read (σ : Type) where
  /-- `read`: the bytes put into the front of a buffer that holds `length` bytes. -/
  read (length : Nat) : Io σ (List UInt8)
  available : σ → Nat
  available_lt {length : Nat} {s s' : σ} {data : List UInt8} :
    read length s = .ok data s' → data ≠ [] → available s' < available s

class Write (σ : Type) where
  /-- `write`: how many of the bytes were taken. -/
  write (data : List UInt8) : Io σ Nat

section Provided

variable {σ : Type}

/-- `read_exact` as `std` provides it: `read` goes on until the buffer is full. -/
def readExact [Read σ] (length : Nat) : Io σ (List UInt8) :=
  if length = 0 then
    return []
  else do
    let data ← Read.read length
    if data.length = 0 then
      throwIo .unexpectedEof "failed to fill whole buffer"
    else
      let rest ← readExact (length - data.length)
      return data ++ rest
termination_by length

def writeAll [Write σ] (data : List UInt8) : Io σ Unit :=
  if data = [] then
    return
  else do
    let taken ← Write.write data
    if taken = 0 then
      throwIo .writeZero "failed to write whole buffer"
    else
      writeAll (data.drop taken)
termination_by data.length
decreasing_by
  have := List.length_pos_iff.mpr ‹_›
  rw [List.length_drop]
  omega

end Provided

end Rust

end McStatus
