import McStatus.Rust.Basic
import McStatus.Rust.Io.Buffer

/-!
This module contains the varint readers of `protocol/java.rs`, and the part of `connection.rs` that
one of them reads from.
-/

namespace McStatus

open Reader

namespace Rust

/-- The text of an error, without the position that a `FromUtf8Error` names. -/
def IoError.display (e : IoError) : String :=
  match e with
  | .new _ message => message
  | .fromUtf8 => "invalid utf-8 sequence"

def mapErr {σ α : Type} (f : IoError → McStatusError) (x : Io σ α) : EStateM Failure σ α := fun s =>
  match x s with
  | .ok a s' => .ok a s'
  | .error (.error e) s' => .error (.error (f e)) s'
  | .error .panic s' => .error .panic s'

theorem mapErr_of_ok {σ α : Type} {f : IoError → McStatusError} {x : Io σ α} {a : α} {s s' : σ}
    (h : x s = .ok a s') : mapErr f x s = .ok a s' := by
  rw [mapErr, h]

theorem mapErr_of_error {σ α : Type} {f : IoError → McStatusError} {x : Io σ α} {e : IoError}
    {s s' : σ} (h : x s = .error (.error e) s') : mapErr f x s = .error (.error (f e)) s' := by
  rw [mapErr, h]

def ofExec {σ α : Type} (x : Exec α) : EStateM Failure σ α :=
  match x with
  | .ok a => pure a
  | .error failure => throw failure

structure TcpConnection where
  incoming : List UInt8
  /-- How a read of more than these fails: with `Timeout`, or with `Io` at the end of the stream. -/
  failure : McStatusError
  deriving DecidableEq, Repr

namespace TcpConnection

def readExact (length : Nat) : EStateM Failure TcpConnection (List UInt8) := fun c =>
  if length ≤ c.incoming.length then
    .ok (c.incoming.take length) { c with incoming := c.incoming.drop length }
  else
    .error (.error c.failure) { c with incoming := [] }

def readByte : EStateM Failure TcpConnection UInt8 := do
  let bytes ← readExact 1
  ofExec (index bytes 0)

end TcpConnection

namespace JavaClient

/-- The loop over `0..5` that the two readers share. -/
def readVarintLoop {σ : Type} (read_byte : EStateM Failure σ UInt8) : EStateM Failure σ Int32 :=
  go 5 0 0
where
  go (left i : Nat) (result : Int32) : EStateM Failure σ Int32 :=
    match left with
    | 0 => throw (.error (.protocol "Varint too long for 32-bit integer"))
    | left + 1 => do
      let byte ← read_byte
      let result := result ||| ((byte &&& 0x7F).toUInt32.toInt32 <<< Int32.ofNat (7 * i))
      if byte &&& 0x80 = 0 then
        return result
      else
        go left (i + 1) result

def readVarintFromBuffer : EStateM Failure Buffer Int32 :=
  readVarintLoop do
    let byte ← mapErr (fun e => .protocol s!"Failed to read varint byte: {e.display}")
      (Buffer.readBytes 1)
    ofExec (index byte 0)

def readVarintFromStream : EStateM Failure TcpConnection Int32 :=
  readVarintLoop TcpConnection.readByte

end JavaClient

end Rust

end McStatus
