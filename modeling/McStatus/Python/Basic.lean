import McStatus.Library.Reader
import McStatus.Library.Text

/-!
This module contains the exceptions of the Python half of the library and its computations. What
they do to an object up to the point where they raise is kept.
-/

namespace McStatus

namespace Python

/-- The messages of the `OSError`s, with the values that are formatted into them. -/
inductive OSError where
  /-- `Requested to read a negative amount of data: {length}.` -/
  | negativeRead (length : Int)
  /-- `Requested to read more data than available. Read {bytes_read} bytes: {data}, ...` -/
  | notAvailable (bytes_read : Nat) (data : List UInt8) (length : Int)
  /-- `Received varint was outside the range of {max_bits}-bit int.` -/
  | varintRange (max_bits : Nat)
  /-- `Received varint had too many bytes for {max_bits}-bit int (...)` -/
  | varintBytes (max_bits : Nat) (byte_limit : Nat)
  /-- `Length prefix for byte arrays must be non-negative, got {length}.` -/
  | bytearrayNegative (length : Int)
  /-- `Length prefix for utf strings must be non-negative, got {length}.` -/
  | utfNegative (length : Int)
  /-- `Maximum read limit for utf strings is 131068 bytes, got {length}.` -/
  | utfBytes (length : Int)
  /-- `Maximum read limit for utf strings is 32767 characters, got {len(chars)}.` -/
  | utfChars (length : Nat)
  /-- `Not enough data to read! {len(data)} < {length}` -/
  | notEnough (available : Nat) (length : Int)
  /-- `TimeoutError`, which `socket` raises. -/
  | timedOut
  /-- `Server did not respond with any information!` -/
  | noInformation
  /-- `Received invalid ping response packet.` -/
  | invalidPing
  /-- `Received mangled ping response (expected token {expected}, got {received})` -/
  | mangledPing (expected received : Int)
  deriving DecidableEq, Repr

inductive ValueError where
  /-- `Can't convert number {number} into {bits}-bit twos complement format - out of range` -/
  | toTwosComplement (number : Int) (bits : Nat)
  /-- `Can't convert number {number} from {bits}-bit twos complement format - out of range` -/
  | fromTwosComplement (number : Int) (bits : Nat)
  /-- `Tried to write varint outside of the range of {max_bits}-bit int.` -/
  | varintRange (max_bits : Nat)
  /-- `Maximum character limit for writing strings is 32767 characters.` -/
  | utfChars
  /-- `negative shift count` -/
  | negativeShift
  /-- `Unable to parse color: {color!r}, report this!` -/
  | parseColor (color : List Char)
  /-- `Got too long/short hex color: {'#' + hex!r}` -/
  | hexLength (hex : List Char)
  /-- `Failed to parse given hex color: {'#' + hex!r}` -/
  | hexDigits (hex : List Char)
  /-- `RGB color byte out of its 8-bit range (0-255) for {color_name} ({value=})` -/
  | rgbRange (color_name : List Char) (value : Int)
  /-- `Port must be within the allowed range (0-2^16), got {port!r}` -/
  | portRange (port : Int)
  /-- `invalid literal for int() with base 10: {literal!r}` -/
  | intLiteral (literal : List Char)
  /-- `Exceeds the limit (4300 digits) for integer string conversion: value has {digits} digits` -/
  | intDigits (digits : Nat)
  deriving DecidableEq, Repr

inductive Exception where
  | osError (e : OSError)
  | valueError (e : ValueError)
  | unicodeDecodeError
  | unicodeEncodeError
  | structError
  | overflowError
  | indexError
  | keyError (message : List Char)
  | typeError
  | attributeError
  | unboundLocalError
  deriving DecidableEq, Repr

def Exception.IsOSError (e : Exception) : Prop :=
  ∃ os, e = .osError os

abbrev Py (σ : Type) := EStateM Exception σ

variable {σ α β : Type}

def ofExcept (x : Except Exception α) : Py σ α :=
  match x with
  | .ok a => pure a
  | .error e => throw e

@[simp]
theorem ofExcept_ok (a : α) : (ofExcept (.ok a) : Py σ α) = pure a := rfl

@[simp]
theorem ofExcept_error (e : Exception) : (ofExcept (.error e) : Py σ α) = throw e := rfl

def decodeUtf8 (data : List UInt8) : Except Exception (List Char) :=
  match Utf8.decode? data with
  | some chars => .ok chars
  | none => .error .unicodeDecodeError

end Python

end McStatus
