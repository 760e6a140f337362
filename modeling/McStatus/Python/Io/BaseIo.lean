import McStatus.Library.BigEndian
import McStatus.Library.BinaryFloat
import McStatus.Python.Basic

/-!
This module contains the readers and writers of `mcstatus/_protocol/io/base_io.py`, over any object
that can read or write bytes.
-/

namespace McStatus

open Reader

namespace Python

def toTwosComplement (number : Int) (bits : Nat) : Except Exception Int :=
  let value_max : Int := 2 ^ (bits - 1)
  let value_min := value_max * -1
  if number ≥ value_max ∨ number < value_min then
    .error (.valueError (.toTwosComplement number bits))
  else
    .ok (if number < 0 then number + 2 ^ bits else number)

def fromTwosComplement (number : Int) (bits : Nat) : Except Exception Int :=
  let value_max : Int := 2 ^ bits - 1
  if number < 0 ∨ number > value_max then
    .error (.valueError (.fromTwosComplement number bits))
  else
    .ok (if number.toNat &&& (1 <<< (bits - 1)) ≠ 0 then number - 2 ^ bits else number)

inductive StructFormat where
  | bool
  | char
  | byte
  | ubyte
  | short
  | ushort
  | int
  | uint
  | long
  | ulong
  | float
  | double
  | halffloat
  | longlong
  | ulonglong
  deriving DecidableEq, Repr

namespace StructFormat

/-- A Python `float` is a number of double precision, here its bit pattern. -/
abbrev Value (fmt : StructFormat) : Type :=
  match fmt with
  | bool => Bool
  | char => UInt8
  | float | double | halffloat => UInt64
  | _ => Int

/-- `struct.calcsize(fmt.value)`: without a `>` in front these are the sizes of the platform. -/
def calcsize (fmt : StructFormat) : Nat :=
  match fmt with
  | bool | char | byte | ubyte => 1
  | short | ushort | halffloat => 2
  | int | uint | float => 4
  | long | ulong | longlong | ulonglong | double => 8

def standardSize (fmt : StructFormat) : Nat :=
  match fmt with
  | long | ulong => 4
  | _ => fmt.calcsize

end StructFormat

def unpackUnsigned (data : List UInt8) : Int :=
  BigEndian.decode data

def unpackSigned (data : List UInt8) : Int :=
  let n := BigEndian.decode data
  if n < 2 ^ (8 * data.length - 1) then n else n - 2 ^ (8 * data.length)

def unpackFloat (precision : BinaryFloat.Format) (payloads : Bool) (data : List UInt8) : UInt64 :=
  UInt64.ofNat (BinaryFloat.widen .double precision payloads (BigEndian.decode data))

def unpack (fmt : StructFormat) (data : List UInt8) : Except Exception fmt.Value :=
  if data.length ≠ fmt.standardSize then
    .error .structError
  else
    match fmt with
    | .bool => .ok (BigEndian.decode data ≠ 0)
    | .char => .ok (UInt8.ofNat (BigEndian.decode data))
    | .byte | .short | .int | .long | .longlong => .ok (unpackSigned data)
    | .ubyte | .ushort | .uint | .ulong | .ulonglong => .ok (unpackUnsigned data)
    | .float => .ok (unpackFloat .single true data)
    | .double => .ok (UInt64.ofNat (BigEndian.decode data))
    | .halffloat => .ok (unpackFloat .half false data)

def packUnsigned (size : Nat) (value : Int) : Except Exception (List UInt8) :=
  if 0 ≤ value ∧ value < 2 ^ (8 * size) then
    .ok (BigEndian.encode size value.toNat)
  else
    .error .structError

def packSigned (size : Nat) (value : Int) : Except Exception (List UInt8) :=
  if -(2 ^ (8 * size - 1)) ≤ value ∧ value < 2 ^ (8 * size - 1) then
    .ok (BigEndian.encode size (value % 2 ^ (8 * size)).toNat)
  else
    .error .structError

/-- The nearest number of the precision, where it is not too large. -/
def packFloat (precision : BinaryFloat.Format) (payloads : Bool) (size : Nat) (value : UInt64)
    : Except Exception (List UInt8) :=
  match BinaryFloat.narrow .double precision payloads value.toNat with
  | some bits => .ok (BigEndian.encode size bits)
  | none => .error .overflowError

def pack (fmt : StructFormat) (value : fmt.Value) : Except Exception (List UInt8) :=
  match fmt with
  | .bool => .ok [if value then 1 else 0]
  | .char => .ok [value]
  | .byte => packSigned 1 value
  | .ubyte => packUnsigned 1 value
  | .short => packSigned 2 value
  | .ushort => packUnsigned 2 value
  | .int => packSigned 4 value
  | .uint => packUnsigned 4 value
  | .long => packSigned 4 value
  | .ulong => packUnsigned 4 value
  | .longlong => packSigned 8 value
  | .ulonglong => packUnsigned 8 value
  | .float => packFloat .single true 4 value
  | .double => .ok (BigEndian.encode 8 value.toNat)
  | .halffloat => packFloat .half false 2 value

class BaseSyncWriter (σ : Type) where
  write : List UInt8 → Py σ Unit

namespace BaseSyncWriter

variable {σ : Type} [BaseSyncWriter σ]

def writeValue (fmt : StructFormat) (value : fmt.Value) : Py σ Unit := do
  write (← ofExcept (pack fmt value))

def writeVaruint (max_bits : Nat) (value : Int) : Py σ Unit := do
  let value_max : Int := 2 ^ max_bits - 1
  if value < 0 ∨ value > value_max then
    throw (.valueError (.varintRange max_bits))
  else
    go value.toNat
where
  go (remaining : Nat) : Py σ Unit :=
    -- `remaining & ~0x7F == 0`
    if remaining - (remaining &&& 0x7F) = 0 then
      writeValue .ubyte (remaining : Nat)
    else do
      writeValue .ubyte (((remaining &&& 0x7F) ||| 0x80 : Nat))
      go (remaining >>> 7)
  termination_by remaining
  decreasing_by
    rw [Nat.shiftRight_eq_div_pow]
    apply Nat.div_lt_self <;> omega

def writeVarint (value : Int) : Py σ Unit := do
  let val ← ofExcept (toTwosComplement value 32)
  writeVaruint 32 val

def writeVarlong (value : Int) : Py σ Unit := do
  let val ← ofExcept (toTwosComplement value 64)
  writeVaruint 64 val

def writeBytearray (data : List UInt8) : Py σ Unit := do
  writeVarint data.length
  write data

/-- `bytes(value, "ISO-8859-1")` -/
def encodeLatin1 (value : List Char) : Except Exception (List UInt8) :=
  if Latin1.Fits value then .ok (Latin1.encode value) else .error .unicodeEncodeError

def writeAscii (value : List Char) : Py σ Unit := do
  let data ← ofExcept (encodeLatin1 value)
  write data
  write [0]

def writeUtf (value : List Char) : Py σ Unit := do
  if value.length > 32767 then
    throw (.valueError .utfChars)
  else
    let data := Utf8.encode value
    writeVarint data.length
    write data

def writeOptional {α : Type} (value : Option α) (writer : α → Py σ Unit) : Py σ Unit :=
  match value with
  | none => writeValue .bool false
  | some value => do
    writeValue .bool true
    writer value

end BaseSyncWriter

/-- `BaseSyncReader`. Every byte read makes a source smaller, so reading on comes to an end. -/
class BaseSyncReader (σ : Type) where
  read : Int → Py σ (List UInt8)
  available : σ → Nat
  available_lt {s s' : σ} {data : List UInt8} : read 1 s = .ok data s' → available s' < available s

namespace BaseSyncReader

variable {σ : Type} [BaseSyncReader σ]

def readValue (fmt : StructFormat) : Py σ fmt.Value := do
  let length := fmt.calcsize
  let data ← read length
  ofExcept (unpack fmt data)

def readVaruint (max_bits : Nat) : Py σ Nat :=
  go byte_limit 0 0
where
  value_max : Nat := 2 ^ max_bits - 1
  -- `math.ceil(max_bits / 7)`; the quotient is a float, which is exact enough for any
  -- `1 << max_bits`
  -- that fits into memory
  byte_limit : Nat := (max_bits + 6) / 7
  go (left i result : Nat) : Py σ Nat :=
    match left with
    | 0 => throw (.osError (.varintBytes max_bits byte_limit))
    | left + 1 => do
      let byte ← readValue .ubyte
      let byte := Int.toNat byte
      let result := result ||| ((byte &&& 0x7F) <<< (7 * i))
      if result > value_max then
        throw (.osError (.varintRange max_bits))
      else if byte &&& 0x80 = 0 then
        return result
      else
        go left (i + 1) result

def readVarint : Py σ Int := do
  let unsigned_num ← readVaruint 32
  ofExcept (fromTwosComplement unsigned_num 32)

def readVarlong : Py σ Int := do
  let unsigned_num ← readVaruint 64
  ofExcept (fromTwosComplement unsigned_num 64)

def readBytearray : Py σ (List UInt8) := do
  let length ← readVarint
  if length < 0 then
    throw (.osError (.bytearrayNegative length))
  else
    read length

def readAsciiStep (result : List UInt8) : Py σ (List UInt8 ⊕ List UInt8) := do
  if result.length = 0 ∨ result.getLast? ≠ some 0 then
    let byte ← read 1
    return .inl (result ++ byte)
  else
    return .inr result

theorem readAsciiStep_lt {result result' : List UInt8} {s s' : σ}
    (h : readAsciiStep result s = .ok (.inl result') s') : available s' < available s := by
  unfold readAsciiStep at h
  split at h
  . rcases bind_eq_ok.mp h with ⟨byte, t, hread, hpure⟩
    rw [pure_apply, EStateM.Result.ok.injEq] at hpure
    exact hpure.2 ▸ available_lt hread
  . simp at h

def readAscii : Py σ (List Char) := do
  let result ← loop available readAsciiStep (fun _ _ _ _ h => readAsciiStep_lt h) []
  return Latin1.decode result.dropLast

theorem readAscii_lt {text : List Char} {s s' : σ} (h : readAscii s = .ok text s')
    : available s' < available s := by
  rcases bind_eq_ok.mp h with ⟨result, t, hloop, hpure⟩
  rw [pure_apply, EStateM.Result.ok.injEq] at hpure
  rw [← hpure.2]
  refine loop_ok (fun result t => available t < available s ∨ result = [] ∧ t = s)
    (fun _ t => available t < available s) ?_ ?_ (Or.inr ⟨rfl, rfl⟩) hloop
  . intro result t result' t' hI hstep
    unfold readAsciiStep at hstep
    split at hstep
    . rcases bind_eq_ok.mp hstep with ⟨_, _, -, hpure⟩
      simp at hpure
    . next hdone =>
      rw [pure_apply, EStateM.Result.ok.injEq] at hstep
      rcases hI with hlt | ⟨rfl, -⟩
      . exact hstep.2 ▸ hlt
      . simp at hdone
  . intro result t result' t' hI hstep
    have hlt := readAsciiStep_lt hstep
    rcases hI with hlt' | ⟨-, rfl⟩
    . exact Or.inl (by omega)
    . exact Or.inl hlt

def readUtf : Py σ (List Char) := do
  let length ← readVarint
  if length < 0 then
    throw (.osError (.utfNegative length))
  else if length > 131068 then
    throw (.osError (.utfBytes length))
  else
    let data ← read length
    let chars ← ofExcept (decodeUtf8 data)
    if chars.length > 32767 then
      throw (.osError (.utfChars chars.length))
    else
      return chars

def readOptional {α : Type} (reader : Py σ α) : Py σ (Option α) := do
  let present ← readValue .bool
  if !present then
    return none
  else
    return some (← reader)

end BaseSyncReader

end Python

end McStatus
