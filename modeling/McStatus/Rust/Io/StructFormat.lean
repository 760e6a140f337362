import McStatus.Library.BigEndian
import McStatus.Rust.Io.Impl

/-!
This module contains `StructFormat` and `Value` of `io.rs`, and the methods `read_value` and
`write_value`. A float is its bit pattern.
-/

namespace McStatus

open Reader

namespace Rust

inductive StructFormat where
  | bool
  | char
  | byte
  | uByte
  | short
  | uShort
  | int
  | uInt
  | long
  | uLong
  | float
  | double
  | halfFloat
  deriving DecidableEq, Repr

namespace StructFormat

def size (fmt : StructFormat) : Nat :=
  match fmt with
  | bool | byte | uByte | char => 1
  | short | uShort | halfFloat => 2
  | int | uInt | float => 4
  | long | uLong | double => 8

/-- The `Debug` format. -/
def debug (fmt : StructFormat) : String :=
  match fmt with
  | bool => "Bool"
  | char => "Char"
  | byte => "Byte"
  | uByte => "UByte"
  | short => "Short"
  | uShort => "UShort"
  | int => "Int"
  | uInt => "UInt"
  | long => "Long"
  | uLong => "ULong"
  | float => "Float"
  | double => "Double"
  | halfFloat => "HalfFloat"

inductive Value where
  | bool (v : Bool)
  | char (v : UInt8)
  | byte (v : Int8)
  | uByte (v : UInt8)
  | short (v : Int16)
  | uShort (v : UInt16)
  | int (v : Int32)
  | uInt (v : UInt32)
  | long (v : Int64)
  | uLong (v : UInt64)
  | float (bits : UInt32)
  | double (bits : UInt64)
  | halfFloat (v : UInt16)
  deriving DecidableEq, Repr

end StructFormat

theorem lt_of_and_bit_eq_zero {m : UInt32} (h : m &&& 0x400 = 0) (hlt : m.toNat < 0x800)
    : m.toNat < 0x400 := by
  have hbit : m.toNat.testBit 10 = false := by
    have hand : (m.toNat &&& 0x400).testBit 10 = false := by
      have hzero := congrArg UInt32.toNat h
      rw [UInt32.toNat_and] at hzero
      exact hzero ▸ Nat.zero_testBit 10
    have hset : Nat.testBit 0x400 10 = true := by decide
    rwa [Nat.testBit_and, hset, Bool.and_true] at hand
  apply Nat.lt_pow_two_of_testBit m.toNat (n := 10)
  intro i hi
  rcases Nat.lt_or_eq_of_le hi with hhigh | rfl
  . exact Nat.testBit_lt_two_pow
      (Nat.lt_of_lt_of_le hlt (Nat.pow_le_pow_right (by omega : 0 < 2) hhigh))
  . exact hbit

/-- The loop of `half_to_float`, for a mantissa that is not zero. -/
def halfToFloat.shift (m : UInt32) (hpos : 0 < m.toNat) (hlt : m.toNat < 0x800) : UInt32 :=
  if h : m &&& 0x400 = 0 then
    have hsmall := lt_of_and_bit_eq_zero h hlt
    have hdouble : (m <<< 1).toNat = 2 * m.toNat := by
      rw [UInt32.toNat_shiftLeft, Nat.shiftLeft_eq]
      have hone : (1 : UInt32).toNat % 32 = 1 := rfl
      rw [hone]
      omega
    shift (m <<< 1) (by omega) (by omega)
  else
    m
termination_by 0x800 - m.toNat

def halfToFloat (half : UInt16) : UInt32 :=
  let sign : UInt32 := ((half >>> 15) &&& 0x1).toUInt32
  let exponent : UInt32 := ((half >>> 10) &&& 0x1F).toUInt32
  let mantissa : UInt32 := (half &&& 0x3FF).toUInt32
  if exponent = 0 then
    if hzero : mantissa = 0 then
      sign <<< 31
    else
      let e : Int32 := -14
      let m := halfToFloat.shift mantissa
        (Nat.pos_of_ne_zero fun h => hzero (UInt32.toNat_inj.mp h))
        (by
          have hle : (half &&& 0x3FF).toNat ≤ 0x3FF := by
            rw [UInt16.toNat_and]
            exact Nat.and_le_right
          rw [UInt16.toNat_toUInt32]
          omega)
      let m : UInt32 := m &&& 0x3FF
      let exp : UInt32 := e.toUInt32 + 127
      (sign <<< 31) ||| (exp <<< 23) ||| (m <<< 13)
  else if exponent = 0x1F then
    if mantissa = 0 then
      (sign <<< 31) ||| 0x7F800000
    else
      (sign <<< 31) ||| (0x7F800000 : UInt32) ||| (mantissa <<< 13)
  else
    let exp := (exponent + 127 - 15) <<< 23
    (sign <<< 31) ||| exp ||| (mantissa <<< 13)

example : halfToFloat 0x3C00 = 0x3F800000 := by decide

namespace StructFormat

/-- What the bytes are read as: `bits` is the number that `from_be_bytes` takes them for. -/
def fromBytes (fmt : StructFormat) (buf : List UInt8) : Value :=
  let bits := BigEndian.decode buf
  match fmt with
  | .bool => .bool (buf.headD 0 ≠ 0)
  | .byte => .byte (buf.headD 0).toInt8
  | .uByte => .uByte (buf.headD 0)
  | .short => .short (UInt16.ofNat bits).toInt16
  | .uShort => .uShort (UInt16.ofNat bits)
  | .int => .int (UInt32.ofNat bits).toInt32
  | .uInt => .uInt (UInt32.ofNat bits)
  | .long => .long (UInt64.ofNat bits).toInt64
  | .uLong => .uLong (UInt64.ofNat bits)
  | .float => .float (UInt32.ofNat bits)
  | .double => .double (UInt64.ofNat bits)
  | .char => .char (buf.headD 0)
  | .halfFloat => .float (halfToFloat (UInt16.ofNat bits))

def toBytes (fmt : StructFormat) (value : Value) : Option (List UInt8) :=
  match fmt, value with
  | .bool, .bool v => some [v.toUInt8]
  | .byte, .byte v => some [v.toUInt8]
  | .uByte, .uByte v => some [v]
  | .short, .short v => some (BigEndian.encode 2 v.toUInt16.toNat)
  | .uShort, .uShort v => some (BigEndian.encode 2 v.toNat)
  | .int, .int v => some (BigEndian.encode 4 v.toUInt32.toNat)
  | .uInt, .uInt v => some (BigEndian.encode 4 v.toNat)
  | .long, .long v => some (BigEndian.encode 8 v.toUInt64.toNat)
  | .uLong, .uLong v => some (BigEndian.encode 8 v.toNat)
  | .float, .float bits => some (BigEndian.encode 4 bits.toNat)
  | .double, .double bits => some (BigEndian.encode 8 bits.toNat)
  | .char, .char v => some [v]
  | .halfFloat, .halfFloat v => some (BigEndian.encode 2 v.toNat)
  | _, _ => none

end StructFormat

def readValue {σ : Type} [Read σ] (fmt : StructFormat) : Io σ StructFormat.Value := do
  let buf ← readExact fmt.size
  return fmt.fromBytes buf

def writeValue {σ : Type} [Write σ] (fmt : StructFormat) (value : StructFormat.Value)
    : Io σ Unit :=
  match fmt.toBytes value with
  | some bytes => writeAll bytes
  | none => throwIo .invalidInput s!"Type mismatch for format {fmt.debug}"

end Rust

end McStatus
