import McStatus.Library.Text
import McStatus.Rust.Io.Basic

/-!
This module contains the varints of `io.rs` and its traits `MinecraftRead` and `MinecraftWrite`,
over any object that can read or write bytes. A `wrapping_shl` is the `<<<` of the fixed-width
integers, which takes its distance modulo their width.
-/

namespace McStatus

open Reader

namespace Rust

def toTwosComplement (number : Int64) (bits : Nat) : Except String UInt64 :=
  if bits ≥ 64 then
    .ok number.toUInt64
  else
    let value_max : Int64 := 1 <<< Int64.ofNat (bits - 1)
    let value_min := -value_max
    if number ≥ value_max ∨ number < value_min then
      .error s!"Can't convert number {number} into {bits}-bit twos complement format - out of range"
    else if number < 0 then
      .ok (number.toUInt64 + (1 <<< UInt64.ofNat bits))
    else
      .ok number.toUInt64

def fromTwosComplement (number : UInt64) (bits : Nat) : Except String Int64 :=
  if bits ≥ 64 then
    .ok number.toInt64
  else
    let value_max : UInt64 := (1 <<< UInt64.ofNat bits) - 1
    if number > value_max then
      .error s!"Can't convert number {number} from {bits}-bit twos complement format - out of range"
    else if number &&& (1 <<< UInt64.ofNat (bits - 1)) ≠ 0 then
      .ok (number.toInt64 - (1 <<< Int64.ofNat bits))
    else
      .ok number.toInt64

/-- The largest number of `max_bits` bits, computed by `read_varuint` and `write_varuint` alike. -/
def valueMax (max_bits : Nat) : UInt64 :=
  if max_bits < 64 then (1 <<< UInt64.ofNat max_bits) - 1 else 0xFFFFFFFFFFFFFFFF

section Read

open Read (available available_lt)

variable {σ : Type} [Read σ]

def readByte : Io σ UInt8 := do
  let buf ← readExact 1
  return buf.headD 0

def readVaruint (max_bits : Nat) : Io σ UInt64 :=
  go byte_limit 0 0
where
  byte_limit : Nat := (max_bits + 6) / 7
  go (left i : Nat) (result : UInt64) : Io σ UInt64 :=
    match left with
    | 0 =>
      throwIo .invalidData
        s!"Received varint had too many bytes for {max_bits}-bit int (continuation bit set on byte {byte_limit})."
    | left + 1 => do
      let byte ← readByte
      let result := result ||| ((byte &&& 0x7F).toUInt64 <<< UInt64.ofNat (7 * i))
      if result > valueMax max_bits then
        throwIo .invalidData s!"Received varint was outside the range of {max_bits}-bit int."
      else if byte &&& 0x80 = 0 then
        return result
      else
        go left (i + 1) result

def readVarint : Io σ Int32 := do
  let unsigned ← readVaruint 32
  let signed ← unwrap (fromTwosComplement unsigned 32)
  return signed.toInt32

def readVarlong : Io σ Int64 := do
  let unsigned ← readVaruint 64
  unwrap (fromTwosComplement unsigned 64)

def readMcBytearray : Io σ (List UInt8) := do
  let length ← readVarint
  if length < 0 then
    throwIo .invalidData s!"Length prefix for byte arrays must be non-negative, got {length}."
  else
    readExact length.toInt.toNat

theorem readByte_lt {b : UInt8} {s s' : σ} (h : readByte s = .ok b s')
    : available s' < available s := by
  rcases bind_eq_ok.mp h with ⟨buf, t, hexact, hpure⟩
  rw [pure_apply, EStateM.Result.ok.injEq] at hpure
  rw [← hpure.2]
  unfold readExact at hexact
  rw [if_neg (by decide)] at hexact
  rcases bind_eq_ok.mp hexact with ⟨data, u, hread, hrest⟩
  by_cases hzero : data.length = 0
  . rw [if_pos hzero] at hrest
    cases hrest
  . have hfull : 1 - data.length = 0 := by omega
    rw [if_neg hzero, hfull, readExact, if_pos rfl, pure_bind, pure_apply,
      EStateM.Result.ok.injEq] at hrest
    rw [← hrest.2]
    exact available_lt hread (List.length_pos_iff.mp (Nat.pos_of_ne_zero hzero))

def readMcAsciiStep (result : List UInt8) : Io σ (List UInt8 ⊕ List UInt8) := do
  let byte ← readByte
  if byte = 0 then
    return .inr result
  else
    return .inl (result ++ [byte])

theorem readMcAsciiStep_lt {result result' : List UInt8} {s s' : σ}
    (h : readMcAsciiStep result s = .ok (.inl result') s') : available s' < available s := by
  rcases bind_eq_ok.mp h with ⟨byte, t, hread, hpure⟩
  have hlt := readByte_lt hread
  split at hpure
  . simp at hpure
  . rw [pure_apply, EStateM.Result.ok.injEq] at hpure
    exact hpure.2 ▸ hlt

def readMcAscii : Io σ (List Char) := do
  let result ← loop available readMcAsciiStep (fun _ _ _ _ h => readMcAsciiStep_lt h) []
  return Latin1.decode result

def readMcUtf : Io σ (List Char) := do
  let length ← readVarint
  if length < 0 then
    throwIo .invalidData s!"Length prefix for utf strings must be non-negative, got {length}."
  else if length > 131068 then
    throwIo .invalidData s!"Maximum read limit for utf strings is 131068 bytes, got {length}."
  else
    let buf ← readExact length.toInt.toNat
    match Utf8.decode? buf with
    | none => throw (.error .fromUtf8)
    | some chars =>
      -- `chars.len()` counts bytes
      if utf8Len chars > 32767 then
        throwIo .invalidData
          s!"Maximum read limit for utf strings is 32767 characters, got {utf8Len chars}."
      else
        return chars

def readMcOptional {α : Type} (reader : Io σ α) : Io σ (Option α) := do
  let byte ← readByte
  if byte = 0 then
    return none
  else
    return some (← reader)

end Read

section Write

variable {σ : Type} [Write σ]

def writeVaruint (value : UInt64) (max_bits : Nat) : Io σ Unit :=
  if value > valueMax max_bits then
    throwIo .invalidInput s!"Tried to write varint outside of the range of {max_bits}-bit int."
  else
    go value
where
  go (remaining : UInt64) : Io σ Unit :=
    if remaining &&& ~~~0x7F = 0 then
      writeAll [remaining.toUInt8]
    else do
      writeAll [((remaining &&& 0x7F) ||| 0x80).toUInt8]
      go (remaining >>> 7)
  termination_by remaining.toNat
  decreasing_by
    have hpos : remaining.toNat ≠ 0 := by
      intro hzero
      have : remaining = 0 := UInt64.toNat_inj.mp hzero
      subst this
      contradiction
    rw [UInt64.toNat_shiftRight, Nat.shiftRight_eq_div_pow]
    apply Nat.div_lt_self
    . omega
    . decide

def writeVarint (value : Int32) : Io σ Unit := do
  let unsigned ← unwrap (toTwosComplement value.toInt64 32)
  writeVaruint unsigned 32

def writeVarlong (value : Int64) : Io σ Unit := do
  let unsigned ← unwrap (toTwosComplement value 64)
  writeVaruint unsigned 64

def lenAsI32 (data : List UInt8) : Int32 :=
  Int32.ofNat data.length

def writeMcBytearray (data : List UInt8) : Io σ Unit := do
  writeVarint (lenAsI32 data)
  writeAll data

def writeMcAscii (value : List Char) : Io σ Unit :=
  match value with
  | [] => writeAll [0]
  | ch :: value => do
    let byte := if ch.toNat ≤ 0xFF then UInt8.ofNat ch.toNat else 0x3F
    writeAll [byte]
    writeMcAscii value

def writeMcUtf (value : List Char) : Io σ Unit := do
  if utf8Len value > 32767 then
    throwIo .invalidInput "Maximum character limit for writing strings is 32767 characters."
  else
    let data := Utf8.encode value
    writeVarint (lenAsI32 data)
    writeAll data

def writeMcOptional {α : Type} (value : Option α) (writer : α → Io σ Unit) : Io σ Unit :=
  match value with
  | none => writeAll [0]
  | some v => do
    writeAll [1]
    writer v

end Write

end Rust

end McStatus
