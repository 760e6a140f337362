import McStatus.Library.BigEndian
import McStatus.Rust.Io.Basic

/-!
This module contains the `Buffer` of `buffer.rs`.
-/

namespace McStatus

open Reader

namespace Rust

structure Buffer where
  data : List UInt8
  pos : Nat
  pos_le : pos ≤ data.length
  deriving Repr

namespace Buffer

theorem start_le (data : List UInt8) : 0 ≤ data.length :=
  Nat.zero_le data.length

def fromBytes (data : List UInt8) : Buffer where
  data := data
  pos := 0
  pos_le := start_le data

def new : Buffer :=
  fromBytes []

def remaining (b : Buffer) : Nat :=
  b.data.length - b.pos

def unread (b : Buffer) : List UInt8 :=
  b.data.drop b.pos

def extendFromSlice (b : Buffer) (data : List UInt8) : Buffer where
  data := b.data ++ data
  pos := b.pos
  pos_le := by
    have := b.pos_le
    rw [List.length_append]
    omega

def writeBytes (data : List UInt8) : Io Buffer Unit :=
  modify fun b => b.extendFromSlice data

def readBytes (length : Nat) : Io Buffer (List UInt8) := fun b =>
  if length = 0 then
    .ok [] b
  -- `self.pos + length` does not fit a `usize`: either the addition panics, or it wraps around and
  -- the slice it then takes ends before it starts
  else if 2 ^ 64 ≤ b.pos + length then
    .error .panic b
  else if h : b.pos + length > b.data.length then
    .error (.error (.new .unexpectedEof
      s!"Not enough bytes to read: requested {length}, available {b.remaining}")) b
  else
    .ok (b.unread.take length)
      { data := b.data, pos := b.pos + length, pos_le := Nat.le_of_not_lt h }

def read (length : Nat) : Io Buffer (List UInt8) := fun b =>
  let available := b.data.length - b.pos
  let to_read := min length available
  .ok (b.unread.take to_read)
    { data := b.data, pos := b.pos + to_read, pos_le := by have := b.pos_le; omega }

def write (data : List UInt8) : Io Buffer Nat := do
  writeBytes data
  return data.length

def flush : Io Buffer Unit :=
  pure ()

def reset : Io Buffer Unit :=
  modify fun b => { b with pos := 0, pos_le := start_le b.data }

def clear : Io Buffer Unit :=
  modify fun _ => new

def writeUbyte (value : UInt8) : Io Buffer Unit :=
  writeBytes [value]

def writeUshort (value : UInt16) : Io Buffer Unit :=
  writeBytes (BigEndian.encode 2 value.toNat)

def writeUint (value : UInt32) : Io Buffer Unit :=
  writeBytes (BigEndian.encode 4 value.toNat)

def writeUlonglong (value : UInt64) : Io Buffer Unit :=
  writeBytes (BigEndian.encode 8 value.toNat)

def writeByte (value : Int8) : Io Buffer Unit :=
  writeBytes [value.toUInt8]

def writeShort (value : Int16) : Io Buffer Unit :=
  writeBytes (BigEndian.encode 2 value.toUInt16.toNat)

def writeBool (value : Bool) : Io Buffer Unit :=
  writeBytes [if value then 1 else 0]

def readUbyte : Io Buffer UInt8 := do
  let bytes ← readBytes 1
  return bytes.headD 0

def readUshort : Io Buffer UInt16 := do
  let bytes ← readBytes 2
  return UInt16.ofNat (BigEndian.decode bytes)

def readUint : Io Buffer UInt32 := do
  let bytes ← readBytes 4
  return UInt32.ofNat (BigEndian.decode bytes)

def readUlonglong : Io Buffer UInt64 := do
  let bytes ← readBytes 8
  return UInt64.ofNat (BigEndian.decode bytes)

def readBool : Io Buffer Bool := do
  return (← readUbyte) ≠ 0

theorem length_unread (b : Buffer) : b.unread.length = b.remaining := by
  simp [unread, remaining]

theorem read_eq (length : Nat) (b : Buffer)
    : ∃ b', read length b = .ok (b.unread.take length) b' ∧ b'.unread = b.unread.drop length := by
  have hlen := length_unread b
  have htake : b.unread.take (min length (b.data.length - b.pos)) = b.unread.take length := by
    rw [List.take_eq_take_iff, hlen, remaining]
    omega
  rw [read, htake]
  refine ⟨_, rfl, ?_⟩
  change b.data.drop (b.pos + min length b.remaining) = b.unread.drop length
  cases Nat.le_total length b.remaining with
  | inl hle => rw [Nat.min_eq_left hle, unread, List.drop_drop]
  | inr hge =>
    have hend : b.data.length ≤ b.pos + b.remaining := by
      rw [remaining]
      omega
    rw [Nat.min_eq_right hge, List.drop_of_length_le hend, List.drop_of_length_le (by omega)]

theorem remaining_lt_of_read {length : Nat} {b b' : Buffer} {data : List UInt8}
    (h : read length b = .ok data b') (hdata : data ≠ []) : b'.remaining < b.remaining := by
  rcases read_eq length b with ⟨c, hread, hunread⟩
  rw [h, EStateM.Result.ok.injEq] at hread
  rcases hread with ⟨rfl, rfl⟩
  rw [← length_unread, ← length_unread, hunread, List.length_drop]
  have hlength : length ≠ 0 := by
    rintro rfl
    simp at hdata
  have hunread : 0 < b.unread.length := by
    apply List.length_pos_iff.mpr
    intro hnil
    simp [hnil] at hdata
  omega

end Buffer

instance : Read Buffer where
  read := Buffer.read
  available := Buffer.remaining
  available_lt := Buffer.remaining_lt_of_read

instance : Write Buffer where
  write := Buffer.write

end Rust

end McStatus
