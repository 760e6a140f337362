import Mathlib.Data.List.Forall2
import McStatus.Rust.Io.Lemmas.Read
import McStatus.Rust.Io.Lemmas.Write
import McStatus.Rust.Io.StructFormat

/-!
This module contains the round trip of fixed-width values, and the one format that does not have it.
-/

namespace McStatus

open Reader

namespace Rust

theorem ofNat_decode_16 (v : UInt16)
    : UInt16.ofNat (BigEndian.decode (BigEndian.encode 2 v.toNat)) = v := by
  rw [BigEndian.decode_encode_of_lt v.toNat_lt, UInt16.ofNat_toNat]

theorem ofNat_decode_32 (v : UInt32)
    : UInt32.ofNat (BigEndian.decode (BigEndian.encode 4 v.toNat)) = v := by
  rw [BigEndian.decode_encode_of_lt v.toNat_lt, UInt32.ofNat_toNat]

theorem ofNat_decode_64 (v : UInt64)
    : UInt64.ofNat (BigEndian.decode (BigEndian.encode 8 v.toNat)) = v := by
  rw [BigEndian.decode_encode_of_lt v.toNat_lt, UInt64.ofNat_toNat]

namespace StructFormat

theorem length_toBytes {fmt : StructFormat} {value : Value} {bytes : List UInt8}
    (h : fmt.toBytes value = some bytes) : bytes.length = fmt.size := by
  unfold toBytes at h
  split at h <;> cases h <;> rfl

theorem fromBytes_toBytes {fmt : StructFormat} (hfmt : fmt ≠ .halfFloat) {value : Value}
    {bytes : List UInt8} (h : fmt.toBytes value = some bytes) : fmt.fromBytes bytes = value := by
  unfold toBytes at h
  split at h
  . next v =>
    cases h
    cases v <;> rfl
  . cases h
    rfl
  . cases h
    rfl
  . next v =>
    cases h
    exact congrArg (fun bits => Value.short bits.toInt16) (ofNat_decode_16 v.toUInt16)
  . next v =>
    cases h
    exact congrArg Value.uShort (ofNat_decode_16 v)
  . next v =>
    cases h
    exact congrArg (fun bits => Value.int bits.toInt32) (ofNat_decode_32 v.toUInt32)
  . next v =>
    cases h
    exact congrArg Value.uInt (ofNat_decode_32 v)
  . next v =>
    cases h
    exact congrArg (fun bits => Value.long bits.toInt64) (ofNat_decode_64 v.toUInt64)
  . next v =>
    cases h
    exact congrArg Value.uLong (ofNat_decode_64 v)
  . next bits =>
    cases h
    exact congrArg Value.float (ofNat_decode_32 bits)
  . next bits =>
    cases h
    exact congrArg Value.double (ofNat_decode_64 bits)
  . cases h
    rfl
  . exact absurd rfl hfmt
  . cases h

theorem fromBytes_halfFloat_ne {bytes buf : List UInt8} {value : Value}
    (h : halfFloat.toBytes value = some bytes) : halfFloat.fromBytes buf ≠ value := by
  cases value <;> cases h
  exact nofun

end StructFormat

theorem writes_writeValue {fmt : StructFormat} {value : StructFormat.Value} {bytes : List UInt8}
    (h : fmt.toBytes value = some bytes) : Writes (writeValue fmt value) bytes := by
  rw [writeValue, h]
  exact writes_writeAll bytes

theorem writeValue_eq_ok_iff {fmt : StructFormat} {value : StructFormat.Value}
    : (∃ b b' : Buffer, writeValue fmt value b = .ok () b')
        ↔ ∃ bytes, fmt.toBytes value = some bytes := by
  constructor
  . rintro ⟨b, b', hwrite⟩
    cases hbytes : fmt.toBytes value with
    | none =>
      rw [writeValue, hbytes] at hwrite
      cases hwrite
    | some bytes => exact ⟨bytes, rfl⟩
  . rintro ⟨bytes, hbytes⟩
    exact ⟨Buffer.new, _, writes_writeValue hbytes Buffer.new⟩

structure FormatValue where
  fmt : StructFormat
  value : StructFormat.Value
  accepted : ∃ b b' : Buffer, writeValue fmt value b = .ok () b'

def writeValues (values : List (StructFormat × StructFormat.Value)) : Io Buffer Unit :=
  match values with
  | [] => return
  | (fmt, value) :: values => do
    writeValue fmt value
    writeValues values

section Read

open LawfulRead

variable {σ : Type} [LawfulRead σ]

def readValues (fmts : List StructFormat) : Io σ (List StructFormat.Value) :=
  match fmts with
  | [] => return []
  | fmt :: fmts => do
    let value ← readValue fmt
    let values ← readValues fmts
    return value :: values

theorem consumes_readValue {fmt : StructFormat} {bytes : List UInt8} (h : bytes.length = fmt.size)
    : Consumes view (readValue fmt : Io σ StructFormat.Value) bytes (fmt.fromBytes bytes) := by
  have hexact := consumes_readExact (σ := σ) bytes
  rw [h] at hexact
  exact hexact.bind_done (Consumes.pure _)

theorem exists_writes_reads (values : List FormatValue)
    : ∃ bytes read, Writes (writeValues (values.map fun v => (v.fmt, v.value))) bytes
        ∧ Consumes view (readValues (values.map FormatValue.fmt) : Io σ _) bytes read
        ∧ List.Forall₂ (fun v read => read = v.value ↔ v.fmt ≠ .halfFloat) values read := by
  induction values with
  | nil => exact ⟨[], [], Writes.pure, Consumes.pure [], .nil⟩
  | cons v values ih =>
    rcases ih with ⟨bytes, read, hwrite, hread, hall⟩
    rcases writeValue_eq_ok_iff.mp v.accepted with ⟨own, hown⟩
    refine ⟨own ++ bytes, v.fmt.fromBytes own :: read, ?_, ?_, .cons ?_ hall⟩
    . exact (writes_writeValue hown).bind hwrite
    . refine (consumes_readValue (StructFormat.length_toBytes hown)).bind ?_
      exact hread.bind_done (Consumes.pure _)
    . constructor
      . intro hsame hhalf
        rw [hhalf] at hown hsame
        exact StructFormat.fromBytes_halfFloat_ne hown hsame
      . intro hfmt
        exact StructFormat.fromBytes_toBytes hfmt hown

end Read

/-- The values that are written are read, and written again they take the same bytes. -/
def RoundTrips (values : List FormatValue) : Prop :=
  ∃ bytes, Writes (writeValues (values.map fun v => (v.fmt, v.value))) bytes
    ∧ ∀ (b : Buffer) rest, b.unread = bytes ++ rest →
      ∃ read b', readValues (values.map FormatValue.fmt) b = .ok read b' ∧ b'.unread = rest
        ∧ read = values.map FormatValue.value
        ∧ Writes (writeValues ((values.map FormatValue.fmt).zip read)) bytes

theorem eq_map_value_iff {values : List FormatValue} {read : List StructFormat.Value}
    (h : List.Forall₂ (fun v read => read = v.value ↔ v.fmt ≠ .halfFloat) values read)
    : read = values.map FormatValue.value ↔ ∀ v ∈ values, v.fmt ≠ .halfFloat := by
  induction h with
  | nil => simp
  | cons hv _ ih => rw [List.map_cons, List.cons.injEq, hv, ih, List.forall_mem_cons]

theorem unread_new_extendFromSlice (bytes : List UInt8)
    : (Buffer.new.extendFromSlice bytes).unread = bytes := rfl

theorem Writes.unique {x : Io Buffer Unit} {bytes bytes' : List UInt8} (h : Writes x bytes)
    (h' : Writes x bytes') : bytes = bytes' := by
  have hboth := (h Buffer.new).symm.trans (h' Buffer.new)
  rw [EStateM.Result.ok.injEq] at hboth
  rw [← unread_new_extendFromSlice bytes, hboth.2, unread_new_extendFromSlice]

theorem RoundTrips.ne_halfFloat {values : List FormatValue} (h : RoundTrips values)
    : ∀ v ∈ values, v.fmt ≠ .halfFloat := by
  rcases exists_writes_reads (σ := Buffer) values with ⟨bytes, read, hwrite, hread, hall⟩
  rcases h with ⟨bytes', hwrite', hgoes⟩
  have hview : (Buffer.new.extendFromSlice bytes).unread = bytes ++ [] := by
    rw [unread_new_extendFromSlice, List.append_nil]
  rw [hwrite'.unique hwrite] at hgoes
  rcases hgoes _ [] hview with ⟨read', b', hrun, -, rfl, -⟩
  rcases hread _ [] hview with ⟨b'', hrun', -⟩
  rw [hrun, EStateM.Result.ok.injEq] at hrun'
  exact (eq_map_value_iff hall).mp hrun'.1.symm

theorem roundTrips_iff (values : List FormatValue)
    : RoundTrips values ↔ ∀ v ∈ values, v.fmt ≠ .halfFloat := by
  refine ⟨RoundTrips.ne_halfFloat, fun h => ?_⟩
  rcases exists_writes_reads (σ := Buffer) values with ⟨bytes, read, hwrite, hread, hall⟩
  have hvalues := (eq_map_value_iff hall).mpr h
  refine ⟨bytes, hwrite, fun b rest hview => ?_⟩
  rcases hread b rest hview with ⟨b', hrun, hrest⟩
  refine ⟨read, b', hrun, hrest, hvalues, ?_⟩
  rw [hvalues, List.zip_map']
  exact hwrite

def halfOne : FormatValue where
  fmt := .halfFloat
  value := .halfFloat 0x3C00
  accepted := writeValue_eq_ok_iff.mpr ⟨[0x3C, 0x00], rfl⟩

/-- `1.0` in half precision is read as single precision, which is not written as half again. -/
theorem not_roundTrips_halfOne
    : ¬ RoundTrips [halfOne]
        ∧ (∃ b : Buffer, readValue .halfFloat (Buffer.fromBytes [0x3C, 0x00])
          = .ok (.float 0x3F800000) b)
        ∧ ∀ b : Buffer, writeValue .halfFloat (.float 0x3F800000) b
          = .error (.error (.new .invalidInput "Type mismatch for format HalfFloat")) b := by
  refine ⟨?_, ?_, fun b => rfl⟩
  . intro h
    exact h.ne_halfFloat halfOne List.mem_cons_self rfl
  . rcases @consumes_readValue Buffer _ .halfFloat [0x3C, 0x00] rfl
      (Buffer.fromBytes [0x3C, 0x00]) [] rfl with ⟨b, hread, -⟩
    have hvalue : StructFormat.halfFloat.fromBytes [0x3C, 0x00] = .float 0x3F800000 := by decide
    exact ⟨b, hvalue ▸ hread⟩

end Rust

end McStatus
