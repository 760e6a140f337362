import McStatus.Python.Io.Lemmas.Codec

/-!
This module contains the round trip of fixed-width values, and the two formats of which the reader
takes another number of bytes than the writer puts out.
-/

namespace McStatus

open Reader

namespace Python

open BaseSyncReader BaseSyncWriter LawfulReader

theorem decode_encode {size n : Nat} (h : n < 2 ^ (8 * size))
    : BigEndian.decode (BigEndian.encode size n) = n := by
  rw [Nat.pow_mul] at h
  exact BigEndian.decode_encode_of_lt h

theorem two_pow_eq_double {bits : Nat} (hbits : 0 < bits)
    : (2 : Int) ^ bits = 2 * 2 ^ (bits - 1) ∧ (2 : Int) ^ bits = (2 ^ bits : Nat)
      ∧ (2 : Int) ^ (bits - 1) = (2 ^ (bits - 1) : Nat) := by
  refine ⟨?_, by simp, by simp⟩
  have hsplit : bits = bits - 1 + 1 := by omega
  conv => lhs; rw [hsplit]
  rw [Int.pow_succ, Int.mul_comm]

theorem unpackUnsigned_encode {size : Nat} {value : Int} (hmin : 0 ≤ value)
    (hmax : value < 2 ^ (8 * size))
    : unpackUnsigned (BigEndian.encode size value.toNat) = value := by
  have hcast : (2 : Int) ^ (8 * size) = (2 ^ (8 * size) : Nat) := by simp
  rw [unpackUnsigned, decode_encode (by omega)]
  omega

theorem unpackSigned_encode {size : Nat} (hsize : 0 < size) {value : Int}
    (hmin : -(2 ^ (8 * size - 1)) ≤ value) (hmax : value < 2 ^ (8 * size - 1))
    : unpackSigned (BigEndian.encode size (value % 2 ^ (8 * size)).toNat) = value := by
  rcases two_pow_eq_double (by omega : 0 < 8 * size) with ⟨hdouble, hcast, hcast'⟩
  have hlen := BigEndian.length_encode size (value % 2 ^ (8 * size)).toNat
  have hmod : value % 2 ^ (8 * size) = if value < 0 then value + 2 ^ (8 * size) else value := by
    split
    . rw [← Int.add_emod_right]
      exact Int.emod_eq_of_lt (by omega) (by omega)
    . exact Int.emod_eq_of_lt (by omega) (by omega)
  have hlt : (value % 2 ^ (8 * size)).toNat < 2 ^ (8 * size) := by
    rw [hmod]
    split <;> omega
  unfold unpackSigned
  rw [decode_encode hlt, hlen]
  dsimp only
  rw [hmod]
  split <;> split <;> omega

def StructFormat.Representable (fmt : StructFormat) (value : fmt.Value) : Prop :=
  match fmt, value with
  | .bool, _ | .char, _ | .double, _ => True
  | .byte, n => -2 ^ 7 ≤ n ∧ n < 2 ^ 7
  | .ubyte, n => 0 ≤ n ∧ n < 2 ^ 8
  | .short, n => -2 ^ 15 ≤ n ∧ n < 2 ^ 15
  | .ushort, n => 0 ≤ n ∧ n < 2 ^ 16
  | .int, n | .long, n => -2 ^ 31 ≤ n ∧ n < 2 ^ 31
  | .uint, n | .ulong, n => 0 ≤ n ∧ n < 2 ^ 32
  | .longlong, n => -2 ^ 63 ≤ n ∧ n < 2 ^ 63
  | .ulonglong, n => 0 ≤ n ∧ n < 2 ^ 64
  | .float, x => ∃ bits < 2 ^ 32, x.toNat = BinaryFloat.widen .double .single true bits
  | .halffloat, x => ∃ bits < 2 ^ 16, x.toNat = BinaryFloat.widen .double .half false bits

/-- The bytes of `fmt` for the value, which are unpacked again. -/
def Packs (fmt : StructFormat) (value : fmt.Value) : Prop :=
  ∃ bytes, pack fmt value = .ok bytes ∧ bytes.length = fmt.standardSize
    ∧ unpack fmt bytes = .ok value

theorem unpack_of_length {fmt : StructFormat} {data : List UInt8}
    (h : data.length = fmt.standardSize)
    : unpack fmt data = match fmt with
      | .bool => .ok (decide (BigEndian.decode data ≠ 0))
      | .char => .ok (UInt8.ofNat (BigEndian.decode data))
      | .byte | .short | .int | .long | .longlong => .ok (unpackSigned data)
      | .ubyte | .ushort | .uint | .ulong | .ulonglong => .ok (unpackUnsigned data)
      | .float => .ok (unpackFloat .single true data)
      | .double => .ok (UInt64.ofNat (BigEndian.decode data))
      | .halffloat => .ok (unpackFloat .half false data) := by
  unfold unpack
  rw [if_neg (not_not_intro h)]
  cases fmt <;> rfl

theorem exists_packUnsigned {size : Nat} {value : Int} (hmin : 0 ≤ value)
    (hmax : value < 2 ^ (8 * size))
    : ∃ bytes, packUnsigned size value = .ok bytes ∧ bytes.length = size
        ∧ unpackUnsigned bytes = value :=
  ⟨BigEndian.encode size value.toNat, if_pos ⟨hmin, hmax⟩, BigEndian.length_encode _ _,
    unpackUnsigned_encode hmin hmax⟩

theorem exists_packSigned {size : Nat} (hsize : 0 < size) {value : Int}
    (hmin : -(2 ^ (8 * size - 1)) ≤ value) (hmax : value < 2 ^ (8 * size - 1))
    : ∃ bytes, packSigned size value = .ok bytes ∧ bytes.length = size
        ∧ unpackSigned bytes = value :=
  ⟨BigEndian.encode size (value % 2 ^ (8 * size)).toNat, if_pos ⟨hmin, hmax⟩,
    BigEndian.length_encode _ _,
    unpackSigned_encode hsize hmin hmax⟩

theorem exists_packFloat {precision : BinaryFloat.Format} {payloads : Bool} {size bits : Nat}
    {value : UInt64}
    (hwidens : BinaryFloat.Widens .double precision)
    (hsize : 2 ^ (8 * size) = 2 * precision.signBit)
    (hbits : bits < 2 ^ (8 * size))
    (hvalue : value.toNat = BinaryFloat.widen .double precision payloads bits)
    : ∃ bytes, packFloat precision payloads size value = .ok bytes ∧ bytes.length = size
        ∧ unpackFloat precision payloads bytes = value := by
  rw [hsize] at hbits
  rcases (@BinaryFloat.Widens.narrow_widen _ _ payloads _ hwidens hbits).2 with
    ⟨narrowed, hlt, hnarrow, hwiden⟩
  refine ⟨BigEndian.encode size narrowed, ?_, BigEndian.length_encode _ _, ?_⟩
  . rw [packFloat, hvalue, hnarrow]
  . rw [unpackFloat, decode_encode (hsize ▸ hlt), hwiden, ← hvalue, UInt64.ofNat_toNat]

theorem packs_of_exists {fmt : StructFormat} {value : fmt.Value} (unpackAs : List UInt8 → fmt.Value)
    (hunpack : ∀ {data : List UInt8}, data.length = fmt.standardSize →
      unpack fmt data = .ok (unpackAs data))
    (h : ∃ bytes, pack fmt value = .ok bytes ∧ bytes.length = fmt.standardSize
      ∧ unpackAs bytes = value)
    : Packs fmt value := by
  rcases h with ⟨bytes, hpack, hlen, hvalue⟩
  refine ⟨bytes, hpack, hlen, ?_⟩
  rw [hunpack hlen, hvalue]

theorem packs_of_representable {fmt : StructFormat} {value : fmt.Value}
    (h : fmt.Representable value) : Packs fmt value := by
  cases fmt with
  | bool => cases value <;> exact ⟨_, rfl, rfl, rfl⟩
  | char =>
    apply packs_of_exists (fun data => UInt8.ofNat (BigEndian.decode data)) unpack_of_length
    exact ⟨[value], rfl, rfl, by simp [BigEndian.decode]⟩
  | byte | short | int | long | longlong =>
    exact packs_of_exists unpackSigned unpack_of_length (exists_packSigned (by decide) h.1 h.2)
  | ubyte | ushort | uint | ulong | ulonglong =>
    exact packs_of_exists unpackUnsigned unpack_of_length (exists_packUnsigned h.1 h.2)
  | float =>
    rcases h with ⟨bits, hbits, hvalue⟩
    apply packs_of_exists (unpackFloat .single true) unpack_of_length
    exact exists_packFloat BinaryFloat.widens_double_single (by decide) hbits hvalue
  | halffloat =>
    rcases h with ⟨bits, hbits, hvalue⟩
    apply packs_of_exists (unpackFloat .half false) unpack_of_length
    exact exists_packFloat BinaryFloat.widens_double_half (by decide) hbits hvalue
  | double =>
    apply packs_of_exists (fun data => UInt64.ofNat (BigEndian.decode data)) unpack_of_length
    refine ⟨BigEndian.encode 8 value.toNat, rfl, BigEndian.length_encode 8 value.toNat, ?_⟩
    rw [decode_encode value.toNat_lt, UInt64.ofNat_toNat]

structure FormatValue where
  fmt : StructFormat
  value : fmt.Value
  representable : fmt.Representable value

def FormatValue.content (v : FormatValue) : (fmt : StructFormat) × fmt.Value :=
  ⟨v.fmt, v.value⟩

def writeValues (values : List FormatValue) : Py Buffer Unit :=
  match values with
  | [] => return
  | v :: values => do
    writeValue v.fmt v.value
    writeValues values

def readValues (fmts : List StructFormat) : Py Buffer (List ((fmt : StructFormat) × fmt.Value)) :=
  match fmts with
  | [] => return []
  | fmt :: fmts => do
    let value ← readValue fmt
    let values ← readValues fmts
    return ⟨fmt, value⟩ :: values

def RoundTrips (values : List FormatValue) : Prop :=
  ∃ bytes, Writes (writeValues values) bytes
    ∧ ∀ (b : Buffer) rest, b.unreadView = bytes ++ rest →
      ∃ b', readValues (values.map FormatValue.fmt) b = .ok (values.map FormatValue.content) b'
        ∧ b'.unreadView = rest

/-- The platform's size of a format is the one that the writer uses. -/
def StructFormat.SizesAgree (fmt : StructFormat) : Prop :=
  fmt ≠ .long ∧ fmt ≠ .ulong

theorem StructFormat.calcsize_eq_iff (fmt : StructFormat)
    : fmt.calcsize = fmt.standardSize ↔ fmt.SizesAgree := by
  cases fmt <;> simp [calcsize, standardSize, SizesAgree]

theorem sizesAgree_of_readValue {fmt : StructFormat} {value : fmt.Value} {b b' : Buffer}
    (h : readValue fmt b = .ok value b') : fmt.SizesAgree := by
  rcases bind_eq_ok.mp h with ⟨data, t, hread, hunpack⟩
  have hlen : fmt.calcsize = data.length := Int.ofNat.inj (length_of_read hread).1
  rw [← fmt.calcsize_eq_iff]
  apply Classical.byContradiction
  intro hne
  unfold unpack at hunpack
  rw [if_pos (hlen ▸ hne)] at hunpack
  cases hunpack

theorem sizesAgree_of_readValues {fmts : List StructFormat} {b b' : Buffer}
    {values : List ((fmt : StructFormat) × fmt.Value)} (h : readValues fmts b = .ok values b')
    : ∀ fmt ∈ fmts, fmt.SizesAgree := by
  induction fmts generalizing b b' values with
  | nil => exact fun fmt hfmt => absurd hfmt List.not_mem_nil
  | cons fmt fmts ih =>
    rcases bind_eq_ok.mp h with ⟨value, t, hvalue, h⟩
    rcases bind_eq_ok.mp h with ⟨rest, u, hrest, -⟩
    rw [List.forall_mem_cons]
    exact ⟨sizesAgree_of_readValue hvalue, ih hrest⟩

theorem exists_writes_reads (values : List FormatValue)
    : ∃ bytes, Writes (writeValues values) bytes
        ∧ ((∀ v ∈ values, v.fmt.SizesAgree) →
          Consumes Buffer.unreadView (readValues (values.map FormatValue.fmt)) bytes
            (values.map FormatValue.content)) := by
  induction values with
  | nil => exact ⟨[], Writes.pure, fun _ => Consumes.pure []⟩
  | cons v values ih =>
    rcases ih with ⟨bytes, hwrite, hread⟩
    rcases packs_of_representable v.representable with ⟨own, hpack, hlen, hunpack⟩
    refine ⟨own ++ bytes, (writes_writeValue hpack).bind hwrite, fun hsizes => ?_⟩
    rw [List.forall_mem_cons, ← v.fmt.calcsize_eq_iff] at hsizes
    refine (consumes_readValue (hlen.trans hsizes.1.symm) hunpack).bind ?_
    exact (hread hsizes.2).bind_done (Consumes.pure _)

theorem RoundTrips.sizesAgree {values : List FormatValue} (h : RoundTrips values)
    : ∀ v ∈ values, v.fmt.SizesAgree := by
  rcases h with ⟨bytes, -, hgoes⟩
  rcases hgoes (Buffer.ofBytes bytes) [] (by rw [Buffer.unreadView_ofBytes, List.append_nil])
    with ⟨b', hread, -⟩
  intro v hv
  exact sizesAgree_of_readValues hread v.fmt (List.mem_map_of_mem hv)

theorem struct_roundTrips_iff (values : List FormatValue)
    : RoundTrips values ↔ ∀ v ∈ values, v.fmt ≠ .long ∧ v.fmt ≠ .ulong := by
  refine ⟨RoundTrips.sizesAgree, fun h => ?_⟩
  rcases exists_writes_reads values with ⟨bytes, hwrite, hread⟩
  exact ⟨bytes, hwrite, hread h⟩

def longOne : FormatValue where
  fmt := .long
  value := 1
  representable := ⟨by decide, by decide⟩

/-- Four bytes are written for a `LONG`, and eight are to be read. -/
theorem not_roundTrips_longOne
    : ¬ RoundTrips [longOne]
        ∧ Writes (writeValue .long (1 : Int) : Py Buffer Unit) [0, 0, 0, 1]
        ∧ ∃ b, (readValue .long : Py Buffer Int) (Buffer.ofBytes [0, 0, 0, 1])
          = .error (.osError (.notAvailable 4 [0, 0, 0, 1] 8)) b := by
  refine ⟨fun h => (h.sizesAgree longOne List.mem_cons_self).1 rfl, writes_writeValue rfl, _, rfl⟩

end Python

end McStatus
