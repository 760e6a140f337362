import McStatus.Python.Io.Lemmas.Codec

/-!
This module contains the results about the codec as a whole: numbers of any width, and streams of
items that are written and read by their type.
-/

namespace McStatus

open Reader

namespace Python

open BaseSyncReader BaseSyncWriter LawfulReader

section Varuint

variable {σ : Type} [LawfulReader σ]

theorem readVaruint_eq_ok_iff {max_bits n : Nat} {s : σ} {rest : List UInt8}
    : (∃ s', readVaruint max_bits s = .ok n s' ∧ view s' = rest)
        ↔
      ∃ input, view s = input ++ rest ∧ Varint.InRange max_bits input ∧ Varint.value input = n := by
  constructor
  . rintro ⟨s', hread, rfl⟩
    rcases readVaruint_cases max_bits s with ⟨input, t, hview, hrange, hok⟩ | ⟨e, t, herror, -⟩
    . rw [hread, EStateM.Result.ok.injEq] at hok
      exact ⟨input, hok.2 ▸ hview, hrange, hok.1.symm⟩
    . rw [hread] at herror
      cases herror
  . rintro ⟨input, hview, hrange, rfl⟩
    exact consumes_readVaruint_of_inRange hrange s rest hview

theorem readVaruint_isOSError {max_bits : Nat} {s : σ}
    (h : ¬ ∃ input rest, view s = input ++ rest ∧ Varint.InRange max_bits input)
    : ∃ e s', readVaruint max_bits s = .error e s' ∧ e.IsOSError := by
  rcases readVaruint_cases max_bits s with ⟨input, t, hview, hrange, -⟩ | herror
  . exact absurd ⟨input, view t, hview, hrange⟩ h
  . exact herror

/--
The writer of a number emits its shortest encoding and the reader takes it back. The reader returns
what it reads exactly when that is a number in range, and else raises `OSError`.
-/
theorem varuint_codec (max_bits : Nat) (hbits : 1 ≤ max_bits)
    : (∀ v < 2 ^ max_bits,
          ∃ bytes, Writes (writeVaruint max_bits (v : Nat) : Py Buffer Unit) bytes
            ∧ Varint.Shortest v bytes
            ∧ ∀ (s : σ) rest, view s = bytes ++ rest →
                ∃ s', readVaruint max_bits s = .ok v s' ∧ view s' = rest)
        ∧ (∀ (s : σ) rest n,
          (∃ s', readVaruint max_bits s = .ok n s' ∧ view s' = rest)
            ↔
          ∃ input, view s = input ++ rest ∧ Varint.InRange max_bits input
            ∧ Varint.value input = n)
        ∧ ∀ s : σ, (¬ ∃ input rest, view s = input ++ rest ∧ Varint.InRange max_bits input) →
          ∃ e s', readVaruint max_bits s = .error e s' ∧ e.IsOSError := by
  refine ⟨?_, fun s rest n => readVaruint_eq_ok_iff, fun s => readVaruint_isOSError⟩
  intro v hv
  exact ⟨Varint.encode v, writes_writeVaruint hv, Varint.shortest_encode v,
    consumes_readVaruint hbits hv⟩

theorem varuint_codec_32
    : 1 ≤ 32 ∧ ∃ s', readVaruint 32 (Buffer.ofBytes [0xFF, 0x01, 0x07]) = .ok 255 s'
        ∧ s'.unreadView = [0x07] := by
  refine ⟨by decide, ?_⟩
  have hframed : Varint.Framed [0xFF, 0x01] := ⟨[0xFF], 0x01, rfl, by simp, by decide⟩
  refine ((@varuint_codec Buffer _ 32 (by decide)).2.1 _ _ 255).mpr ⟨[0xFF, 0x01], rfl, ?_, rfl⟩
  exact ⟨hframed, by decide, by decide⟩

end Varuint

theorem writes_writeVarint_of_inRange {value : Int} (hmin : -2 ^ 31 ≤ value) (hmax : value < 2 ^ 31)
    : Writes (writeVarint value : Py Buffer Unit) (Varint.encode (value % 2 ^ 32).toNat) :=
  writes_writeSigned (by omega) hmin hmax

theorem writes_writeVarlong {value : Int} (hmin : -2 ^ 63 ≤ value) (hmax : value < 2 ^ 63)
    : Writes (writeVarlong value : Py Buffer Unit) (Varint.encode (value % 2 ^ 64).toNat) :=
  writes_writeSigned (by omega) hmin hmax

theorem writes_writeAscii {value : List Char} (h : Latin1.Fits value)
    : Writes (writeAscii value : Py Buffer Unit) (Latin1.encode value ++ [0]) := by
  have hencode : encodeLatin1 value = .ok (Latin1.encode value) := if_pos h
  exact writes_ofExcept hencode ((writes_write _).bind (writes_write [0]))

theorem writes_writeOptional_none {α : Type} {writer : α → Py Buffer Unit}
    : Writes (writeOptional none writer) [0] :=
  writes_writeValue rfl

theorem writes_writeOptional_some {α : Type} {writer : α → Py Buffer Unit} {value : α}
    {bytes : List UInt8} (h : Writes (writer value) bytes)
    : Writes (writeOptional (some value) writer) (1 :: bytes) :=
  Writes.bind (writes_writeValue (rfl : pack .bool true = .ok [1])) h

section Read

variable {σ : Type} [LawfulReader σ]

theorem consumes_readVarint_of_inRange {value : Int} (hmin : -2 ^ 31 ≤ value)
    (hmax : value < 2 ^ 31)
    : Consumes view (readVarint : Py σ Int) (Varint.encode (value % 2 ^ 32).toNat) value :=
  consumes_readSigned (by omega) hmin hmax

theorem consumes_readVarlong {value : Int} (hmin : -2 ^ 63 ≤ value) (hmax : value < 2 ^ 63)
    : Consumes view (readVarlong : Py σ Int) (Varint.encode (value % 2 ^ 64).toNat) value :=
  consumes_readSigned (by omega) hmin hmax

theorem consumes_readBytearray {data : List UInt8} (h : data.length < 2 ^ 31)
    : Consumes view (readBytearray : Py σ (List UInt8)) (Varint.encode data.length ++ data) data
    := by
  refine Consumes.bind (consumes_readVarint h) ?_
  rw [if_neg (by omega)]
  exact consumes_read data

theorem consumes_readAscii_encode {value : List Char} (h : ∀ c ∈ value, 1 ≤ c.toNat ∧ c.toNat < 256)
    : Consumes view (readAscii : Py σ (List Char)) (Latin1.encode value ++ [0]) value := by
  have hfits : Latin1.Fits value := fun c hc => (h c hc).2
  have hnul := Latin1.zero_not_mem_encode hfits fun c hc => (h c hc).1
  have := consumes_readAscii (σ := σ) hnul
  rwa [Latin1.decode_encode hfits] at this

theorem consumes_readOptional_none {α : Type} {reader : Py σ α}
    : Consumes view (readOptional reader) [0] none :=
  (@consumes_readValue σ _ .bool [0] false rfl rfl).bind_done (Consumes.pure none)

theorem consumes_readOptional_some {α : Type} {reader : Py σ α} {value : α} {bytes : List UInt8}
    (h : Consumes view reader bytes value)
    : Consumes view (readOptional reader) (1 :: bytes) (some value) :=
  (@consumes_readValue σ _ .bool [1] true rfl rfl).bind
    (h.bind_done (Consumes.pure (some value)))

end Read

inductive Kind where
  | varint
  | varlong
  | bytearray
  | utf
  | ascii
  | optional (kind : Kind)
  deriving DecidableEq, Repr

namespace Kind

abbrev Value (kind : Kind) : Type :=
  match kind with
  | varint | varlong => Int
  | bytearray => List UInt8
  | utf | ascii => List Char
  | optional kind => Option kind.Value

def Valid (kind : Kind) (value : kind.Value) : Prop :=
  match kind, value with
  | varint, n => -2 ^ 31 ≤ n ∧ n < 2 ^ 31
  | varlong, n => -2 ^ 63 ≤ n ∧ n < 2 ^ 63
  | bytearray, data => data.length < 2 ^ 31
  | utf, s => s.length ≤ 32767
  | ascii, s => ∀ c ∈ s, 1 ≤ c.toNat ∧ c.toNat < 256
  | optional _, none => True
  | optional kind, some value => kind.Valid value

def write (kind : Kind) (value : kind.Value) : Py Buffer Unit :=
  match kind with
  | varint => writeVarint value
  | varlong => writeVarlong value
  | bytearray => writeBytearray value
  | utf => writeUtf value
  | ascii => writeAscii value
  | optional kind => writeOptional value kind.write

def read (kind : Kind) : Py Buffer kind.Value :=
  match kind with
  | varint => readVarint
  | varlong => readVarlong
  | bytearray => readBytearray
  | utf => readUtf
  | ascii => readAscii
  | optional kind => readOptional kind.read

theorem read_write (kind : Kind) {value : kind.Value} (h : kind.Valid value)
    : ∃ bytes, Writes (kind.write value) bytes ∧ Consumes view kind.read bytes value := by
  induction kind with
  | varint =>
    exact ⟨_, writes_writeVarint_of_inRange h.1 h.2, consumes_readVarint_of_inRange h.1 h.2⟩
  | varlong => exact ⟨_, writes_writeVarlong h.1 h.2, consumes_readVarlong h.1 h.2⟩
  | bytearray => exact ⟨_, writes_writeBytearray h, consumes_readBytearray h⟩
  | utf => exact ⟨_, writes_writeUtf h, consumes_readUtf h⟩
  | ascii =>
    have hfits : Latin1.Fits value := fun c hc => (h c hc).2
    exact ⟨_, writes_writeAscii hfits, consumes_readAscii_encode h⟩
  | optional kind ih =>
    cases value with
    | none => exact ⟨_, writes_writeOptional_none, consumes_readOptional_none⟩
    | some value =>
      rcases ih h with ⟨bytes, hwrite, hread⟩
      exact ⟨_, writes_writeOptional_some hwrite, consumes_readOptional_some hread⟩

end Kind

structure Item where
  kind : Kind
  value : kind.Value
  valid : kind.Valid value

def Item.content (item : Item) : (kind : Kind) × kind.Value :=
  ⟨item.kind, item.value⟩

def writeItems (items : List Item) : Py Buffer Unit :=
  match items with
  | [] => return
  | item :: items => do
    item.kind.write item.value
    writeItems items

def readItems (kinds : List Kind) : Py Buffer (List ((kind : Kind) × kind.Value)) :=
  match kinds with
  | [] => return []
  | kind :: kinds => do
    let value ← kind.read
    let values ← readItems kinds
    return ⟨kind, value⟩ :: values

theorem consumes_readItems_writeItems (items : List Item)
    : ∃ bytes, Writes (writeItems items) bytes
        ∧ Consumes view (readItems (items.map Item.kind)) bytes (items.map Item.content) := by
  induction items with
  | nil => exact ⟨[], Writes.pure, Consumes.pure []⟩
  | cons item items ih =>
    rcases item.kind.read_write item.valid with ⟨bytes, hwrite, hread⟩
    rcases ih with ⟨bytes', hwrite', hread'⟩
    refine ⟨bytes ++ bytes', hwrite.bind hwrite', hread.bind ?_⟩
    exact hread'.bind_done (Consumes.pure _)

theorem readItems_writeItems (items : List Item) (rest : List UInt8)
    : ∃ b b', (do writeItems items; write rest : Py Buffer Unit) (Buffer.ofBytes []) = .ok () b
        ∧ readItems (items.map Item.kind) b = .ok (items.map Item.content) b'
        ∧ b'.unreadView = rest := by
  rcases consumes_readItems_writeItems items with ⟨bytes, hwrite, hread⟩
  have hwritten := (hwrite.bind (f := fun _ => write rest) (writes_write rest)) (Buffer.ofBytes [])
  rcases hread ((Buffer.ofBytes []).append (bytes ++ rest)) rest rfl with ⟨b', hread, hrest⟩
  exact ⟨_, b', hwritten, hread, hrest⟩

end Python

end McStatus
