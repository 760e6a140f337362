import McStatus.Rust.Io.Lemmas.Write
import McStatus.Rust.Io.Varint

/-!
This module contains the round trip of streams of items that are written and read by their type.
-/

namespace McStatus

open Reader

namespace Rust

theorem toInt_lenAsI32 {data : List UInt8} (h : data.length ≤ 2 ^ 31 - 1)
    : (lenAsI32 data).toInt = data.length :=
  Int32.toInt_ofNat_of_lt (by omega)

theorem writes_writeMcBytearray (data : List UInt8)
    : Writes (writeMcBytearray data) (signedVarint 32 (lenAsI32 data).toInt ++ data) :=
  (writes_writeVarint _).bind (writes_writeAll data)

theorem writes_writeMcAscii {value : List Char} (h : Latin1.Fits value)
    : Writes (writeMcAscii value) (Latin1.encode value ++ [0]) := by
  induction value with
  | nil => exact writes_writeAll [0]
  | cons ch value ih =>
    have hch : ch.toNat ≤ 0xFF := Nat.le_of_lt_succ (h ch List.mem_cons_self)
    have hrest := ih fun c hc => h c (List.mem_cons_of_mem ch hc)
    unfold writeMcAscii
    dsimp only
    rw [if_pos hch]
    exact (writes_writeAll [UInt8.ofNat ch.toNat]).bind hrest

theorem writes_writeMcUtf {value : List Char} (h : utf8Len value ≤ 32767)
    : Writes (writeMcUtf value)
        (signedVarint 32 (lenAsI32 (Utf8.encode value)).toInt ++ Utf8.encode value) := by
  rw [writeMcUtf, if_neg (by omega)]
  exact (writes_writeVarint _).bind (writes_writeAll _)

theorem writeMcUtf_eq_ok_iff {value : List Char} {b : Buffer}
    : (∃ b', writeMcUtf value b = .ok () b') ↔ utf8Len value ≤ 32767 := by
  constructor
  . rintro ⟨b', hwrite⟩
    apply Nat.le_of_not_lt
    intro hlong
    rw [writeMcUtf, if_pos hlong] at hwrite
    cases hwrite
  . intro h
    exact ⟨_, writes_writeMcUtf h b⟩

theorem writes_writeMcOptional_none {α : Type} {writer : α → Io Buffer Unit}
    : Writes (writeMcOptional none writer) [0] :=
  writes_writeAll [0]

theorem writes_writeMcOptional_some {α : Type} {writer : α → Io Buffer Unit} {value : α}
    {bytes : List UInt8} (h : Writes (writer value) bytes)
    : Writes (writeMcOptional (some value) writer) (1 :: bytes) :=
  (writes_writeAll [1]).bind h

section Read

open LawfulRead

variable {σ : Type} [LawfulRead σ]

theorem consumes_readVarint_signed (value : Int32)
    : Consumes view (readVarint : Io σ Int32) (signedVarint 32 value.toInt) value := by
  have hnat : ((value.toInt % 2 ^ 32).toNat : Int) = value.toInt % 2 ^ 32 := by omega
  have hread := consumes_readVarint (σ := σ)
    (Varint.inRange_encode (n := (value.toInt % 2 ^ 32).toNat) (by decide : 0 < 32) (by omega))
  rwa [Varint.value_encode, ofNat_emod_32 hnat] at hread

theorem consumes_readVarlong_signed (value : Int64)
    : Consumes view (readVarlong : Io σ Int64) (signedVarint 64 value.toInt) value := by
  have hnat : ((value.toInt % 2 ^ 64).toNat : Int) = value.toInt % 2 ^ 64 := by omega
  have hrange := Varint.inRange_encode (n := (value.toInt % 2 ^ 64).toNat) (by decide : 0 < 64)
    (by omega)
  have hread := consumes_readVarlong (σ := σ) hrange.framed hrange.length_le
  rwa [Varint.value_encode, ofNat_emod_64 hnat] at hread

theorem consumes_readMcBytearray {data : List UInt8} (h : data.length ≤ 2 ^ 31 - 1)
    : Consumes view (readMcBytearray : Io σ (List UInt8))
        (signedVarint 32 (lenAsI32 data).toInt ++ data) data := by
  have hlen := toInt_lenAsI32 h
  have hneg : ¬ (lenAsI32 data < 0) := by
    rw [Int32.lt_iff_toInt_lt, hlen, Int32.toInt_zero]
    omega
  refine Consumes.bind (consumes_readVarint_signed (lenAsI32 data)) ?_
  rw [if_neg hneg, hlen, Int.toNat_natCast]
  exact consumes_readExact data

theorem consumes_readMcUtf {value : List Char} (h : utf8Len value ≤ 32767)
    : Consumes view (readMcUtf : Io σ (List Char))
        (signedVarint 32 (lenAsI32 (Utf8.encode value)).toInt ++ Utf8.encode value) value := by
  have hlength := Utf8.length_encode value
  have hlen := @toInt_lenAsI32 (Utf8.encode value) (by omega)
  have hneg : ¬ (lenAsI32 (Utf8.encode value) < 0) := by
    rw [Int32.lt_iff_toInt_lt, hlen, Int32.toInt_zero]
    omega
  have hlong : ¬ (lenAsI32 (Utf8.encode value) > 131068) := by
    have hmax : (131068 : Int32).toInt = 131068 := by decide
    rw [gt_iff_lt, Int32.lt_iff_toInt_lt, hlen, hmax]
    omega
  refine Consumes.bind (consumes_readVarint_signed _) ?_
  rw [if_neg hneg, if_neg hlong, hlen, Int.toNat_natCast]
  refine (consumes_readExact _).bind_done ?_
  rw [Utf8.decode?_encode]
  dsimp only
  rw [if_neg (by omega)]
  exact Consumes.pure value

theorem consumes_readMcAscii {text : List UInt8} (h : 0 ∉ text)
    : Consumes view (readMcAscii : Io σ (List Char)) (text ++ [0]) (Latin1.decode text) := by
  have hloop : ∀ result : List UInt8,
      Consumes view (loop (σ := σ) Read.available readMcAsciiStep
        (fun _ _ _ _ h => readMcAsciiStep_lt h) result) (text ++ [0]) (result ++ text) := by
    induction text with
    | nil =>
      intro result
      have hstep : Consumes view (readMcAsciiStep result : Io σ (List UInt8 ⊕ List UInt8)) [0]
          (.inr result) := by
        refine (consumes_readByte 0).bind_done ?_
        rw [if_pos rfl]
        exact Consumes.pure _
      rw [List.append_nil]
      exact hstep.loop_break
    | cons b text ih =>
      intro result
      rw [List.mem_cons, not_or] at h
      have hstep : Consumes view (readMcAsciiStep result : Io σ (List UInt8 ⊕ List UInt8)) [b]
          (.inl (result ++ [b])) := by
        refine (consumes_readByte b).bind_done ?_
        rw [if_neg (Ne.symm h.1)]
        exact Consumes.pure _
      have := hstep.loop_continue (ih h.2 (result ++ [b]))
      simpa using this
  exact (hloop []).bind_done (Consumes.pure _)

theorem consumes_readMcAscii_encode {value : List Char}
    (h : ∀ c ∈ value, 1 ≤ c.toNat ∧ c.toNat ≤ 0xFF)
    : Consumes view (readMcAscii : Io σ (List Char)) (Latin1.encode value ++ [0]) value := by
  have hfits : Latin1.Fits value := fun c hc => Nat.lt_succ_of_le (h c hc).2
  have := consumes_readMcAscii (σ := σ) (Latin1.zero_not_mem_encode hfits fun c hc => (h c hc).1)
  rwa [Latin1.decode_encode hfits] at this

theorem consumes_readMcOptional_none {α : Type} {reader : Io σ α}
    : Consumes view (readMcOptional reader) [0] none :=
  (consumes_readByte 0).bind_done (Consumes.pure none)

theorem consumes_readMcOptional_some {α : Type} {reader : Io σ α} {value : α} {bytes : List UInt8}
    (h : Consumes view reader bytes value)
    : Consumes view (readMcOptional reader) (1 :: bytes) (some value) := by
  refine (consumes_readByte 1).bind ?_
  rw [if_neg (by decide)]
  exact h.bind_done (Consumes.pure (some value))

end Read

inductive Kind where
  | varint
  | varlong
  | bytearray
  | utf
  | ascii
  | optional (kind : Kind)
  deriving DecidableEq, Repr

namespace Kind

abbrev Value (kind : Kind) : Type :=
  match kind with
  | varint => Int32
  | varlong => Int64
  | bytearray => List UInt8
  | utf | ascii => List Char
  | optional kind => Option kind.Value

def Valid (kind : Kind) (value : kind.Value) : Prop :=
  match kind, value with
  | varint, _ | varlong, _ => True
  | bytearray, data => data.length ≤ 2 ^ 31 - 1
  | utf, s => ∃ b b' : Buffer, writeMcUtf s b = .ok () b'
  | ascii, s => ∀ c ∈ s, 1 ≤ c.toNat ∧ c.toNat ≤ 0xFF
  | optional _, none => True
  | optional kind, some value => kind.Valid value

def write (kind : Kind) (value : kind.Value) : Io Buffer Unit :=
  match kind with
  | varint => writeVarint value
  | varlong => writeVarlong value
  | bytearray => writeMcBytearray value
  | utf => writeMcUtf value
  | ascii => writeMcAscii value
  | optional kind => writeMcOptional value kind.write

def read (kind : Kind) : Io Buffer kind.Value :=
  match kind with
  | varint => readVarint
  | varlong => readVarlong
  | bytearray => readMcBytearray
  | utf => readMcUtf
  | ascii => readMcAscii
  | optional kind => readMcOptional kind.read

theorem read_write (kind : Kind) {value : kind.Value} (h : kind.Valid value)
    : ∃ bytes, Writes (kind.write value) bytes ∧ Consumes Buffer.unread kind.read bytes value := by
  induction kind with
  | varint => exact ⟨_, writes_writeVarint value, consumes_readVarint_signed value⟩
  | varlong => exact ⟨_, writes_writeVarlong value, consumes_readVarlong_signed value⟩
  | bytearray => exact ⟨_, writes_writeMcBytearray value, consumes_readMcBytearray h⟩
  | utf =>
    rcases h with ⟨b, hwrite⟩
    have hlen := writeMcUtf_eq_ok_iff.mp hwrite
    exact ⟨_, writes_writeMcUtf hlen, consumes_readMcUtf hlen⟩
  | ascii =>
    have hfits : Latin1.Fits value := fun c hc => Nat.lt_succ_of_le (h c hc).2
    exact ⟨_, writes_writeMcAscii hfits, consumes_readMcAscii_encode h⟩
  | optional kind ih =>
    cases value with
    | none => exact ⟨_, writes_writeMcOptional_none, consumes_readMcOptional_none⟩
    | some value =>
      rcases ih h with ⟨bytes, hwrite, hread⟩
      exact ⟨_, writes_writeMcOptional_some hwrite, consumes_readMcOptional_some hread⟩

end Kind

structure Item where
  kind : Kind
  value : kind.Value
  valid : kind.Valid value

def Item.content (item : Item) : (kind : Kind) × kind.Value :=
  ⟨item.kind, item.value⟩

def writeItems (items : List Item) : Io Buffer Unit :=
  match items with
  | [] => return
  | item :: items => do
    item.kind.write item.value
    writeItems items

def readItems (kinds : List Kind) : Io Buffer (List ((kind : Kind) × kind.Value)) :=
  match kinds with
  | [] => return []
  | kind :: kinds => do
    let value ← kind.read
    let values ← readItems kinds
    return ⟨kind, value⟩ :: values

theorem consumes_readItems_writeItems (items : List Item)
    : ∃ bytes, Writes (writeItems items) bytes
        ∧ Consumes Buffer.unread (readItems (items.map Item.kind)) bytes
          (items.map Item.content) := by
  induction items with
  | nil => exact ⟨[], Writes.pure, Consumes.pure []⟩
  | cons item items ih =>
    rcases item.kind.read_write item.valid with ⟨bytes, hwrite, hread⟩
    rcases ih with ⟨bytes', hwrite', hread'⟩
    refine ⟨bytes ++ bytes', hwrite.bind hwrite', hread.bind ?_⟩
    exact hread'.bind_done (Consumes.pure _)

theorem length_signedVarint_le (value : Int) {bits k : Nat} (hbits : bits ≤ 7 * k) (hk : 0 < k)
    : (signedVarint bits value).length ≤ k := by
  apply Varint.length_encode_le hk
  have hpow : 128 ^ k = 2 ^ (7 * k) := by rw [Nat.pow_mul]
  have hlt : (value % 2 ^ bits).toNat < 2 ^ bits := by
    have hpos : (0 : Int) < 2 ^ bits := Int.pow_pos (by decide)
    have := Int.emod_lt_of_pos value hpos
    have hcast : ((2 ^ bits : Nat) : Int) = 2 ^ bits := by simp
    have := Int.emod_nonneg value (Int.ne_of_gt hpos)
    omega
  rw [hpow]
  exact Nat.lt_of_lt_of_le hlt (Nat.pow_le_pow_right (by decide) hbits)

theorem readVaruint_go_le {σ : Type} [Read σ] {max_bits left i : Nat} {result u : UInt64} {s s' : σ}
    (h : readVaruint.go max_bits left i result s = .ok u s') : ¬ (u > valueMax max_bits) := by
  induction left generalizing i result s with
  | zero => cases h
  | succ left ih =>
    rw [readVaruint.go] at h
    rcases bind_eq_ok.mp h with ⟨byte, t, -, hstep⟩
    split at hstep
    . cases hstep
    . next hrange =>
      split at hstep
      . rw [pure_apply, EStateM.Result.ok.injEq] at hstep
        exact hstep.1 ▸ hrange
      . exact ih hstep

theorem fromTwosComplement_of_readVaruint_32 {σ : Type} [Read σ] {u : UInt64} {s s' : σ}
    (h : readVaruint 32 s = .ok u s') : ∃ v, fromTwosComplement u 32 = .ok v := by
  have hrange := readVaruint_go_le h
  have hmax : (valueMax 32).toNat = 2 ^ 32 - 1 := by decide
  rw [gt_iff_lt, UInt64.lt_iff_toNat_lt, hmax] at hrange
  rcases @fromTwosComplement_32 u (by omega) with ⟨v, hfrom, -⟩
  exact ⟨v, hfrom⟩

/--
Items written one after the other are read back, up to the bytes written after them. Numbers take
their shortest encoding, and none of the conversions they are unwrapped from fails.
-/
theorem readMcItems_writeMcItems
    : (∀ (items : List Item) (rest : List UInt8),
        ∃ b b', (do writeItems items; writeAll rest : Io Buffer Unit) Buffer.new = .ok () b
          ∧ readItems (items.map Item.kind) b = .ok (items.map Item.content) b'
          ∧ b'.unread = rest)
      ∧ (∀ value : Int32, ∃ bytes, Writes (writeVarint value) bytes
          ∧ Varint.Shortest (value.toInt % 2 ^ 32).toNat bytes ∧ bytes.length ≤ 5)
      ∧ (∀ value : Int64, ∃ bytes, Writes (writeVarlong value) bytes
          ∧ Varint.Shortest (value.toInt % 2 ^ 64).toNat bytes ∧ bytes.length ≤ 10)
      ∧ (∀ value : Int32, ∃ u, toTwosComplement value.toInt64 32 = .ok u)
      ∧ (∀ value : Int64, ∃ u, toTwosComplement value 64 = .ok u)
      ∧ (∀ (σ : Type) [Read σ] (s s' : σ) (u : UInt64), readVaruint 32 s = .ok u s' →
          ∃ v, fromTwosComplement u 32 = .ok v)
      ∧ ∀ (σ : Type) [Read σ] (s s' : σ) (u : UInt64), readVaruint 64 s = .ok u s' →
          ∃ v, fromTwosComplement u 64 = .ok v := by
  refine ⟨?_, ?_, ?_, ?_, ?_, ?_, ?_⟩
  . intro items rest
    rcases consumes_readItems_writeItems items with ⟨bytes, hwrite, hread⟩
    have hwritten := Writes.bind (f := fun _ => writeAll rest) hwrite (writes_writeAll rest)
    rcases hread (Buffer.new.extendFromSlice (bytes ++ rest)) rest rfl with ⟨b', hread, hrest⟩
    exact ⟨_, b', hwritten Buffer.new, hread, hrest⟩
  . intro value
    exact ⟨_, writes_writeVarint value, Varint.shortest_encode _,
      length_signedVarint_le _ (by decide) (by decide)⟩
  . intro value
    exact ⟨_, writes_writeVarlong value, Varint.shortest_encode _,
      length_signedVarint_le _ (by decide) (by decide)⟩
  . intro value
    rcases toTwosComplement_32 value with ⟨u, hto, -⟩
    exact ⟨u, hto⟩
  . intro value
    exact ⟨_, toTwosComplement_64 value⟩
  . intro σ _ s s' u hread
    exact fromTwosComplement_of_readVaruint_32 hread
  . intro σ _ s s' u _
    exact ⟨_, fromTwosComplement_64 u⟩

end Rust

end McStatus
