import Mathlib.Algebra.Ring.Int.Defs
import Mathlib.Algebra.Ring.Nat
import Mathlib.Data.List.Basic

/-!
This module contains the two text encodings the protocols use, and the case of letters. Text is a
list of Unicode scalar values, bytes are lists of `UInt8`.
-/

namespace McStatus

def utf8Len (s : List Char) : Nat :=
  (s.map Char.utf8Size).sum

@[simp]
theorem utf8Len_nil : utf8Len [] = 0 := rfl

@[simp]
theorem utf8Len_cons (c : Char) (s : List Char) : utf8Len (c :: s) = c.utf8Size + utf8Len s := by
  simp [utf8Len]

@[simp]
theorem utf8Len_append (s t : List Char) : utf8Len (s ++ t) = utf8Len s + utf8Len t := by
  simp [utf8Len]

theorem utf8Len_le (s : List Char) : utf8Len s ≤ 4 * s.length := by
  induction s with
  | nil => exact Nat.le_refl _
  | cons c s ih =>
    have := c.utf8Size_le_four
    rw [utf8Len_cons, List.length_cons]
    omega

theorem length_le_utf8Len (s : List Char) : s.length ≤ utf8Len s := by
  induction s with
  | nil => simp
  | cons c s ih =>
    have := c.utf8Size_pos
    simp only [List.length_cons, utf8Len_cons]
    omega

theorem utf8Len_eq_zero_iff {s : List Char} : utf8Len s = 0 ↔ s = [] := by
  constructor
  . intro h
    have := length_le_utf8Len s
    exact List.length_eq_zero_iff.mp (by omega)
  . rintro rfl
    exact utf8Len_nil

namespace Utf8

def encode (s : List Char) : List UInt8 :=
  s.flatMap String.utf8EncodeChar

/-- Strict UTF-8 decoding: overlong forms, surrogates and cut off sequences are refused. -/
def decode? (bs : List UInt8) : Option (List Char) :=
  bs.toByteArray.utf8Decode?.map Array.toList

@[simp]
theorem decode?_encode (s : List Char) : decode? (encode s) = some s := by
  have h : (encode s).toByteArray = s.utf8Encode := rfl
  simp [decode?, h]

theorem encode_of_decode? {bs : List UInt8} {s : List Char} (h : decode? bs = some s)
    : encode s = bs := by
  simp only [decode?, Option.map_eq_some_iff] at h
  rcases h with ⟨a, ha, rfl⟩
  have hsome : bs.toByteArray.utf8Decode?.isSome := by simp [ha]
  have hget : bs.toByteArray.utf8Decode?.get hsome = a := by simp [ha]
  have henc := ByteArray.utf8Encode_get_utf8Decode? (h := hsome)
  rw [hget] at henc
  exact List.toByteArray_inj.mp henc

theorem length_encode (s : List Char) : (encode s).length = utf8Len s := by
  simp [encode, utf8Len]

theorem ofNat_ne_zero {n : Nat} (h : 0 < n % 256) : 0 ≠ UInt8.ofNat n := by
  intro heq
  have htoNat := congrArg UInt8.toNat heq
  rw [UInt8.toNat_ofNat'] at htoNat
  have hzero : (0 : UInt8).toNat = 0 := rfl
  omega

theorem zero_not_mem_utf8EncodeChar {c : Char} (h : c ≠ '\x00') : 0 ∉ String.utf8EncodeChar c := by
  have hpos : 0 < c.val.toNat := by
    by_contra hzero
    apply h
    apply Char.ext
    apply UInt32.toNat_inj.mp
    have hnul : ('\x00'.val).toNat = 0 := rfl
    omega
  rw [String.utf8EncodeChar]
  split
  . rw [List.mem_singleton]
    exact ofNat_ne_zero (by omega)
  . split
    . simp only [List.mem_cons, List.not_mem_nil, or_false, not_or]
      refine ⟨?_, ?_⟩ <;> exact ofNat_ne_zero (by omega)
    . split
      . simp only [List.mem_cons, List.not_mem_nil, or_false, not_or]
        refine ⟨?_, ?_, ?_⟩ <;> exact ofNat_ne_zero (by omega)
      . simp only [List.mem_cons, List.not_mem_nil, or_false, not_or]
        refine ⟨?_, ?_, ?_, ?_⟩ <;> exact ofNat_ne_zero (by omega)

theorem zero_not_mem_encode {s : List Char} (h : '\x00' ∉ s) : 0 ∉ encode s := by
  rw [encode, List.mem_flatMap]
  rintro ⟨c, hc, hzero⟩
  exact zero_not_mem_utf8EncodeChar (fun heq => h (heq ▸ hc)) hzero

end Utf8

namespace Latin1

def char (b : UInt8) : Char :=
  Char.ofNat b.toNat

def decode (bs : List UInt8) : List Char :=
  bs.map char

def encode (s : List Char) : List UInt8 :=
  s.map fun c => UInt8.ofNat c.toNat

theorem char_toNat (b : UInt8) : (char b).toNat = b.toNat := by
  have hb := b.toNat_lt
  have hvalid : b.toNat.isValidChar := Or.inl (by omega)
  rw [char, Char.ofNat, dif_pos hvalid]
  rfl

theorem char_inj {b c : UInt8} (h : char b = char c) : b = c := by
  apply UInt8.toNat_inj.mp
  rw [← char_toNat, ← char_toNat, h]

theorem utf8Size_char (b : UInt8) : (char b).utf8Size = if b < 0x80 then 1 else 2 := by
  have hval : (char b).val.toNat = b.toNat := char_toNat b
  have hb := b.toNat_lt
  simp only [Char.utf8Size, UInt32.le_iff_toNat_le, UInt8.lt_iff_toNat_lt, hval]
  simp
  split
  . split <;> omega
  . split <;> split <;> omega

@[simp]
theorem length_decode (bs : List UInt8) : (decode bs).length = bs.length := by
  simp [decode]

theorem decode_inj {bs cs : List UInt8} (h : decode bs = decode cs) : bs = cs :=
  List.map_injective_iff.mpr (fun _ _ => char_inj) h

@[simp]
theorem decode_eq_nil {bs : List UInt8} : decode bs = [] ↔ bs = [] := by
  simp [decode]

/-- Every character of `s` is one byte. -/
def Fits (s : List Char) : Prop :=
  ∀ c ∈ s, c.toNat < 256

instance (s : List Char) : Decidable (Fits s) :=
  List.decidableBAll (fun c : Char => c.toNat < 256) s

theorem decode_encode {s : List Char} (h : Fits s) : decode (encode s) = s := by
  simp only [decode, encode, List.map_map]
  conv => rhs; rw [← List.map_id s]
  apply List.map_congr_left
  intro c hc
  have := h c hc
  simp only [Function.comp_apply, id_eq, char, UInt8.toNat_ofNat']
  rw [Nat.mod_eq_of_lt (by simpa using this), Char.ofNat_toNat]

theorem zero_not_mem_encode {s : List Char} (h : Fits s) (hpos : ∀ c ∈ s, 1 ≤ c.toNat)
    : 0 ∉ encode s := by
  intro hmem
  rcases List.mem_map.mp hmem with ⟨c, hc, hzero⟩
  have htoNat := congrArg UInt8.toNat hzero
  have hlt := h c hc
  have hge := hpos c hc
  rw [UInt8.toNat_ofNat', Nat.mod_eq_of_lt (by simpa using hlt), UInt8.toNat_zero] at htoNat
  omega

theorem decode_eq_iff {bs : List UInt8} {s : List Char} (h : Fits s)
    : decode bs = s ↔ bs = encode s := by
  constructor
  . intro hdecode
    apply decode_inj
    rw [hdecode, decode_encode h]
  . rintro rfl
    exact decode_encode h

theorem utf8Len_decode (text : List UInt8)
    : utf8Len (decode text) = text.length + text.countP (0x80 ≤ ·) := by
  induction text with
  | nil => rfl
  | cons b t ih =>
    simp only [decode, List.map_cons, utf8Len_cons, utf8Size_char,
      List.length_cons, List.countP_cons, decide_eq_true_eq] at ih ⊢
    rw [ih]
    by_cases hb : b < 0x80
    . have : ¬ (0x80 ≤ b) := by simpa using hb
      simp only [hb, ↓reduceIte, this]
      omega
    . have : 0x80 ≤ b := by simpa using hb
      simp only [hb, ↓reduceIte, this]
      omega

theorem utf8EncodeChar_char {b : UInt8} (h : b < 0x80)
    : String.utf8EncodeChar (char b) = [b] := by
  have hval : (char b).val.toNat = b.toNat := char_toNat b
  have hlt : b.toNat < 0x80 := by simpa [UInt8.lt_iff_toNat_lt] using h
  simp only [String.utf8EncodeChar, hval]
  rw [if_pos (by omega), UInt8.ofNat_toNat]

theorem utf8_encode_decode {bs : List UInt8} (h : ∀ b ∈ bs, b < 0x80)
    : Utf8.encode (decode bs) = bs := by
  induction bs with
  | nil => rfl
  | cons b bs ih =>
    have hb := utf8EncodeChar_char (h b List.mem_cons_self)
    have ih := ih fun c hc => h c (List.mem_cons_of_mem b hc)
    simp only [decode, Utf8.encode, List.map_cons, List.flatMap_cons, hb] at ih ⊢
    rw [ih]
    rfl

theorem utf8_getD_eq_decode_iff {bs : List UInt8}
    : (Utf8.decode? bs).getD [] = decode bs ↔ ∀ b ∈ bs, b < 0x80 := by
  constructor
  . intro h
    cases hs : Utf8.decode? bs with
    | none =>
      rw [hs, Option.getD_none] at h
      simp [decode_eq_nil.mp h.symm]
    | some s =>
      rw [hs, Option.getD_some] at h
      have hlen := congrArg List.length (Utf8.encode_of_decode? hs)
      rw [Utf8.length_encode, h, utf8Len_decode] at hlen
      have hcount : bs.countP (0x80 ≤ ·) = 0 := by omega
      simpa [List.countP_eq_zero] using hcount
  . intro h
    have hdecode := Utf8.decode?_encode (decode bs)
    rw [utf8_encode_decode h] at hdecode
    simp [hdecode]

end Latin1

theorem eq_toLower_or_toUpper (c : Char) : c = c.toLower ∨ c = c.toLower.toUpper := by
  by_cases h : c.val ≥ 'A'.val ∧ c.val ≤ 'Z'.val
  . right
    have hall : ∀ n < 26, Char.ofNat (65 + n) = (Char.ofNat (65 + n)).toLower.toUpper := by decide
    have hlow : 65 ≤ c.toNat := h.1
    have hhigh : c.toNat ≤ 90 := h.2
    have hc := hall (c.toNat - 65) (by omega)
    rwa [Nat.add_sub_cancel' hlow, Char.ofNat_toNat] at hc
  . left
    delta Char.toLower
    rw [dif_neg h]

theorem mem_of_toLower_mem {c : Char} {letters : List Char} (h : c.toLower ∈ letters)
    : c ∈ letters ++ letters.map Char.toUpper := by
  rcases eq_toLower_or_toUpper c with hc | hc
  . rw [hc]
    exact List.mem_append_left _ h
  . rw [hc]
    exact List.mem_append_right _ (List.mem_map.mpr ⟨_, h, rfl⟩)

theorem eq_toUpper_or_toLower (c : Char) : c = c.toUpper ∨ c = c.toUpper.toLower := by
  by_cases h : 'a'.val ≤ c.val ∧ c.val ≤ 'z'.val
  . right
    have hall : ∀ n < 26, Char.ofNat (97 + n) = (Char.ofNat (97 + n)).toUpper.toLower := by decide
    have hlow : 97 ≤ c.toNat := h.1
    have hhigh : c.toNat ≤ 122 := h.2
    have hc := hall (c.toNat - 97) (by omega)
    rwa [Nat.add_sub_cancel' hlow, Char.ofNat_toNat] at hc
  . left
    delta Char.toUpper
    rw [dif_neg h]

theorem mem_of_toUpper_mem {c : Char} {letters : List Char} (h : c.toUpper ∈ letters)
    : c ∈ letters ++ letters.map Char.toLower := by
  rcases eq_toUpper_or_toLower c with hc | hc
  . rw [hc]
    exact List.mem_append_left _ h
  . rw [hc]
    exact List.mem_append_right _ (List.mem_map.mpr ⟨_, h, rfl⟩)

def charRange (a b : Char) : List Char :=
  (List.range' a.toNat (b.toNat + 1 - a.toNat)).map Char.ofNat

theorem mem_charRange {a b c : Char} (ha : a ≤ c) (hb : c ≤ b) : c ∈ charRange a b := by
  have hlow : a.toNat ≤ c.toNat := ha
  have hhigh : c.toNat ≤ b.toNat := hb
  apply List.mem_map.mpr
  refine ⟨c.toNat, ?_, Char.ofNat_toNat c⟩
  rw [List.mem_range'_1]
  omega

end McStatus
