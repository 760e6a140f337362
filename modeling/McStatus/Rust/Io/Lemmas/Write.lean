import McStatus.Library.Varint
import McStatus.Rust.Io.Buffer
import McStatus.Rust.Io.Lemmas.TwosComplement

/-!
This module contains the bytes behind the writers of a `Buffer`.
-/

namespace McStatus

open Reader

namespace Rust

/-- `x` writes `bytes` to the end of any buffer. -/
def Writes (x : Io Buffer Unit) (bytes : List UInt8) : Prop :=
  ∀ b, x b = .ok () (b.extendFromSlice bytes)

theorem Buffer.extendFromSlice_append (b : Buffer) (bytes bytes' : List UInt8)
    : (b.extendFromSlice bytes).extendFromSlice bytes' = b.extendFromSlice (bytes ++ bytes') := by
  simp [Buffer.extendFromSlice]

theorem Buffer.extendFromSlice_nil (b : Buffer) : b.extendFromSlice [] = b := by
  simp [Buffer.extendFromSlice]

theorem Writes.pure : Writes (pure ()) [] := by
  intro b
  rw [pure_apply, Buffer.extendFromSlice_nil]

theorem Writes.bind {x : Io Buffer Unit} {f : Unit → Io Buffer Unit} {bytes bytes' : List UInt8}
    (hx : Writes x bytes) (hf : Writes (f ()) bytes') : Writes (x >>= f) (bytes ++ bytes') := by
  intro b
  rw [bind_of_ok (hx b), hf, Buffer.extendFromSlice_append]

theorem writes_writeAll (bytes : List UInt8) : Writes (writeAll bytes) bytes := by
  intro b
  rw [writeAll]
  split
  . next hnil =>
    rw [hnil, Buffer.extendFromSlice_nil]
    rfl
  . next hcons =>
    have hwrite : Write.write bytes b = .ok bytes.length (b.extendFromSlice bytes) := rfl
    have hlen : bytes.length ≠ 0 := fun hzero => hcons (List.length_eq_zero_iff.mp hzero)
    rw [bind_of_ok hwrite, if_neg hlen, List.drop_length, writeAll, if_pos rfl]
    rfl

theorem writes_unwrap {α : Type} {x : Except String α} {a : α} {f : α → Io Buffer Unit}
    {bytes : List UInt8} (hx : x = .ok a) (hf : Writes (f a) bytes)
    : Writes (unwrap x >>= f) bytes := by
  intro b
  subst hx
  exact hf b

theorem and_not_low_eq_zero_iff (n : UInt64) : n &&& ~~~0x7F = 0 ↔ n.toNat < 128 := by
  have hhigh : (~~~(0x7F : UInt64)).toNat = 2 ^ 64 - 128 := by decide
  have hlow : n.toNat &&& 127 = n.toNat % 128 := Nat.and_two_pow_sub_one_eq_mod n.toNat 7
  have hall : n.toNat &&& (2 ^ 64 - 1) = n.toNat :=
    Nat.and_two_pow_sub_one_of_lt_two_pow n.toNat_lt
  rw [← UInt64.toNat_inj, UInt64.toNat_and, hhigh, UInt64.toNat_zero]
  constructor
  . intro hzero
    have hsplit : 2 ^ 64 - 1 = 127 ||| (2 ^ 64 - 128) := by decide
    rw [hsplit, Nat.and_or_distrib_left, hzero, Nat.or_zero, hlow] at hall
    omega
  . intro hlt
    have hdisjoint : 127 &&& (2 ^ 64 - 128) = 0 := by decide
    rw [← Nat.mod_eq_of_lt hlt, ← hlow, Nat.and_assoc, hdisjoint, Nat.and_zero]

theorem writes_writeVaruint_go (n : UInt64)
    : Writes (writeVaruint.go n : Io Buffer Unit) (Varint.encode n.toNat) := by
  have hshift : (n >>> 7).toNat = n.toNat / 128 := by
    rw [UInt64.toNat_shiftRight]
    exact Nat.shiftRight_eq_div_pow n.toNat 7
  rw [writeVaruint.go, Varint.encode]
  by_cases hlt : n.toNat < 128
  . have hbyte : n.toUInt8 = UInt8.ofNat n.toNat := rfl
    rw [if_pos ((and_not_low_eq_zero_iff n).mpr hlt), if_pos hlt, hbyte]
    exact writes_writeAll _
  . have hlow : n.toNat &&& 127 = n.toNat % 128 := Nat.and_two_pow_sub_one_eq_mod n.toNat 7
    have hbyte : ((n &&& 0x7F) ||| 0x80).toUInt8 = UInt8.ofNat (n.toNat % 128 + 128) := by
      have hor : ((n &&& 0x7F) ||| 0x80).toNat = n.toNat % 128 + 128 := by
        rw [UInt64.toNat_or, UInt64.toNat_and]
        exact hlow ▸ low_or_flag n.toNat
      apply UInt8.toNat_inj.mp
      rw [UInt64.toNat_toUInt8, hor, UInt8.toNat_ofNat']
    rw [if_neg (by rw [and_not_low_eq_zero_iff]; exact hlt), if_neg hlt, hbyte,
      ← List.singleton_append, ← hshift]
    exact (writes_writeAll _).bind (writes_writeVaruint_go (n >>> 7))
termination_by n.toNat
decreasing_by
  rw [UInt64.toNat_shiftRight, Nat.shiftRight_eq_div_pow]
  apply Nat.div_lt_self
  . omega
  . decide

theorem writes_writeVaruint_32 {u : UInt64} (h : u.toNat < 2 ^ 32)
    : Writes (writeVaruint u 32) (Varint.encode u.toNat) := by
  have hrange : ¬ (u > valueMax 32) := by
    have hmax : (valueMax 32).toNat = 2 ^ 32 - 1 := by decide
    rw [gt_iff_lt, UInt64.lt_iff_toNat_lt, hmax]
    omega
  rw [writeVaruint, if_neg hrange]
  exact writes_writeVaruint_go u

theorem writes_writeVaruint_64 (u : UInt64)
    : Writes (writeVaruint u 64) (Varint.encode u.toNat) := by
  have hrange : ¬ (u > valueMax 64) := by
    have hmax : (valueMax 64).toNat = 2 ^ 64 - 1 := by decide
    have hlt := u.toNat_lt
    rw [gt_iff_lt, UInt64.lt_iff_toNat_lt, hmax]
    omega
  rw [writeVaruint, if_neg hrange]
  exact writes_writeVaruint_go u

def signedVarint (bits : Nat) (value : Int) : List UInt8 :=
  Varint.encode (value % 2 ^ bits).toNat

theorem writes_writeVarint (value : Int32)
    : Writes (writeVarint value) (signedVarint 32 value.toInt) := by
  rcases toTwosComplement_32 value with ⟨u, hto, hu⟩
  have hlt : u.toNat < 2 ^ 32 := by omega
  have hvalue : (value.toInt % 2 ^ 32).toNat = u.toNat := by omega
  rw [signedVarint, hvalue]
  exact writes_unwrap hto (writes_writeVaruint_32 hlt)

theorem writes_writeVarlong (value : Int64)
    : Writes (writeVarlong value) (signedVarint 64 value.toInt) := by
  have hvalue : (value.toInt % 2 ^ 64).toNat = value.toUInt64.toNat := by
    have := toNat_toUInt64 value
    omega
  rw [signedVarint, hvalue]
  exact writes_unwrap (toTwosComplement_64 value) (writes_writeVaruint_64 _)

end Rust

end McStatus
