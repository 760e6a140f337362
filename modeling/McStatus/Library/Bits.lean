import Mathlib.Data.Nat.Bitwise

/-!
This module contains the arithmetic behind masks and shifts.
-/

namespace McStatus

theorem toNat_and_low (b : UInt8) : b.toNat &&& 0x7F = b.toNat % 128 :=
  Nat.and_two_pow_sub_one_eq_mod b.toNat 7

theorem toNat_and_high_eq_zero_iff (b : UInt8) : b.toNat &&& 0x80 = 0 ↔ b.toNat < 128 := by
  have hall : ∀ n < 256, n &&& 0x80 = 0 ↔ n < 128 := by decide +kernel
  exact hall b.toNat b.toNat_lt

theorem or_shiftLeft_of_lt {n k : Nat} (h : n < 2 ^ k) (m : Nat)
    : n ||| (m <<< k) = n + m * 2 ^ k := by
  rw [Nat.or_comm, Nat.shiftLeft_eq, Nat.mul_comm, ← Nat.two_pow_add_eq_or_of_lt h, Nat.add_comm]

theorem low_or_flag (n : Nat) : n % 128 ||| 0x80 = n % 128 + 128 :=
  or_shiftLeft_of_lt (Nat.mod_lt n (by decide : 2 ^ 7 > 0)) 1

theorem or_shiftLeft_mod {n k w : Nat} (h : n < 2 ^ k) (hk : k ≤ w) (m : Nat)
    : n ||| ((m <<< k) % 2 ^ w) = (n + m * 2 ^ k) % 2 ^ w := by
  have hpow : 2 ^ w = 2 ^ (w - k) * 2 ^ k := by rw [← Nat.pow_add, Nat.sub_add_cancel hk]
  have hlow : (m <<< k) % 2 ^ w = (m % 2 ^ (w - k)) <<< k := by
    rw [Nat.shiftLeft_eq, Nat.shiftLeft_eq, hpow, Nat.mul_mod_mul_right]
  have hlt : n + m % 2 ^ (w - k) * 2 ^ k < 2 ^ w := by
    have hmod : m % 2 ^ (w - k) + 1 ≤ 2 ^ (w - k) := Nat.mod_lt _ (Nat.two_pow_pos _)
    have := Nat.mul_le_mul_right (2 ^ k) hmod
    rw [← hpow, Nat.add_mul, Nat.one_mul] at this
    omega
  rw [hlow, or_shiftLeft_of_lt h, ← Nat.mod_eq_of_lt hlt, ← Nat.shiftLeft_eq (m % _), ← hlow,
    Nat.shiftLeft_eq, Nat.add_mod_mod]

theorem toNat_or_group {i : Nat} {result : UInt64} (b : UInt8) (hi : i ≤ 9)
    (hresult : result.toNat < 2 ^ (7 * i))
    : (result ||| ((b &&& 0x7F).toUInt64 <<< UInt64.ofNat (7 * i))).toNat
        = (result.toNat + b.toNat % 128 * 2 ^ (7 * i)) % 2 ^ 64 := by
  have hlow : (b &&& 0x7F).toUInt64.toNat = b.toNat % 128 := by
    rw [UInt8.toNat_toUInt64, UInt8.toNat_and]
    exact toNat_and_low b
  have hshift : (UInt64.ofNat (7 * i)).toNat % 64 = 7 * i := by
    rw [UInt64.toNat_ofNat']
    omega
  rw [UInt64.toNat_or, UInt64.toNat_shiftLeft, hlow, hshift, or_shiftLeft_mod hresult (by omega)]

theorem and_high_eq_zero_iff (b : UInt8) : b &&& 0x80 = 0 ↔ b.toNat < 128 := by
  rw [← UInt8.toNat_inj, UInt8.toNat_and]
  exact toNat_and_high_eq_zero_iff b

theorem two_pow_eq_twice {bits : Nat} (hbits : 1 ≤ bits) : 2 ^ bits = 2 * 2 ^ (bits - 1) := by
  rw [← Nat.pow_succ', Nat.succ_eq_add_one, Nat.sub_add_cancel hbits]

theorem and_sign_ne_zero_iff {bits n : Nat} (hbits : 1 ≤ bits) (h : n < 2 ^ bits)
    : n &&& (1 <<< (bits - 1)) ≠ 0 ↔ 2 ^ (bits - 1) ≤ n := by
  have htwice := two_pow_eq_twice hbits
  have hpos := Nat.two_pow_pos (bits - 1)
  rw [Nat.one_shiftLeft, Nat.and_two_pow, Nat.testBit_eq_decide_div_mod_eq]
  by_cases hge : 2 ^ (bits - 1) ≤ n
  . have hdiv : n / 2 ^ (bits - 1) = 1 := Nat.div_eq_of_lt_le (by omega) (by omega)
    simp [hdiv, hge]
  . have hdiv : n / 2 ^ (bits - 1) = 0 := Nat.div_eq_of_lt (by omega)
    simp [hdiv, hge]

end McStatus
