import McStatus.Library.TwosComplement
import McStatus.Python.Io.BaseIo

/-!
This module contains what the conversions to and from two's complement do.
-/

namespace McStatus

namespace Python

open TwosComplement

theorem toNat_emod_two_pow (value : Int) (bits : Nat)
    : (((value % 2 ^ bits).toNat : Nat) : Int) = value % 2 ^ bits := by
  have hpos : (0 : Int) < 2 ^ bits := Int.pow_pos (by omega)
  exact Int.toNat_of_nonneg (Int.emod_nonneg value (by omega))

theorem toNat_emod_two_pow_lt (value : Int) (bits : Nat)
    : (value % 2 ^ bits).toNat < 2 ^ bits := by
  have hpos : (0 : Int) < 2 ^ bits := Int.pow_pos (by omega)
  have hlt := Int.emod_lt_of_pos value hpos
  have hcast : ((2 ^ bits : Nat) : Int) = 2 ^ bits := by simp
  have := toNat_emod_two_pow value bits
  omega

variable {bits : Nat} {number form : Int}

theorem toTwosComplement_eq_ok_iff (hbits : 1 ≤ bits)
    : toTwosComplement number bits = .ok form ↔ InRange bits number ∧ form = number % 2 ^ bits := by
  have hrange : (number ≥ 2 ^ (bits - 1) ∨ number < 2 ^ (bits - 1) * -1)
      ↔ ¬ InRange bits number := by
    rw [InRange]
    omega
  unfold toTwosComplement
  dsimp only
  split
  . next hout =>
    rw [hrange] at hout
    exact iff_of_false (fun h => by cases h) fun h => hout h.1
  . next hin =>
    rw [hrange, not_not] at hin
    rw [Except.ok.injEq, emod_of_inRange hbits hin, and_iff_right hin, eq_comm]

theorem fromTwosComplement_eq_ok_iff (hbits : 1 ≤ bits)
    : fromTwosComplement form bits = .ok number
      ↔ (0 ≤ form ∧ form < 2 ^ bits) ∧ number = decode bits form := by
  have hpow := int_two_pow_eq_twice hbits
  have hcast : ((2 ^ bits : Nat) : Int) = 2 ^ bits := by simp
  have hcast' : ((2 ^ (bits - 1) : Nat) : Int) = 2 ^ (bits - 1) := by simp
  unfold fromTwosComplement
  dsimp only
  split
  . next hout => exact iff_of_false nofun fun h => by omega
  . next hin =>
    have hsign := @and_sign_ne_zero_iff bits form.toNat hbits (by omega)
    have hrange : 0 ≤ form ∧ form < 2 ^ bits := by omega
    rw [Except.ok.injEq, and_iff_right hrange, decode, eq_comm]
    by_cases hlow : form < 2 ^ (bits - 1)
    . rw [if_pos hlow, if_neg (by rw [hsign]; omega)]
    . rw [if_neg hlow, if_pos (hsign.mpr (by omega))]

theorem toTwosComplement_iff_fromTwosComplement (hbits : 1 ≤ bits)
    : toTwosComplement number bits = .ok form ↔ fromTwosComplement form bits = .ok number := by
  rw [toTwosComplement_eq_ok_iff hbits, fromTwosComplement_eq_ok_iff hbits]
  exact inRange_and_eq_emod_iff hbits

theorem toTwosComplement_of_inRange (hbits : 1 ≤ bits) (hmin : -2 ^ (bits - 1) ≤ number)
    (hmax : number < 2 ^ (bits - 1)) : toTwosComplement number bits = .ok (number % 2 ^ bits) :=
  (toTwosComplement_eq_ok_iff hbits).mpr ⟨⟨hmin, hmax⟩, rfl⟩

theorem fromTwosComplement_emod (hbits : 1 ≤ bits) (hmin : -2 ^ (bits - 1) ≤ number)
    (hmax : number < 2 ^ (bits - 1)) : fromTwosComplement (number % 2 ^ bits) bits = .ok number :=
  (toTwosComplement_iff_fromTwosComplement hbits).mp (toTwosComplement_of_inRange hbits hmin hmax)

end Python

end McStatus
