import McStatus.Library.Bits

/-!
This module contains the two's complement form of an integer, in any number of bits: what it leaves
modulo the power of two.
-/

namespace McStatus

namespace TwosComplement

def InRange (bits : Nat) (number : Int) : Prop :=
  -2 ^ (bits - 1) ≤ number ∧ number < 2 ^ (bits - 1)

instance (bits : Nat) (number : Int) : Decidable (InRange bits number) :=
  inferInstanceAs (Decidable (_ ∧ _))

/-- The integer of a form, which is negative in the upper half of the forms. -/
def decode (bits : Nat) (form : Int) : Int :=
  if form < 2 ^ (bits - 1) then form else form - 2 ^ bits

variable {bits : Nat} {number form : Int}

theorem int_two_pow_eq_twice (hbits : 1 ≤ bits) : (2 : Int) ^ bits = 2 * 2 ^ (bits - 1) := by
  rw [← Int.pow_succ', Nat.sub_add_cancel hbits]

theorem int_two_pow_pos (bits : Nat) : (0 : Int) < 2 ^ bits :=
  Int.pow_pos (by omega)

theorem emod_of_inRange (hbits : 1 ≤ bits) (h : InRange bits number)
    : number % 2 ^ bits = if number < 0 then number + 2 ^ bits else number := by
  have hpow := int_two_pow_eq_twice hbits
  have hpos := int_two_pow_pos (bits - 1)
  rcases h with ⟨hmin, hmax⟩
  split
  . rw [← Int.add_emod_right]
    exact Int.emod_eq_of_lt (by omega) (by omega)
  . exact Int.emod_eq_of_lt (by omega) (by omega)

theorem inRange_and_eq_emod_iff (hbits : 1 ≤ bits)
    : InRange bits number ∧ form = number % 2 ^ bits
      ↔ (0 ≤ form ∧ form < 2 ^ bits) ∧ number = decode bits form := by
  have hpow := int_two_pow_eq_twice hbits
  have hpos := int_two_pow_pos (bits - 1)
  constructor
  . rintro ⟨hrange, rfl⟩
    rw [emod_of_inRange hbits hrange, decode]
    rcases hrange with ⟨hmin, hmax⟩
    by_cases hneg : number < 0
    . rw [if_pos hneg, if_neg (by omega)]
      omega
    . rw [if_neg hneg, if_pos hmax]
      omega
  . rintro ⟨⟨hnonneg, hlt⟩, rfl⟩
    have hrange : InRange bits (decode bits form) := by
      rw [InRange, decode]
      split <;> omega
    refine ⟨hrange, ?_⟩
    rw [emod_of_inRange hbits hrange, decode]
    by_cases hlow : form < 2 ^ (bits - 1)
    . rw [if_pos hlow, if_neg (by omega)]
    . rw [if_neg hlow, if_pos (by omega)]
      omega

end TwosComplement

end McStatus
