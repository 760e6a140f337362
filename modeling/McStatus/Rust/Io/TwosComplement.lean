import McStatus.Python.Io.Lemmas.TwosComplement
import McStatus.Rust.Io.Lemmas.TwosComplement

/-!
This module shows that the conversions to and from two's complement of `io.rs` are exact in up to 64
bits, and agree there with those of the Python library, which are exact in any number of bits.
-/

namespace McStatus

open TwosComplement

namespace Rust

/-- The conversions of `io.rs` in `bits` bits, beside those of `base_io.py`. -/
structure ExactForms (bits : Nat) : Prop where
  toTwosComplement_ok_iff : ∀ number,
    (∃ form, toTwosComplement number bits = .ok form) ↔ InRange bits number.toInt
  form_eq : ∀ number form, toTwosComplement number bits = .ok form →
    (form.toNat : Int) = number.toInt % 2 ^ bits
  fromTwosComplement_ok_iff : ∀ form,
    (∃ number, fromTwosComplement form bits = .ok number) ↔ form.toNat < 2 ^ bits
  inverse : ∀ number form,
    toTwosComplement number bits = .ok form ↔ fromTwosComplement form bits = .ok number
  toTwosComplement_python : ∀ number, (Python.toTwosComplement number.toInt bits).toOption
    = (toTwosComplement number bits).toOption.map fun form => (form.toNat : Int)
  fromTwosComplement_python : ∀ form, (Python.fromTwosComplement form.toNat bits).toOption
    = (fromTwosComplement form bits).toOption.map Int64.toInt

theorem toOption_eq_some_iff {α ε : Type} {x : Except ε α} {a : α}
    : x.toOption = some a ↔ x = .ok a := by
  cases x <;> simp [Except.toOption]

theorem inverse_of_le {bits : Nat} (hmin : 1 ≤ bits) (hmax : bits ≤ 64) (number : Int64)
    (form : UInt64)
    : toTwosComplement number bits = .ok form ↔ fromTwosComplement form bits = .ok number := by
  rw [toTwosComplement_eq_ok_iff hmin hmax, fromTwosComplement_eq_ok_iff hmin hmax,
    inRange_and_eq_emod_iff hmin]
  apply and_congr_left'
  have hcast : ((2 ^ bits : Nat) : Int) = 2 ^ bits := by simp
  omega

theorem toTwosComplement_python_of_le {bits : Nat} (hmin : 1 ≤ bits) (hmax : bits ≤ 64)
    (number : Int64)
    : (Python.toTwosComplement number.toInt bits).toOption
      = (toTwosComplement number bits).toOption.map fun form => (form.toNat : Int) := by
  ext form
  rw [toOption_eq_some_iff, Python.toTwosComplement_eq_ok_iff hmin, Option.map_eq_some_iff]
  constructor
  . rintro ⟨hrange, rfl⟩
    rcases exists_toTwosComplement hmin hmax hrange with ⟨form, hto⟩
    refine ⟨form, toOption_eq_some_iff.mpr hto, ?_⟩
    exact ((toTwosComplement_eq_ok_iff hmin hmax).mp hto).2
  . rintro ⟨form, hto, rfl⟩
    exact (toTwosComplement_eq_ok_iff hmin hmax).mp (toOption_eq_some_iff.mp hto)

theorem fromTwosComplement_python_of_le {bits : Nat} (hmin : 1 ≤ bits) (hmax : bits ≤ 64)
    (form : UInt64)
    : (Python.fromTwosComplement form.toNat bits).toOption
      = (fromTwosComplement form bits).toOption.map Int64.toInt := by
  have hform : (0 ≤ (form.toNat : Int) ∧ (form.toNat : Int) < 2 ^ bits)
      ↔ form.toNat < 2 ^ bits := by
    have hcast : ((2 ^ bits : Nat) : Int) = 2 ^ bits := by simp
    omega
  ext number
  rw [toOption_eq_some_iff, Python.fromTwosComplement_eq_ok_iff hmin, hform,
    Option.map_eq_some_iff]
  constructor
  . rintro ⟨hlt, rfl⟩
    rcases exists_fromTwosComplement hmin hmax hlt with ⟨number, hfrom⟩
    refine ⟨number, toOption_eq_some_iff.mpr hfrom, ?_⟩
    exact ((fromTwosComplement_eq_ok_iff hmin hmax).mp hfrom).2
  . rintro ⟨number, hfrom, rfl⟩
    exact (fromTwosComplement_eq_ok_iff hmin hmax).mp (toOption_eq_some_iff.mp hfrom)

theorem twosComplement_exact {bits : Nat} (hbits : 1 ≤ bits)
    : (bits ≤ 64 → ExactForms bits)
      ∧ ∀ number form, Python.toTwosComplement number bits = .ok form
        ↔ Python.fromTwosComplement form bits = .ok number := by
  refine ⟨fun hmax => ?_, fun number form => ?_⟩
  . constructor
    . intro number
      constructor
      . rintro ⟨form, hto⟩
        exact ((toTwosComplement_eq_ok_iff hbits hmax).mp hto).1
      . exact exists_toTwosComplement hbits hmax
    . intro number form hto
      exact ((toTwosComplement_eq_ok_iff hbits hmax).mp hto).2
    . intro form
      constructor
      . rintro ⟨number, hfrom⟩
        exact ((fromTwosComplement_eq_ok_iff hbits hmax).mp hfrom).1
      . exact exists_fromTwosComplement hbits hmax
    . exact inverse_of_le hbits hmax
    . exact toTwosComplement_python_of_le hbits hmax
    . exact fromTwosComplement_python_of_le hbits hmax
  . exact Python.toTwosComplement_iff_fromTwosComplement hbits

/-- The width at which every power of two above it leaves the word. -/
theorem twosComplement_exact_word
    : (64 ≤ 64 → ExactForms 64)
      ∧ ∀ number form, Python.toTwosComplement number 64 = .ok form
        ↔ Python.fromTwosComplement form 64 = .ok number :=
  twosComplement_exact (by decide)

end Rust

end McStatus
