import McStatus.Library.Numeral
import McStatus.Rust.Basic

/-!
This module contains the decimal numbers that `str::parse` reads back as they were printed.
-/

namespace McStatus

namespace Rust

theorem decimal?_eq_readFrom (digits : List Char)
    : decimal? digits = Numeral.readFrom 10 0 digits := by
  unfold decimal?
  generalize 0 = start
  induction digits generalizing start with
  | nil => rfl
  | cons c digits ih =>
    rw [List.foldlM_cons, Numeral.readFrom]
    by_cases hdigit : c.isDigit = true
    . rcases Numeral.digit?_of_isDigit hdigit with ⟨hvalue, hlt⟩
      rw [if_pos hdigit, hvalue]
      dsimp only
      rw [if_pos hlt, ← ih]
      rfl
    . rw [if_neg hdigit]
      cases hvalue : Numeral.digit? c with
      | none => rfl
      | some d =>
        have hle : ¬ d < 10 := fun hlt => hdigit (Numeral.isDigit_of_digit? hvalue hlt)
        dsimp only
        rw [if_neg hle]
        rfl

theorem parseUnsigned_of_nat? {size n : Nat} {s : List Char} (h : Numeral.nat? 10 s = some n)
    (hlt : n < size) : parseUnsigned size s = some n := by
  rcases Numeral.nat?_eq_some_iff.mp h with ⟨hne, hread⟩
  unfold parseUnsigned
  split
  . exact absurd (Numeral.isDigit_of_readFrom hread '+' List.mem_cons_self) (by decide)
  . rw [if_neg (by simpa using hne), decimal?_eq_readFrom, hread]
    simp [hlt]

theorem parseU32_digits (number : Numeral.Decimal UInt32.size)
    : parseU32 number.digits = some (.ofNat number.value) := by
  rw [parseU32, parseUnsigned_of_nat? number.reads number.value_lt, Option.map_some]

theorem parseU16_digits (number : Numeral.Decimal UInt16.size)
    : parseU16 number.digits = some (.ofNat number.value) := by
  rw [parseU16, parseUnsigned_of_nat? number.reads number.value_lt, Option.map_some]

theorem parseU32_toDigits (n : UInt32) : parseU32 (Nat.toDigits 10 n.toNat) = some n := by
  have hdigits := parseU32_digits (.ofNat n.toNat n.toNat_lt)
  rwa [Numeral.Decimal.ofNat, UInt32.ofNat_toNat] at hdigits

theorem parseU16_toDigits (n : UInt16) : parseU16 (Nat.toDigits 10 n.toNat) = some n := by
  have hdigits := parseU16_digits (.ofNat n.toNat n.toNat_lt)
  rwa [Numeral.Decimal.ofNat, UInt16.ofNat_toNat] at hdigits

end Rust

end McStatus
