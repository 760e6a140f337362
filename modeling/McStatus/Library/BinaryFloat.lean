import Mathlib.Algebra.Ring.Int.Defs
import Mathlib.Algebra.Ring.Nat
import Mathlib.Data.Nat.Bitwise
import Mathlib.Data.Nat.Log

/-!
This module contains binary floating-point formats and the conversions between them. Every finite
number of a format is a multiple of its smallest one, and that multiple is a natural number.
-/

namespace McStatus

namespace BinaryFloat

/-- The widths of the fields, under a sign bit. -/
structure Format where
  exponent : Nat
  mantissa : Nat
  deriving DecidableEq, Repr

def Format.half : Format where
  exponent := 5
  mantissa := 10

def Format.single : Format where
  exponent := 8
  mantissa := 23

def Format.double : Format where
  exponent := 11
  mantissa := 52

/-- The quotient that is nearest, or the even one of two that are. -/
def divHalfEven (n d : Nat) : Nat :=
  if 2 * (n % d) < d then
    n / d
  else if d < 2 * (n % d) then
    n / d + 1
  else
    n / d + n / d % 2

theorem divHalfEven_mul (n : Nat) {d : Nat} (hd : 0 < d) : divHalfEven (n * d) d = n := by
  rw [divHalfEven, Nat.mul_mod_left, if_pos (by omega), Nat.mul_div_cancel n hd]

namespace Format

variable (fmt : Format)

/-- Infinity without its sign. What is smaller is finite, and what is larger no number. -/
def infinity : Nat :=
  (2 ^ fmt.exponent - 1) * 2 ^ fmt.mantissa

/-- The bits without the sign, as a multiple of the smallest number. -/
def magnitude (bits : Nat) : Nat :=
  if bits < 2 ^ fmt.mantissa then
    bits
  else
    (2 ^ fmt.mantissa + bits % 2 ^ fmt.mantissa) * 2 ^ (bits / 2 ^ fmt.mantissa - 1)

/-- The bits nearest to `n`, where the smallest number of the format is `2 ^ shift`. -/
def round (shift n : Nat) : Nat :=
  let drop := max (n.log2 - fmt.mantissa) shift
  (drop - shift) * 2 ^ fmt.mantissa + divHalfEven n (2 ^ drop)

/-- The smallest number of the format is two to the power of `2 - unit`. -/
def unit : Nat :=
  2 ^ (fmt.exponent - 1) + fmt.mantissa

def signBit : Nat :=
  2 ^ (fmt.exponent + fmt.mantissa)

variable {fmt : Format}

theorem magnitude_of_lt {bits : Nat} (h : bits < 2 ^ fmt.mantissa) : fmt.magnitude bits = bits :=
  if_pos h

theorem magnitude_normal (x : Nat) {r : Nat} (hr : r < 2 ^ fmt.mantissa)
    : fmt.magnitude ((x + 1) * 2 ^ fmt.mantissa + r) = (2 ^ fmt.mantissa + r) * 2 ^ x := by
  have hle : ¬ (x + 1) * 2 ^ fmt.mantissa + r < 2 ^ fmt.mantissa := by
    rw [Nat.succ_mul]
    omega
  have hdiv : ((x + 1) * 2 ^ fmt.mantissa + r) / 2 ^ fmt.mantissa = x + 1 := by
    rw [Nat.add_comm, Nat.add_mul_div_right _ _ (Nat.two_pow_pos _), Nat.div_eq_of_lt hr,
      Nat.zero_add]
  rw [magnitude, if_neg hle, hdiv, Nat.mul_add_mod_of_lt hr, Nat.add_sub_cancel]

theorem normal_cases {bits : Nat} (h : ¬ bits < 2 ^ fmt.mantissa)
    : ∃ x r, bits = (x + 1) * 2 ^ fmt.mantissa + r ∧ r < 2 ^ fmt.mantissa := by
  have hpos : 1 ≤ bits / 2 ^ fmt.mantissa :=
    (Nat.one_le_div_iff (Nat.two_pow_pos _)).mpr (Nat.le_of_not_lt h)
  refine ⟨bits / 2 ^ fmt.mantissa - 1, bits % 2 ^ fmt.mantissa, ?_,
    Nat.mod_lt _ (Nat.two_pow_pos _)⟩
  rw [Nat.sub_add_cancel hpos, Nat.div_add_mod']

theorem log2_mul_two_pow {n : Nat} (h : n ≠ 0) (k : Nat) : (n * 2 ^ k).log2 = n.log2 + k := by
  have hne : n * 2 ^ k ≠ 0 := Nat.mul_ne_zero h (Nat.two_pow_pos k).ne'
  rw [Nat.log2_eq_iff hne]
  have hle := Nat.log2_self_le h
  have hlt := @Nat.lt_log2_self n
  constructor
  . rw [Nat.pow_add]
    exact Nat.mul_le_mul_right _ hle
  . rw [Nat.add_right_comm, Nat.pow_add]
    exact Nat.mul_lt_mul_of_pos_right hlt (Nat.two_pow_pos k)

theorem round_magnitude (shift bits : Nat)
    : fmt.round shift (fmt.magnitude bits * 2 ^ shift) = bits := by
  rw [round]
  by_cases hsmall : bits < 2 ^ fmt.mantissa
  . have hdrop : max ((bits * 2 ^ shift).log2 - fmt.mantissa) shift = shift := by
      apply Nat.max_eq_right
      by_cases hzero : bits = 0
      . rw [hzero, Nat.zero_mul, Nat.log2_zero]
        omega
      . have hlog := (Nat.log2_lt hzero).mpr hsmall
        rw [log2_mul_two_pow hzero]
        omega
    rw [magnitude_of_lt hsmall, hdrop, Nat.sub_self, Nat.zero_mul, Nat.zero_add,
      divHalfEven_mul _ (Nat.two_pow_pos shift)]
  . rcases normal_cases hsmall with ⟨x, r, rfl, hr⟩
    have hne : 2 ^ fmt.mantissa + r ≠ 0 := by
      have := Nat.two_pow_pos fmt.mantissa
      omega
    have hlog : (2 ^ fmt.mantissa + r).log2 = fmt.mantissa := by
      rw [Nat.log2_eq_iff hne, Nat.pow_succ]
      omega
    have hdrop : max (((2 ^ fmt.mantissa + r) * 2 ^ (x + shift)).log2 - fmt.mantissa) shift
        = x + shift := by
      rw [log2_mul_two_pow hne, hlog]
      omega
    rw [magnitude_normal x hr, Nat.mul_assoc, ← Nat.pow_add, hdrop, Nat.add_sub_cancel,
      divHalfEven_mul _ (Nat.two_pow_pos _), Nat.succ_mul]
    omega

theorem exists_magnitude {m : Nat} (hm : m < 2 ^ (fmt.mantissa + 1)) (e : Nat)
    : ∃ bits, fmt.magnitude bits = m * 2 ^ e ∧ bits < (e + 2) * 2 ^ fmt.mantissa := by
  have hpos := Nat.two_pow_pos fmt.mantissa
  by_cases hsmall : m * 2 ^ e < 2 ^ fmt.mantissa
  . refine ⟨m * 2 ^ e, magnitude_of_lt hsmall, ?_⟩
    rw [Nat.add_mul]
    omega
  . have hne : m ≠ 0 := by
      rintro rfl
      rw [Nat.zero_mul] at hsmall
      exact hsmall hpos
    have hlog : m.log2 ≤ fmt.mantissa := Nat.le_of_lt_succ ((Nat.log2_lt hne).mpr hm)
    have hlarge : fmt.mantissa < m.log2 + 1 + e := by
      rw [← Nat.pow_lt_pow_iff_right (by decide : 1 < 2), Nat.pow_add]
      apply Nat.lt_of_le_of_lt (Nat.le_of_not_lt hsmall)
      exact Nat.mul_lt_mul_of_pos_right Nat.lt_log2_self (Nat.two_pow_pos e)
    -- the significand is moved to where its first bit is the implicit one
    let k := fmt.mantissa - m.log2
    have hfirst : 2 ^ fmt.mantissa ≤ m * 2 ^ k := by
      have hsplit : fmt.mantissa = m.log2 + k := by omega
      rw [hsplit, Nat.pow_add]
      exact Nat.mul_le_mul_right _ (Nat.log2_self_le hne)
    have hlast : m * 2 ^ k < 2 * 2 ^ fmt.mantissa := by
      have hsplit : fmt.mantissa.succ = m.log2 + 1 + k := by omega
      rw [← Nat.pow_succ', hsplit, Nat.pow_add]
      exact Nat.mul_lt_mul_of_pos_right Nat.lt_log2_self (Nat.two_pow_pos k)
    refine ⟨(e - k + 1) * 2 ^ fmt.mantissa + (m * 2 ^ k - 2 ^ fmt.mantissa), ?_, ?_⟩
    . rw [magnitude_normal (e - k) (by omega), Nat.add_sub_cancel' hfirst, Nat.mul_assoc,
        ← Nat.pow_add, Nat.add_sub_cancel' (by omega)]
    . have hle : (e - k + 1) * 2 ^ fmt.mantissa ≤ (e + 1) * 2 ^ fmt.mantissa :=
        Nat.mul_le_mul_right _ (by omega)
      have hsplit : (e + 2) * 2 ^ fmt.mantissa
          = (e + 1) * 2 ^ fmt.mantissa + 2 ^ fmt.mantissa := Nat.succ_mul _ _
      omega

theorem exists_significand (bits : Nat)
    : ∃ m e, fmt.magnitude bits = m * 2 ^ e ∧ m < 2 ^ (fmt.mantissa + 1)
        ∧ e ≤ bits / 2 ^ fmt.mantissa - 1 := by
  rw [Nat.pow_succ']
  by_cases hsmall : bits < 2 ^ fmt.mantissa
  . exact ⟨bits, 0, by rw [magnitude_of_lt hsmall, Nat.pow_zero, Nat.mul_one], by omega,
      Nat.zero_le _⟩
  . refine ⟨_, _, if_neg hsmall, ?_, Nat.le_refl _⟩
    have := Nat.mod_lt bits (Nat.two_pow_pos fmt.mantissa)
    omega

end Format

section Convert

variable (wide fmt : Format) (payloads : Bool)

def shift : Nat :=
  wide.unit - fmt.unit

/-- A conversion makes a NaN quiet, and keeps what else is in it or does not. -/
def payloadOf (payload : Nat) : Nat :=
  if payloads then payload else 0

def widenMagnitude (bits : Nat) : Nat :=
  if bits < fmt.infinity then
    wide.round 0 (fmt.magnitude bits * 2 ^ shift wide fmt)
  else if bits = fmt.infinity then
    wide.infinity
  else
    wide.infinity + (2 ^ (wide.mantissa - 1)
      ||| payloadOf payloads (bits - fmt.infinity) <<< (wide.mantissa - fmt.mantissa))

/-- The bits without the sign, rounded to the narrower format, if they are not too large for it. -/
def narrowMagnitude (bits : Nat) : Option Nat :=
  if bits < wide.infinity then
    let rounded := fmt.round (shift wide fmt) (wide.magnitude bits)
    if rounded < fmt.infinity then some rounded else none
  else if bits = wide.infinity then
    some fmt.infinity
  else
    some (fmt.infinity + (2 ^ (fmt.mantissa - 1)
      ||| payloadOf payloads (bits - wide.infinity) >>> (wide.mantissa - fmt.mantissa)))

def widen (bits : Nat) : Nat :=
  bits / fmt.signBit * wide.signBit + widenMagnitude wide fmt payloads (bits % fmt.signBit)

def narrow (bits : Nat) : Option Nat :=
  (narrowMagnitude wide fmt payloads (bits % wide.signBit)).map fun magnitude =>
    bits / wide.signBit * fmt.signBit + magnitude

/-- All numbers of `fmt` are numbers of `wide`. -/
structure Widens : Prop where
  exponent_ge : 2 ≤ fmt.exponent
  mantissa_pos : 0 < fmt.mantissa
  mantissa_le : fmt.mantissa ≤ wide.mantissa
  exponent_le : shift wide fmt + 2 ^ fmt.exponent ≤ 2 ^ wide.exponent

end Convert

section Widens

variable {wide fmt : Format} {payloads : Bool} {bits : Nat}

theorem infinity_add (fmt : Format) : fmt.infinity + 2 ^ fmt.mantissa = fmt.signBit := by
  have hpos := Nat.two_pow_pos fmt.exponent
  rw [Format.infinity, ← Nat.succ_mul, Nat.succ_eq_add_one, Nat.sub_add_cancel hpos, ← Nat.pow_add]
  rfl

theorem Widens.finite (h : Widens wide fmt) (hbits : bits < fmt.infinity)
    : widenMagnitude wide fmt payloads bits < wide.infinity
        ∧ wide.magnitude (widenMagnitude wide fmt payloads bits)
          = fmt.magnitude bits * 2 ^ shift wide fmt := by
  rcases @Format.exists_significand fmt bits with ⟨m, e, hmagnitude, hm, he⟩
  have hm' : m < 2 ^ (wide.mantissa + 1) :=
    Nat.lt_of_lt_of_le hm (Nat.pow_le_pow_right (by decide) (Nat.succ_le_succ h.mantissa_le))
  rcases Format.exists_magnitude hm' (e + shift wide fmt) with ⟨bits', hbits', hlt⟩
  have hround := @Format.round_magnitude wide 0 bits'
  rw [widenMagnitude, if_pos hbits, hmagnitude, Nat.mul_assoc, ← Nat.pow_add]
  rw [Nat.pow_zero, Nat.mul_one, hbits'] at hround
  rw [hround]
  refine ⟨Nat.lt_of_lt_of_le hlt ?_, hbits'⟩
  -- the largest exponent of `fmt` is one that a finite number of `wide` has
  have hfield : bits / 2 ^ fmt.mantissa < 2 ^ fmt.exponent - 1 :=
    (Nat.div_lt_iff_lt_mul (Nat.two_pow_pos _)).mpr hbits
  have hfour : 2 ^ 2 ≤ 2 ^ fmt.exponent := Nat.pow_le_pow_right (by decide) h.exponent_ge
  have hexponent := h.exponent_le
  exact Nat.mul_le_mul_right _ (by omega)

theorem Widens.narrowMagnitude_finite (h : Widens wide fmt) (hbits : bits < fmt.infinity)
    : narrowMagnitude wide fmt payloads (widenMagnitude wide fmt payloads bits) = some bits := by
  rcases h.finite hbits with ⟨hlt, hmagnitude⟩
  rw [narrowMagnitude, if_pos hlt, hmagnitude, Format.round_magnitude]
  exact if_pos hbits

theorem widenMagnitude_infinity
    : widenMagnitude wide fmt payloads fmt.infinity = wide.infinity := by
  rw [widenMagnitude, if_neg (Nat.lt_irrefl _), if_pos rfl]

theorem narrowMagnitude_infinity
    : narrowMagnitude wide fmt payloads wide.infinity = some fmt.infinity := by
  rw [narrowMagnitude, if_neg (Nat.lt_irrefl _), if_pos rfl]

theorem payloadOf_or_payloadOf (quiet payload : Nat)
    : quiet ||| payloadOf payloads (quiet ||| payloadOf payloads payload)
        = quiet ||| payloadOf payloads payload := by
  cases payloads with
  | false => rfl
  | true =>
    rw [payloadOf, if_pos rfl, payloadOf, if_pos rfl, ← Nat.or_assoc, Nat.or_self]

theorem payloadOf_shiftLeft_shiftRight (payload k : Nat)
    : payloadOf payloads (payload <<< k) >>> k = payloadOf payloads payload := by
  cases payloads with
  | false => exact Nat.zero_shiftRight k
  | true => exact Nat.shiftLeft_shiftRight payload k

theorem Widens.widenMagnitude_nan (h : Widens wide fmt) {payload : Nat} (hpos : 0 < payload)
    : widenMagnitude wide fmt payloads (fmt.infinity + payload)
        = wide.infinity + (2 ^ (fmt.mantissa - 1) ||| payloadOf payloads payload)
          <<< (wide.mantissa - fmt.mantissa) := by
  have hquiet : 2 ^ (wide.mantissa - 1)
      = 2 ^ (fmt.mantissa - 1) <<< (wide.mantissa - fmt.mantissa) := by
    have := h.mantissa_pos
    have := h.mantissa_le
    rw [Nat.shiftLeft_eq, ← Nat.pow_add]
    congr 1
    omega
  rw [widenMagnitude, if_neg (by omega), if_neg (by omega), Nat.add_sub_cancel_left, hquiet,
    ← Nat.shiftLeft_or_distrib]

theorem narrowMagnitude_nan {payload : Nat}
    (hpos : 0 < payload <<< (wide.mantissa - fmt.mantissa))
    : narrowMagnitude wide fmt payloads
          (wide.infinity + payload <<< (wide.mantissa - fmt.mantissa))
        = some (fmt.infinity + (2 ^ (fmt.mantissa - 1) ||| payloadOf payloads payload)) := by
  rw [narrowMagnitude, if_neg (by omega), if_neg (by omega), Nat.add_sub_cancel_left,
    payloadOf_shiftLeft_shiftRight]

theorem Widens.narrowMagnitude_widenMagnitude (h : Widens wide fmt) (hbits : bits < fmt.signBit)
    : widenMagnitude wide fmt payloads bits < wide.signBit
        ∧ ∃ narrowed < fmt.signBit,
          narrowMagnitude wide fmt payloads (widenMagnitude wide fmt payloads bits) = some narrowed
            ∧ widenMagnitude wide fmt payloads narrowed
              = widenMagnitude wide fmt payloads bits := by
  have hsign := infinity_add fmt
  have hsign' := infinity_add wide
  have hpos := Nat.two_pow_pos wide.mantissa
  rcases Nat.lt_trichotomy bits fmt.infinity with hfinite | rfl | hnan
  . have hlt := (@Widens.finite _ _ payloads _ h hfinite).1
    exact ⟨by omega, bits, hbits, h.narrowMagnitude_finite hfinite, rfl⟩
  . rw [widenMagnitude_infinity]
    exact ⟨by omega, fmt.infinity, hbits, narrowMagnitude_infinity, widenMagnitude_infinity⟩
  . rcases Nat.exists_eq_add_of_lt hnan with ⟨payload, rfl⟩
    have hpayload : payload + 1 < 2 ^ fmt.mantissa := by omega
    have hquiet : 2 ^ (fmt.mantissa - 1) < 2 ^ fmt.mantissa :=
      Nat.pow_lt_pow_right (by decide) (Nat.sub_lt h.mantissa_pos (by decide))
    have hle : payloadOf payloads (payload + 1) ≤ payload + 1 := by
      rw [payloadOf]
      split <;> omega
    have hor := Nat.or_lt_two_pow hquiet (Nat.lt_of_le_of_lt hle hpayload)
    have hagain := @payloadOf_or_payloadOf payloads (2 ^ (fmt.mantissa - 1)) (payload + 1)
    have hwiden := @Widens.widenMagnitude_nan _ _ payloads h _ (Nat.succ_pos payload)
    rw [Nat.succ_eq_add_one, ← Nat.add_assoc] at hwiden
    have horpos : 0 < 2 ^ (fmt.mantissa - 1) ||| payloadOf payloads (payload + 1) :=
      Nat.lt_of_lt_of_le (Nat.two_pow_pos _) Nat.left_le_or
    generalize 2 ^ (fmt.mantissa - 1) ||| payloadOf payloads (payload + 1) = quieted at *
    have hshift : quieted <<< (wide.mantissa - fmt.mantissa) < 2 ^ wide.mantissa := by
      have hsplit : wide.mantissa = fmt.mantissa + (wide.mantissa - fmt.mantissa) :=
        (Nat.add_sub_cancel' h.mantissa_le).symm
      rw [Nat.shiftLeft_eq]
      conv => rhs; rw [hsplit, Nat.pow_add]
      exact Nat.mul_lt_mul_of_pos_right hor (Nat.two_pow_pos _)
    have hshiftpos : 0 < quieted <<< (wide.mantissa - fmt.mantissa) := by
      rw [Nat.shiftLeft_eq]
      exact Nat.mul_pos horpos (Nat.two_pow_pos _)
    rw [hwiden]
    refine ⟨by omega, fmt.infinity + quieted, by omega, ?_, ?_⟩
    . rw [narrowMagnitude_nan hshiftpos, hagain]
    . rw [h.widenMagnitude_nan horpos, hagain]

theorem Widens.narrow_widen (h : Widens wide fmt) (hbits : bits < 2 * fmt.signBit)
    : widen wide fmt payloads bits < 2 * wide.signBit
        ∧ ∃ narrowed < 2 * fmt.signBit, narrow wide fmt payloads (widen wide fmt payloads bits)
          = some narrowed
          ∧ widen wide fmt payloads narrowed = widen wide fmt payloads bits := by
  have hpos : 0 < fmt.signBit := Nat.two_pow_pos _
  have hmod := Nat.mod_lt bits hpos
  rcases @Widens.narrowMagnitude_widenMagnitude _ _ payloads _ h hmod with
    ⟨hwide, narrowed, hlt, hnarrow, hwiden⟩
  have hsign : bits / fmt.signBit < 2 := (Nat.div_lt_iff_lt_mul hpos).mpr hbits
  have hle (sign : Nat) : bits / fmt.signBit * sign ≤ 1 * sign :=
    Nat.mul_le_mul_right _ (by omega)
  have hdiv {a b sign : Nat} (hb : b < sign) : (a * sign + b) / sign = a := by
    rw [Nat.add_comm, Nat.add_mul_div_right _ _ (Nat.zero_lt_of_lt hb), Nat.div_eq_of_lt hb,
      Nat.zero_add]
  refine ⟨?_, bits / fmt.signBit * fmt.signBit + narrowed, ?_, ?_, ?_⟩
  . have := hle wide.signBit
    rw [widen]
    omega
  . have := hle fmt.signBit
    omega
  . rw [narrow, widen, Nat.mul_add_mod_of_lt hwide, hnarrow, hdiv hwide]
    rfl
  . rw [widen, widen, hdiv hlt, Nat.mul_add_mod_of_lt hlt, hwiden]

end Widens

theorem widens_double_half : Widens .double .half :=
  ⟨by decide, by decide, by decide, by decide⟩

theorem widens_double_single : Widens .double .single :=
  ⟨by decide, by decide, by decide, by decide⟩

/-- `0.1` is not a number of half precision, and `65520` is too large for it. -/
example : narrow .double .half false 0x3FB999999999999A = some 0x2E66
    ∧ narrow .double .half false 0x40EFFE0000000000 = none
    ∧ widen .double .half false 0x0001 = 0x3E70000000000000
    ∧ widen .double .half false 0x7E01 = 0x7FF8000000000000 := by
  decide +kernel

end BinaryFloat

end McStatus
