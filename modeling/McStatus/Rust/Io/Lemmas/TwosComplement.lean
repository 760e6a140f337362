import McStatus.Library.TwosComplement
import McStatus.Rust.Io.Impl

/-!
This module contains what the conversions to and from two's complement do in up to 64 bits. Their
wrapping arithmetic stays exact next to the size of a word.
-/

namespace McStatus

open TwosComplement

namespace Rust

theorem toInt_toInt64 (u : UInt64) : u.toInt64.toInt = (u.toNat : Int).bmod (2 ^ 64) :=
  BitVec.toInt_eq_toNat_bmod u.toBitVec

theorem toNat_toUInt64 (v : Int64) : (v.toUInt64.toNat : Int) = v.toInt % 2 ^ 64 := by
  have hlt : (v.toUInt64.toNat : Int) < 2 ^ 64 := Int.ofNat_lt.mpr v.toUInt64.toNat_lt
  have hbmod : v.toInt = (v.toUInt64.toNat : Int).bmod (2 ^ 64) := toInt_toInt64 v.toUInt64
  have hemod := @Int.bmod_emod (v.toUInt64.toNat : Int) (2 ^ 64)
  rw [← hbmod] at hemod
  have hpow : ((2 ^ 64 : Nat) : Int) = 2 ^ 64 := by decide
  rw [hpow] at hemod
  omega

theorem toNat_one_shiftLeft {bits : Nat} (h : bits < 64)
    : ((1 : UInt64) <<< UInt64.ofNat bits).toNat = 2 ^ bits := by
  have hall : ∀ k < 64, ((1 : UInt64) <<< UInt64.ofNat k).toNat = 2 ^ k := by decide +kernel
  exact hall bits h

theorem toInt_one_shiftLeft {bits : Nat} (h : bits < 64)
    : ((1 : Int64) <<< Int64.ofNat bits).toInt = ((2 : Int) ^ bits).bmod (2 ^ 64) := by
  have hall : ∀ k < 64, ((1 : Int64) <<< Int64.ofNat k).toInt = ((2 : Int) ^ k).bmod (2 ^ 64) := by
    decide +kernel
  exact hall bits h

theorem bmod_word_of_le {n : Int} (hmin : -2 ^ 63 ≤ n) (hmax : n < 2 ^ 63)
    : n.bmod (2 ^ 64) = n := by
  apply Int.bmod_eq_of_le <;> omega

theorem two_pow_le_of_lt {bits : Nat} (h : bits < 64) : (2 : Int) ^ bits ≤ 2 ^ 63 := by
  have hle := Nat.pow_le_pow_right (by decide : 0 < 2) (Nat.le_of_lt_succ h)
  exact_mod_cast hle

variable {bits : Nat} {number : Int64} {form : UInt64}

theorem toTwosComplement_of_lt (hbits : 1 ≤ bits) (h : bits < 64)
    : toTwosComplement number bits = .ok form
      ↔ InRange bits number.toInt ∧ (form.toNat : Int) = number.toInt % 2 ^ bits := by
  have hpow := int_two_pow_eq_twice hbits
  have hpos := int_two_pow_pos (bits - 1)
  have hle := two_pow_le_of_lt h
  have hmax : ((1 : Int64) <<< Int64.ofNat (bits - 1)).toInt = 2 ^ (bits - 1) := by
    rw [toInt_one_shiftLeft (by omega), bmod_word_of_le (by omega) (by omega)]
  have hmin : (-((1 : Int64) <<< Int64.ofNat (bits - 1))).toInt = -2 ^ (bits - 1) := by
    rw [Int64.toInt_neg, hmax, bmod_word_of_le (by omega) (by omega)]
  have hrange : (number ≥ 1 <<< Int64.ofNat (bits - 1) ∨ number < -(1 <<< Int64.ofNat (bits - 1)))
      ↔ ¬ InRange bits number.toInt := by
    rw [ge_iff_le, Int64.le_iff_toInt_le, Int64.lt_iff_toInt_lt, hmax, hmin, InRange]
    omega
  unfold toTwosComplement
  rw [if_neg (by omega)]
  dsimp only
  split
  . next hout =>
    rw [hrange] at hout
    exact iff_of_false (fun h => by cases h) fun h => hout h.1
  . next hin =>
    rw [hrange, not_not] at hin
    have hform := toNat_toUInt64 number
    have hzero : (0 : Int64).toInt = 0 := by decide
    have hcast : ((2 ^ bits : Nat) : Int) = 2 ^ bits := by simp
    rw [and_iff_right hin, emod_of_inRange hbits hin]
    rcases hin with ⟨hge, hlt⟩
    split
    . next hneg =>
      rw [Int64.lt_iff_toInt_lt, hzero] at hneg
      rw [if_pos hneg, Except.ok.injEq, ← UInt64.toNat_inj, UInt64.toNat_add,
        toNat_one_shiftLeft h]
      omega
    . next hpos =>
      rw [Int64.lt_iff_toInt_lt, hzero] at hpos
      rw [if_neg hpos, Except.ok.injEq, ← UInt64.toNat_inj]
      omega

theorem toTwosComplement_eq_ok_iff (hmin : 1 ≤ bits) (hmax : bits ≤ 64)
    : toTwosComplement number bits = .ok form
      ↔ InRange bits number.toInt ∧ (form.toNat : Int) = number.toInt % 2 ^ bits := by
  rcases Nat.lt_or_eq_of_le hmax with hlt | rfl
  . exact toTwosComplement_of_lt hmin hlt
  . have hform := toNat_toUInt64 number
    have hrange : InRange 64 number.toInt := ⟨number.le_toInt, number.toInt_lt⟩
    rw [toTwosComplement, if_pos (by decide), Except.ok.injEq, and_iff_right hrange,
      ← UInt64.toNat_inj]
    omega

theorem fromTwosComplement_of_lt (hbits : 1 ≤ bits) (h : bits < 64)
    : fromTwosComplement form bits = .ok number
      ↔ form.toNat < 2 ^ bits ∧ number.toInt = decode bits form.toNat := by
  have hpow := int_two_pow_eq_twice hbits
  have hpos := int_two_pow_pos (bits - 1)
  have hle := two_pow_le_of_lt h
  have hcast : ((2 ^ bits : Nat) : Int) = 2 ^ bits := by simp
  have hcast' : ((2 ^ (bits - 1) : Nat) : Int) = 2 ^ (bits - 1) := by simp
  have hmax : ((1 : UInt64) <<< UInt64.ofNat bits - 1).toNat = 2 ^ bits - 1 := by
    have hone : (1 : UInt64) ≤ 1 <<< UInt64.ofNat bits := by
      rw [UInt64.le_iff_toNat_le, toNat_one_shiftLeft h]
      exact Nat.one_le_two_pow
    rw [UInt64.toNat_sub_of_le _ _ hone, toNat_one_shiftLeft h]
    rfl
  have hrange : form > 1 <<< UInt64.ofNat bits - 1 ↔ ¬ form.toNat < 2 ^ bits := by
    rw [gt_iff_lt, UInt64.lt_iff_toNat_lt, hmax]
    omega
  unfold fromTwosComplement
  rw [if_neg (by omega)]
  dsimp only
  split
  . next hout =>
    rw [hrange] at hout
    exact iff_of_false (fun h => by cases h) fun h => hout h.1
  . next hin =>
    rw [hrange, not_not] at hin
    have hsigned : form.toInt64.toInt = form.toNat := by
      rw [toInt_toInt64, bmod_word_of_le (by omega) (by omega)]
    have hsign : form &&& (1 <<< UInt64.ofNat (bits - 1)) ≠ 0 ↔ 2 ^ (bits - 1) ≤ form.toNat := by
      rw [← and_sign_ne_zero_iff hbits hin, ne_eq, ne_eq, ← UInt64.toNat_inj, UInt64.toNat_and,
        toNat_one_shiftLeft (by omega), Nat.one_shiftLeft]
      rfl
    rw [and_iff_right hin, decode]
    split
    . next hset =>
      rw [hsign] at hset
      rw [if_neg (by omega), Except.ok.injEq, ← Int64.toInt_inj, Int64.toInt_sub, hsigned,
        toInt_one_shiftLeft h, Int.sub_bmod_bmod, bmod_word_of_le (by omega) (by omega)]
      exact eq_comm
    . next hunset =>
      rw [hsign] at hunset
      rw [if_pos (by omega), Except.ok.injEq, ← Int64.toInt_inj, hsigned]
      exact eq_comm

theorem fromTwosComplement_eq_ok_iff (hmin : 1 ≤ bits) (hmax : bits ≤ 64)
    : fromTwosComplement form bits = .ok number
      ↔ form.toNat < 2 ^ bits ∧ number.toInt = decode bits form.toNat := by
  rcases Nat.lt_or_eq_of_le hmax with hlt | rfl
  . exact fromTwosComplement_of_lt hmin hlt
  . have hform := form.toNat_lt
    have hsigned : form.toInt64.toInt = decode 64 form.toNat := by
      rw [toInt_toInt64, decode]
      split
      . exact bmod_word_of_le (by omega) (by omega)
      . rw [← Int.sub_bmod_right]
        exact bmod_word_of_le (by omega) (by omega)
    rw [fromTwosComplement, if_pos (by decide), Except.ok.injEq, and_iff_right hform,
      ← Int64.toInt_inj, hsigned]
    exact eq_comm

theorem exists_toTwosComplement (hmin : 1 ≤ bits) (hmax : bits ≤ 64)
    (h : InRange bits number.toInt) : ∃ form, toTwosComplement number bits = .ok form := by
  have hpos := int_two_pow_pos bits
  have hnonneg := Int.emod_nonneg number.toInt (Int.ne_of_gt hpos)
  have hlt := Int.emod_lt_of_pos number.toInt hpos
  have hle : (2 : Int) ^ bits ≤ 2 ^ 64 := by
    exact_mod_cast Nat.pow_le_pow_right (by decide : 0 < 2) hmax
  refine ⟨UInt64.ofNat (number.toInt % 2 ^ bits).toNat, ?_⟩
  rw [toTwosComplement_eq_ok_iff hmin hmax, and_iff_right h, UInt64.toNat_ofNat_of_lt']
  . exact Int.toNat_of_nonneg hnonneg
  . have hsize : UInt64.size = 2 ^ 64 := rfl
    omega

theorem exists_fromTwosComplement (hmin : 1 ≤ bits) (hmax : bits ≤ 64)
    (h : form.toNat < 2 ^ bits) : ∃ number, fromTwosComplement form bits = .ok number := by
  have hform : (0 : Int) ≤ form.toNat ∧ (form.toNat : Int) < 2 ^ bits :=
    ⟨by omega, by exact_mod_cast h⟩
  rcases ((inRange_and_eq_emod_iff hmin).mpr ⟨hform, rfl⟩).1 with ⟨hge, hlt⟩
  have hle : (2 : Int) ^ (bits - 1) ≤ 2 ^ 63 := two_pow_le_of_lt (by omega)
  refine ⟨Int64.ofInt (decode bits form.toNat), ?_⟩
  rw [fromTwosComplement_eq_ok_iff hmin hmax, and_iff_right h, Int64.toInt_ofInt]
  exact bmod_word_of_le (by omega) (by omega)

theorem fromTwosComplement_64 (u : UInt64)
    : fromTwosComplement u 64 = .ok (Int64.ofNat u.toNat) := by
  have hcast : u.toInt64 = Int64.ofNat u.toNat := by
    apply Int64.toInt_inj.mp
    rw [toInt_toInt64, Int64.toInt_ofNat']
    rfl
  rw [fromTwosComplement, if_pos (by decide), hcast]

theorem fromTwosComplement_32 {u : UInt64} (h : u.toNat < 2 ^ 32)
    : ∃ v, fromTwosComplement u 32 = .ok v ∧ v.toInt32 = Int32.ofNat u.toNat := by
  rcases @exists_fromTwosComplement 32 u (by decide) (by decide) h with ⟨v, hfrom⟩
  refine ⟨v, hfrom, ?_⟩
  have hv := ((fromTwosComplement_eq_ok_iff (by decide) (by decide)).mp hfrom).2
  apply Int32.toInt_inj.mp
  rw [Int64.toInt_toInt32, Int32.toInt_ofNat', hv, decode]
  split
  . rfl
  . exact Int.sub_bmod_right _ _

theorem toTwosComplement_64 (value : Int64)
    : toTwosComplement value 64 = .ok value.toUInt64 := by
  rw [toTwosComplement, if_pos (by decide)]

theorem toTwosComplement_32 (value : Int32)
    : ∃ u, toTwosComplement value.toInt64 32 = .ok u
        ∧ (u.toNat : Int) = value.toInt % 2 ^ 32 := by
  have hrange : InRange 32 value.toInt64.toInt := by
    rw [value.toInt_toInt64]
    exact ⟨value.le_toInt, value.toInt_lt⟩
  rcases exists_toTwosComplement (by decide) (by decide) hrange with ⟨u, hto⟩
  have hu := ((toTwosComplement_eq_ok_iff (by decide) (by decide)).mp hto).2
  rw [value.toInt_toInt64] at hu
  exact ⟨u, hto, hu⟩

theorem ofNat_emod_32 {value : Int32} {n : Nat} (h : (n : Int) = value.toInt % 2 ^ 32)
    : Int32.ofNat n = value := by
  apply Int32.toInt_inj.mp
  have hmin := value.le_toInt
  have hmax := value.toInt_lt
  have hmod : (value.toInt % 2 ^ 32).bmod Int32.size = value.toInt.bmod Int32.size :=
    Int.emod_bmod value.toInt (2 ^ 32)
  rw [Int32.toInt_ofNat', h, hmod]
  apply Int.bmod_eq_of_le <;> rw [Int32.size] <;> omega

theorem ofNat_emod_64 {value : Int64} {n : Nat} (h : (n : Int) = value.toInt % 2 ^ 64)
    : Int64.ofNat n = value := by
  apply Int64.toInt_inj.mp
  have hmin := value.le_toInt
  have hmax := value.toInt_lt
  have hmod : (value.toInt % 2 ^ 64).bmod Int64.size = value.toInt.bmod Int64.size :=
    Int.emod_bmod value.toInt (2 ^ 64)
  rw [Int64.toInt_ofNat', h, hmod]
  apply Int.bmod_eq_of_le <;> rw [Int64.size] <;> omega

end Rust

end McStatus
