import Mathlib.Algebra.Ring.Int.Defs
import Mathlib.Algebra.Ring.Nat
import Mathlib.Data.List.Induction

/-!
This module contains numbers as bytes, the most significant one first.
-/

namespace McStatus

namespace BigEndian

def decode (bytes : List UInt8) : Nat :=
  bytes.foldl (fun n b => 256 * n + b.toNat) 0

def encode (size n : Nat) : List UInt8 :=
  match size with
  | 0 => []
  | size + 1 => encode size (n / 256) ++ [UInt8.ofNat (n % 256)]

@[simp]
theorem length_encode (size n : Nat) : (encode size n).length = size := by
  induction size generalizing n with
  | zero => rfl
  | succ size ih => simp [encode, ih]

theorem decode_concat (bytes : List UInt8) (b : UInt8)
    : decode (bytes ++ [b]) = 256 * decode bytes + b.toNat := by
  rw [decode, List.foldl_append]
  rfl

theorem decode_encode (size n : Nat) : decode (encode size n) = n % 256 ^ size := by
  induction size generalizing n with
  | zero => rw [Nat.pow_zero, Nat.mod_one]; rfl
  | succ size ih =>
    have hlow : (UInt8.ofNat (n % 256)).toNat = n % 256 := by
      rw [UInt8.toNat_ofNat']
      exact Nat.mod_mod n 256
    rw [encode, decode_concat, ih, hlow, Nat.pow_succ', Nat.mod_mul]
    omega

theorem decode_encode_of_lt {size n : Nat} (h : n < 256 ^ size) : decode (encode size n) = n := by
  rw [decode_encode, Nat.mod_eq_of_lt h]

theorem encode_decode (bytes : List UInt8) : encode bytes.length (decode bytes) = bytes := by
  induction bytes using List.reverseRecOn with
  | nil => rfl
  | append_singleton bytes b ih =>
    have hb := b.toNat_lt
    have hdiv : (256 * decode bytes + b.toNat) / 256 = decode bytes := by omega
    have hmod : (256 * decode bytes + b.toNat) % 256 = b.toNat := by omega
    rw [List.length_append, List.length_singleton, decode_concat, encode, hdiv, hmod, ih,
      UInt8.ofNat_toNat]

theorem decode_lt (bytes : List UInt8) : decode bytes < 256 ^ bytes.length := by
  induction bytes using List.reverseRecOn with
  | nil => decide
  | append_singleton bytes b ih =>
    have hb := b.toNat_lt
    rw [List.length_append, List.length_singleton, decode_concat, Nat.pow_succ']
    omega

end BigEndian

end McStatus
