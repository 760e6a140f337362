import Mathlib.Algebra.Ring.Int.Defs
import Mathlib.Algebra.Ring.Nat

/-!
This module contains how numbers are read from their digits.
-/

namespace McStatus

namespace Numeral

def digit? (c : Char) : Option Nat :=
  if '0' ≤ c ∧ c ≤ '9' then
    some (c.toNat - '0'.toNat)
  else if 'a' ≤ c ∧ c ≤ 'f' then
    some (c.toNat - 'a'.toNat + 10)
  else if 'A' ≤ c ∧ c ≤ 'F' then
    some (c.toNat - 'A'.toNat + 10)
  else
    none

/-- The number that is written by digits after those of `n`. -/
def readFrom (b n : Nat) (s : List Char) : Option Nat :=
  match s with
  | [] => some n
  | c :: s =>
    match digit? c with
    | some d => if d < b then readFrom b (b * n + d) s else none
    | none => none

def nat? (b : Nat) (s : List Char) : Option Nat :=
  match s with
  | [] => none
  | s => readFrom b 0 s

def int? (s : List Char) : Option Int :=
  match s with
  | '-' :: s => (nat? 10 s).map fun (n : Nat) => -(n : Int)
  | s => (nat? 10 s).map fun (n : Nat) => (n : Int)

theorem toNat_of_isDigit {c : Char} (h : c.isDigit = true) : 48 ≤ c.toNat ∧ c.toNat ≤ 57 :=
  Char.isDigit_iff_toNat.mp h

theorem digit?_of_isDigit {c : Char} (h : c.isDigit = true)
    : digit? c = some (c.toNat - '0'.toNat) ∧ c.toNat - '0'.toNat < 10 := by
  have hrange := toNat_of_isDigit h
  have hzero : '0'.toNat = 48 := rfl
  constructor
  . exact if_pos hrange
  . omega

theorem isDigit_of_digit? {c : Char} {d : Nat} (h : digit? c = some d) (hd : d < 10)
    : c.isDigit = true := by
  unfold digit? at h
  split at h
  . next hrange => exact Char.isDigit_iff_toNat.mpr hrange
  -- a letter is worth ten or more
  . split at h
    . cases h
      omega
    . split at h
      . cases h
        omega
      . cases h

theorem digit?_digitChar {d : Nat} (h : d < 16) : digit? (Nat.digitChar d) = some d := by
  have hall : ∀ d < 16, digit? (Nat.digitChar d) = some d := by decide
  exact hall d h

theorem digit?_toUpper_digitChar {d : Nat} (h : d < 16)
    : digit? (Nat.digitChar d).toUpper = some d := by
  have hall : ∀ d < 16, digit? (Nat.digitChar d).toUpper = some d := by decide
  exact hall d h

theorem readFrom_append (b n : Nat) (s t : List Char)
    : readFrom b n (s ++ t) = (readFrom b n s).bind fun n => readFrom b n t := by
  induction s generalizing n with
  | nil => rfl
  | cons c s ih =>
    rw [List.cons_append, readFrom, readFrom]
    cases digit? c with
    | none => rfl
    | some d =>
      dsimp only
      split
      . exact ih _
      . rfl

theorem readFrom_singleton {b n d : Nat} {c : Char} (hc : digit? c = some d) (hd : d < b)
    : readFrom b n [c] = some (b * n + d) := by
  rw [readFrom, hc]
  dsimp only
  rw [if_pos hd, readFrom]

theorem readFrom_map_toDigits {b : Nat} (hb : 1 < b) {f : Char → Char}
    (hf : ∀ d < b, digit? (f (Nat.digitChar d)) = some d) (n : Nat)
    : readFrom b 0 ((Nat.toDigits b n).map f) = some n := by
  induction n using Nat.strongRecOn with
  | ind n ih =>
    by_cases hlt : n < b
    . rw [Nat.toDigits_of_lt_base hlt, List.map_singleton, readFrom_singleton (hf n hlt) hlt,
        Nat.mul_zero, Nat.zero_add]
    . have hdiv : n / b < n := Nat.div_lt_self (by omega) hb
      have hmod : n % b < b := Nat.mod_lt n (by omega)
      rw [Nat.toDigits_of_base_le hb (by omega), List.map_append, readFrom_append, ih _ hdiv,
        Option.bind_some, List.map_singleton, readFrom_singleton (hf _ hmod) hmod,
        Nat.div_add_mod]

theorem readFrom_replicate_zero {b : Nat} (hb : 0 < b) (k : Nat)
    : readFrom b 0 (List.replicate k '0') = some 0 := by
  induction k with
  | zero => rfl
  | succ k ih =>
    have hzero : digit? '0' = some 0 := by decide
    rw [List.replicate_succ, readFrom, hzero]
    dsimp only
    rw [if_pos hb]
    exact ih

theorem isDigit_of_readFrom {n m : Nat} {s : List Char} (h : readFrom 10 n s = some m)
    : ∀ c ∈ s, c.isDigit = true := by
  induction s generalizing n with
  | nil => exact fun c hc => absurd hc List.not_mem_nil
  | cons c s ih =>
    rw [readFrom] at h
    split at h
    . next d hd =>
      split at h
      . next hlt => exact List.forall_mem_cons.mpr ⟨isDigit_of_digit? hd hlt, ih h⟩
      . cases h
    . cases h

theorem nat?_eq_some_iff {b n : Nat} {s : List Char}
    : nat? b s = some n ↔ s ≠ [] ∧ readFrom b 0 s = some n := by
  cases s with
  | nil => simp [nat?]
  | cons c s => simp [nat?]

theorem nat?_of_ne_nil {b : Nat} {s : List Char} (h : s ≠ []) : nat? b s = readFrom b 0 s := by
  cases s with
  | nil => exact absurd rfl h
  | cons c s => rfl

theorem nat?_toDigits (n : Nat) : nat? 10 (Nat.toDigits 10 n) = some n := by
  rw [nat?_of_ne_nil Nat.toDigits_ne_nil, ← List.map_id' (Nat.toDigits 10 n)]
  apply readFrom_map_toDigits (by decide)
  intro d hd
  exact digit?_digitChar (by omega)

theorem nat?_zeros_toDigits (k n : Nat)
    : nat? 16 (List.replicate k '0' ++ (Nat.toDigits 16 n).map Char.toUpper) = some n := by
  have hne : List.replicate k '0' ++ (Nat.toDigits 16 n).map Char.toUpper ≠ [] := by
    intro heq
    rw [List.append_eq_nil_iff, List.map_eq_nil_iff] at heq
    exact Nat.toDigits_ne_nil heq.2
  rw [nat?_of_ne_nil hne, readFrom_append, readFrom_replicate_zero (by decide), Option.bind_some]
  apply readFrom_map_toDigits (by decide)
  intro d hd
  exact digit?_toUpper_digitChar hd

theorem isDigit_toDigits {n : Nat} {c : Char} (h : c ∈ Nat.toDigits 10 n) : c.isDigit = true :=
  Nat.isDigit_of_mem_toDigits (by decide) (by decide) h

theorem not_mem_toDigits {c : Char} (h : c.isDigit = false) (n : Nat) : c ∉ Nat.toDigits 10 n := by
  intro hmem
  rw [isDigit_toDigits hmem] at h
  cases h

/-- The digits of a number below `size`. Zeros may stand in front of it. -/
structure Decimal (size : Nat) where
  digits : List Char
  value : Nat
  reads : nat? 10 digits = some value
  value_lt : value < size

namespace Decimal

variable {size n : Nat}

def ofNat (n : Nat) (h : n < size) : Decimal size where
  digits := Nat.toDigits 10 n
  value := n
  reads := nat?_toDigits n
  value_lt := h

variable (number : Decimal size)

theorem isDigit {c : Char} (h : c ∈ number.digits) : c.isDigit = true :=
  isDigit_of_readFrom (nat?_eq_some_iff.mp number.reads).2 c h

end Decimal

theorem int?_toDigits (n : Nat) : int? (Nat.toDigits 10 n) = some (n : Int) := by
  unfold int?
  split
  . next s heq =>
    have hsign : '-' ∈ Nat.toDigits 10 n := by
      rw [heq]
      exact List.mem_cons_self
    exact absurd (isDigit_toDigits hsign) (by decide)
  . rw [nat?_toDigits, Option.map_some]

theorem int?_neg_toDigits (n : Nat) : int? ('-' :: Nat.toDigits 10 n) = some (-(n : Int)) := by
  rw [int?, nat?_toDigits, Option.map_some]

def decimal (n : Int) : List Char :=
  if n < 0 then '-' :: Nat.toDigits 10 n.natAbs else Nat.toDigits 10 n.natAbs

theorem int?_decimal (n : Int) : int? (decimal n) = some n := by
  unfold decimal
  split
  . rw [int?_neg_toDigits]
    congr 1
    omega
  . rw [int?_toDigits]
    congr 1
    omega

theorem mem_decimal {n : Int} {c : Char} (h : c ∈ decimal n) : c = '-' ∨ c.isDigit = true := by
  unfold decimal at h
  split at h
  . rcases List.mem_cons.mp h with hc | hc
    . exact Or.inl hc
    . exact Or.inr (isDigit_toDigits hc)
  . exact Or.inr (isDigit_toDigits h)

theorem not_mem_decimal {c : Char} (hsign : c ≠ '-') (hdigit : c.isDigit = false) (n : Int)
    : c ∉ decimal n := by
  intro hmem
  rcases mem_decimal hmem with hc | hc
  . exact hsign hc
  . rw [hdigit] at hc
    cases hc

end Numeral

end McStatus
