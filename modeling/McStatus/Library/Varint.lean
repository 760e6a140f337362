import Mathlib.Algebra.Order.Ring.Nat
import Mathlib.Algebra.BigOperators.Ring.List
import McStatus.Library.Bits

/-!
This module contains numbers in groups of seven bits, the least significant group first, where
every byte but the last one of a number has its high bit set.
-/

namespace McStatus

namespace Varint

def Framed (bytes : List UInt8) : Prop :=
  ∃ init last, bytes = init ++ [last] ∧ (∀ b ∈ init, 128 ≤ b.toNat) ∧ last.toNat < 128

def value (bytes : List UInt8) : Nat :=
  (bytes.mapIdx fun i b => (b.toNat &&& 0x7F) * 2 ^ (7 * i)).sum

theorem not_framed_nil : ¬ Framed [] := by
  rintro ⟨init, last, h, -⟩
  simp at h

theorem framed_cons {b : UInt8} {bytes : List UInt8}
    : Framed (b :: bytes) ↔ b.toNat < 128 ∧ bytes = [] ∨ 128 ≤ b.toNat ∧ Framed bytes := by
  constructor
  . rintro ⟨init, last, h, hinit, hlast⟩
    cases init with
    | nil =>
      rw [List.nil_append, List.cons.injEq] at h
      exact Or.inl ⟨h.1 ▸ hlast, h.2⟩
    | cons c init =>
      rw [List.cons_append, List.cons.injEq] at h
      rw [List.forall_mem_cons] at hinit
      exact Or.inr ⟨h.1 ▸ hinit.1, init, last, h.2, hinit.2, hlast⟩
  . rintro (⟨hlast, rfl⟩ | ⟨hb, init, last, rfl, hinit, hlast⟩)
    . exact ⟨[], b, rfl, by simp, hlast⟩
    . exact ⟨b :: init, last, rfl, List.forall_mem_cons.mpr ⟨hb, hinit⟩, hlast⟩

theorem framed_singleton {b : UInt8} : Framed [b] ↔ b.toNat < 128 := by
  simp [framed_cons, not_framed_nil]

@[simp]
theorem value_nil : value [] = 0 := rfl

theorem value_cons (b : UInt8) (bytes : List UInt8)
    : value (b :: bytes) = b.toNat % 128 + 128 * value bytes := by
  have hshift : (fun (i : Nat) (c : UInt8) => (c.toNat &&& 0x7F) * 2 ^ (7 * (i + 1)))
      = fun i c => 128 * ((c.toNat &&& 0x7F) * 2 ^ (7 * i)) := by
    funext i c
    rw [Nat.mul_succ, Nat.pow_add, ← Nat.mul_assoc, Nat.mul_comm]
  rw [value, value, List.mapIdx_cons, List.sum_cons, hshift, List.mapIdx_eq_zipIdx_map,
    List.mapIdx_eq_zipIdx_map, List.sum_map_mul_left, toNat_and_low, Nat.mul_zero, Nat.pow_zero,
    Nat.mul_one]

theorem group_lt {i result : Nat} (b : UInt8) (hresult : result < 2 ^ (7 * i))
    : result + b.toNat % 128 * 2 ^ (7 * i) < 2 ^ (7 * (i + 1)) := by
  have hpow : 2 ^ (7 * (i + 1)) = 128 * 2 ^ (7 * i) := by
    rw [Nat.mul_succ, Nat.pow_add, Nat.mul_comm]
  have hlt : b.toNat % 128 < 128 := Nat.mod_lt _ (by omega)
  have hle : (b.toNat % 128 + 1) * 2 ^ (7 * i) ≤ 128 * 2 ^ (7 * i) := Nat.mul_le_mul_right _ hlt
  rw [Nat.add_mul, Nat.one_mul] at hle
  omega

theorem group_add_value (i result : Nat) (b : UInt8) (bytes : List UInt8)
    : result + value (b :: bytes) * 2 ^ (7 * i)
        =
      result + b.toNat % 128 * 2 ^ (7 * i) + value bytes * 2 ^ (7 * (i + 1)) := by
  have hpow : 2 ^ (7 * (i + 1)) = 128 * 2 ^ (7 * i) := by
    rw [Nat.mul_succ, Nat.pow_add, Nat.mul_comm]
  rw [value_cons, hpow, Nat.add_mul, Nat.add_assoc, Nat.mul_comm 128 (value bytes),
    Nat.mul_assoc]

theorem value_lt (bytes : List UInt8) : value bytes < 128 ^ bytes.length := by
  induction bytes with
  | nil => simp
  | cons b bytes ih =>
    rw [value_cons, List.length_cons, Nat.pow_succ]
    omega

theorem add_value_lt {i result : Nat} (bytes : List UInt8) (hresult : result < 2 ^ (7 * i))
    : result + value bytes * 2 ^ (7 * i) < 2 ^ (7 * (i + bytes.length)) := by
  have hpow : 2 ^ (7 * (i + bytes.length)) = 128 ^ bytes.length * 2 ^ (7 * i) := by
    rw [Nat.mul_add, Nat.pow_add, Nat.mul_comm, Nat.pow_mul 2 7]
  have hle : (value bytes + 1) * 2 ^ (7 * i) ≤ 128 ^ bytes.length * 2 ^ (7 * i) :=
    Nat.mul_le_mul_right _ (value_lt bytes)
  rw [Nat.add_mul, Nat.one_mul] at hle
  omega

theorem value_append (bytes bytes' : List UInt8)
    : value (bytes ++ bytes') = value bytes + 128 ^ bytes.length * value bytes' := by
  induction bytes with
  | nil => simp
  | cons b bytes ih =>
    rw [List.cons_append, value_cons, value_cons, ih, List.length_cons, Nat.pow_succ, Nat.mul_add,
      Nat.add_assoc, Nat.mul_right_comm, Nat.mul_comm 128 (128 ^ bytes.length * _),
      Nat.mul_right_comm]

theorem Framed.unique {bytes bytes' rest rest' : List UInt8} (h : Framed bytes)
    (h' : Framed bytes') (heq : bytes ++ rest = bytes' ++ rest')
    : bytes = bytes' ∧ rest = rest' := by
  induction bytes generalizing bytes' with
  | nil => exact absurd h not_framed_nil
  | cons b bytes ih =>
    cases bytes' with
    | nil => exact absurd h' not_framed_nil
    | cons b' bytes' =>
      rw [List.cons_append, List.cons_append, List.cons.injEq] at heq
      rcases heq with ⟨rfl, heq⟩
      rcases framed_cons.mp h with ⟨hb, rfl⟩ | ⟨hb, h⟩
      . rcases framed_cons.mp h' with ⟨-, rfl⟩ | ⟨hb', -⟩
        . exact ⟨rfl, heq⟩
        . omega
      . rcases framed_cons.mp h' with ⟨hb', -⟩ | ⟨-, h'⟩
        . omega
        . rcases ih h h' heq with ⟨rfl, hrest⟩
          exact ⟨rfl, hrest⟩

/-- `bytes` starts with a number of at most `limit` bytes, and `rest` is what comes behind it. -/
structure Starts (limit : Nat) (bytes input rest : List UInt8) : Prop where
  split : bytes = input ++ rest
  framed : Framed input
  length_le : input.length ≤ limit

namespace Starts

variable {limit : Nat} {b : UInt8} {bytes input rest : List UInt8}

theorem last (hlast : b.toNat < 128) : Starts (limit + 1) (b :: rest) [b] rest where
  split := rfl
  framed := framed_singleton.mpr hlast
  length_le := by simp

theorem more (hmore : ¬ (b.toNat < 128)) (h : Starts limit bytes input rest)
    : Starts (limit + 1) (b :: bytes) (b :: input) rest where
  split := by rw [h.split, List.cons_append]
  framed := framed_cons.mpr (Or.inr ⟨Nat.le_of_not_lt hmore, h.framed⟩)
  length_le := Nat.succ_le_succ h.length_le

theorem tail (hmore : ¬ (b.toNat < 128)) (h : Starts (limit + 1) (b :: bytes) input rest)
    : ∃ input', Starts limit bytes input' rest := by
  rcases h with ⟨hsplit, hframed, hlen⟩
  cases input with
  | nil => exact absurd hframed not_framed_nil
  | cons c input =>
    rw [List.cons_append, List.cons.injEq] at hsplit
    rcases hsplit with ⟨rfl, hsplit⟩
    rcases framed_cons.mp hframed with ⟨hlast, -⟩ | ⟨-, hframed⟩
    . exact absurd hlast hmore
    . exact ⟨input, hsplit, hframed, Nat.le_of_succ_le_succ hlen⟩

theorem input_ne_nil (h : Starts limit bytes input rest) : input ≠ [] := by
  rintro rfl
  exact not_framed_nil h.framed

theorem not_nil : ¬ Starts limit [] input rest := fun h =>
  h.input_ne_nil (List.append_eq_nil_iff.mp h.split.symm).1

theorem not_zero : ¬ Starts 0 bytes input rest := fun h =>
  h.input_ne_nil (List.length_eq_zero_iff.mp (Nat.le_zero.mp h.length_le))

end Starts

def encode (n : Nat) : List UInt8 :=
  if n < 128 then [UInt8.ofNat n] else UInt8.ofNat (n % 128 + 128) :: encode (n / 128)

theorem toNat_ofNat {n : Nat} (h : n < 256) : (UInt8.ofNat n).toNat = n := by
  rw [UInt8.toNat_ofNat', Nat.mod_eq_of_lt (by simpa using h)]

theorem framed_ofNat {n : Nat} (h : n < 128) : Framed [UInt8.ofNat n] := by
  rw [framed_singleton, toNat_ofNat (by omega)]
  exact h

theorem framed_ofNat_ofNat {m n : Nat} (hmore : ¬ (m < 128)) (hm : m < 256) (hn : n < 128)
    : Framed [UInt8.ofNat m, UInt8.ofNat n] := by
  rw [framed_cons, toNat_ofNat hm]
  exact Or.inr ⟨Nat.le_of_not_lt hmore, framed_ofNat hn⟩

theorem value_ofNat {n : Nat} (h : n < 128) : value [UInt8.ofNat n] = n := by
  rw [value_cons, toNat_ofNat (by omega), value_nil]
  omega

theorem framed_encode (n : Nat) : Framed (encode n) := by
  fun_induction encode n with
  | case1 n hlt => exact framed_ofNat hlt
  | case2 n hge ih =>
    rw [framed_cons, toNat_ofNat (by omega)]
    exact Or.inr ⟨by omega, ih⟩

@[simp]
theorem value_encode (n : Nat) : value (encode n) = n := by
  fun_induction encode n with
  | case1 n hlt => exact value_ofNat hlt
  | case2 n hge ih =>
    rw [value_cons, toNat_ofNat (by omega), ih]
    omega

theorem length_encode_le {n k : Nat} (hk : 0 < k) (h : n < 128 ^ k) : (encode n).length ≤ k := by
  induction k generalizing n with
  | zero => omega
  | succ k ih =>
    unfold encode
    split
    . simp
    . next hge =>
      have hk : 0 < k := by
        apply Nat.pos_of_ne_zero
        rintro rfl
        omega
      have hdiv : n / 128 < 128 ^ k := by
        rw [Nat.div_lt_iff_lt_mul (by omega), ← Nat.pow_succ]
        exact h
      have := ih hk hdiv
      rw [List.length_cons]
      omega

theorem encode_shortest {bytes : List UInt8} (h : Framed bytes)
    : (encode (value bytes)).length ≤ bytes.length := by
  apply length_encode_le
  . cases bytes with
    | nil => exact absurd h not_framed_nil
    | cons b bytes => simp
  . exact value_lt bytes

structure Shortest (n : Nat) (bytes : List UInt8) : Prop where
  framed : Framed bytes
  value_eq : value bytes = n
  length_le (other : List UInt8) : Framed other → value other = n → bytes.length ≤ other.length

theorem shortest_encode (n : Nat) : Shortest n (encode n) where
  framed := framed_encode n
  value_eq := value_encode n
  length_le := by
    rintro other hframed rfl
    exact encode_shortest hframed

/-- A number of at most `max_bits` bits, in no more bytes than a number of so many bits can take. -/
structure InRange (max_bits : Nat) (bytes : List UInt8) : Prop where
  framed : Framed bytes
  length_le : bytes.length ≤ (max_bits + 6) / 7
  value_lt : value bytes < 2 ^ max_bits

theorem inRange_encode {max_bits n : Nat} (hbits : 0 < max_bits) (h : n < 2 ^ max_bits)
    : InRange max_bits (encode n) where
  framed := framed_encode n
  length_le := by
    apply length_encode_le
    . omega
    . have hpow : 128 ^ ((max_bits + 6) / 7) = 2 ^ (7 * ((max_bits + 6) / 7)) := by
        rw [Nat.pow_mul]
      rw [hpow]
      exact Nat.lt_of_lt_of_le h (Nat.pow_le_pow_right (by omega) (by omega))
  value_lt := by
    rw [value_encode]
    exact h

theorem value_lt_of_length_le {bytes : List UInt8} {k : Nat} (h : bytes.length ≤ k)
    : value bytes < 128 ^ k :=
  Nat.lt_of_lt_of_le (value_lt bytes) (Nat.pow_le_pow_right (by decide) h)

theorem value_snoc (init : List UInt8) {last : UInt8} (hlast : last.toNat < 128)
    : value (init ++ [last]) = value init + last.toNat * 128 ^ init.length := by
  rw [value_append, value_cons, value_nil, Nat.mod_eq_of_lt hlast, Nat.mul_zero, Nat.add_zero,
    Nat.mul_comm]

theorem Framed.of_value_eq_zero {bytes : List UInt8} (h : Framed bytes) (hvalue : value bytes = 0)
    : ∃ init, bytes = init ++ [0] := by
  rcases h with ⟨init, last, rfl, -, hlast⟩
  rw [value_snoc init hlast] at hvalue
  have hpow : 0 < 128 ^ init.length := Nat.pow_pos (by decide)
  have hzero : last.toNat = 0 := by
    rcases Nat.mul_eq_zero.mp (Nat.eq_zero_of_add_eq_zero_left hvalue) with hzero | hzero
    . exact hzero
    . omega
  have hlast_eq : last = 0 := UInt8.toNat_inj.mp hzero
  exact ⟨init, by rw [hlast_eq]⟩

theorem Framed.eq_nil_of_append {past bytes rest : List UInt8} (hbytes : Framed bytes)
    (h : Framed (past ++ bytes ++ rest)) : rest = [] := by
  rcases hbytes with ⟨init, last, rfl, -, hlast⟩
  rcases h with ⟨init', last', hsplit, hinit', -⟩
  rcases List.eq_nil_or_concat rest with rfl | ⟨rest, b, rfl⟩
  . rfl
  . rw [List.concat_eq_append, ← List.append_assoc] at hsplit
    rcases List.append_inj' hsplit rfl with ⟨hinit, -⟩
    have hmem : last ∈ init' := by
      rw [← hinit]
      simp
    have := hinit' last hmem
    omega

theorem zero_not_mem_encode {n : Nat} (h : 0 < n) : 0 ∉ encode n := by
  fun_induction encode n with
  | case1 n hn =>
    rw [List.mem_singleton]
    intro heq
    have htoNat := congrArg UInt8.toNat heq
    rw [toNat_ofNat (by omega)] at htoNat
    have hzero : (0 : UInt8).toNat = 0 := rfl
    omega
  | case2 n hn ih =>
    rw [List.mem_cons, not_or]
    refine ⟨?_, ih (by omega)⟩
    intro heq
    have htoNat := congrArg UInt8.toNat heq
    rw [toNat_ofNat (by omega)] at htoNat
    have hzero : (0 : UInt8).toNat = 0 := rfl
    omega

/-- `k` groups that go on, and a last one that is `limit` or more. -/
def LastOverflows (k limit : Nat) (bytes : List UInt8) : Prop :=
  ∃ init last rest, bytes = init ++ last :: rest ∧ init.length = k ∧ (∀ b ∈ init, 128 ≤ b.toNat)
    ∧ limit ≤ last.toNat ∧ last.toNat < 128

theorem lastOverflows_iff {k limit : Nat} {input rest : List UInt8} (hlimit : 0 < limit)
    (hframed : Framed input) (hlen : input.length ≤ k + 1)
    : LastOverflows k limit (input ++ rest) ↔ limit * 128 ^ k ≤ value input := by
  constructor
  . rintro ⟨init, last, rest', hsplit, rfl, hinit, hge, hlast⟩
    have hframed' : Framed (init ++ [last]) := ⟨init, last, rfl, hinit, hlast⟩
    have hsplit' : input ++ rest = (init ++ [last]) ++ rest' := by simp [hsplit]
    rw [(hframed.unique hframed' hsplit').1, value_snoc init hlast]
    have := Nat.mul_le_mul_right (128 ^ init.length) hge
    omega
  . intro hge
    rcases hframed with ⟨init, last, rfl, hinit, hlast⟩
    rw [List.length_append, List.length_singleton] at hlen
    rw [value_snoc init hlast] at hge
    have hpos : 0 < 128 ^ k := Nat.pow_pos (by decide)
    have hk : init.length = k := by
      -- with fewer groups the number is too small
      apply Nat.le_antisymm (by omega)
      apply Nat.le_of_not_lt
      intro hshort
      have hlt : value (init ++ [last]) < 128 ^ k := value_lt_of_length_le (by simp; omega)
      rw [value_snoc init hlast] at hlt
      have := Nat.mul_le_mul_right (128 ^ k) hlimit
      omega
    subst hk
    refine ⟨init, last, rest, by simp, rfl, hinit, ?_, hlast⟩
    have hvalue := value_lt init
    apply Nat.le_of_not_lt
    intro hsmall
    have := Nat.mul_le_mul_right (128 ^ init.length) hsmall
    rw [Nat.succ_mul] at this
    omega

theorem LastOverflows.framed {k limit : Nat} {bytes : List UInt8} (h : LastOverflows k limit bytes)
    : ∃ input rest, bytes = input ++ rest ∧ Framed input ∧ input.length = k + 1 := by
  rcases h with ⟨init, last, rest, rfl, rfl, hinit, -, hlast⟩
  exact ⟨init ++ [last], rest, by simp, ⟨init, last, rfl, hinit, hlast⟩, by simp⟩

/-- The number of at most `limit` bytes that the bytes start with, and what comes behind it. -/
def take? (limit : Nat) (bytes : List UInt8) : Option (Nat × List UInt8) :=
  match limit, bytes with
  | 0, _ => none
  | _ + 1, [] => none
  | limit + 1, b :: bytes =>
    if b.toNat < 128 then
      some (b.toNat, bytes)
    else do
      let (n, rest) ← take? limit bytes
      return (b.toNat % 128 + 128 * n, rest)

theorem take?_append {limit : Nat} {input : List UInt8} (h : Framed input)
    (hlen : input.length ≤ limit) (rest : List UInt8)
    : take? limit (input ++ rest) = some (value input, rest) := by
  induction input generalizing limit with
  | nil => exact absurd h not_framed_nil
  | cons b input ih =>
    cases limit with
    | zero => simp at hlen
    | succ limit =>
      rw [List.cons_append, take?, value_cons]
      rcases framed_cons.mp h with ⟨hb, rfl⟩ | ⟨hb, h⟩
      . rw [if_pos hb, value_nil, Nat.mul_zero, Nat.add_zero, Nat.mod_eq_of_lt hb]
        rfl
      . rw [if_neg (Nat.not_lt.mpr hb), ih h (Nat.le_of_succ_le_succ hlen)]
        rfl

theorem take?_encode {limit n : Nat} (hlimit : 0 < limit) (h : n < 128 ^ limit) (rest : List UInt8)
    : take? limit (encode n ++ rest) = some (n, rest) := by
  rw [take?_append (framed_encode n) (length_encode_le hlimit h), value_encode]

end Varint

end McStatus
