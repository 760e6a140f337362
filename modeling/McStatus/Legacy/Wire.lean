import McStatus.Library.BigEndian

/-!
This module contains the packets of the protocol from before 1.7: a request, and the kick that a
server answers it with.
-/

namespace McStatus

namespace Legacy

def request : List UInt8 :=
  [0xFE, 0x01, 0xFA]

def kick (codes : List UInt8) : List UInt8 :=
  0xFF :: (BigEndian.encode 2 (codes.length / 2) ++ codes)

def takeKick (bytes : List UInt8) : Option (List UInt8 × List UInt8) :=
  match bytes with
  | id :: high :: low :: rest =>
    let size := BigEndian.decode [high, low] * 2
    if id = 0xFF ∧ size ≤ rest.length then some (rest.take size, rest.drop size) else none
  | _ => none

theorem takeKick_eq_some_iff {bytes codes rest : List UInt8}
    : takeKick bytes = some (codes, rest)
        ↔ ∃ high low, bytes = 0xFF :: high :: low :: (codes ++ rest)
          ∧ codes.length = BigEndian.decode [high, low] * 2 := by
  constructor
  . intro h
    match bytes, h with
    | id :: high :: low :: tail, h =>
      rw [takeKick] at h
      split at h
      . next hkick =>
        rcases hkick with ⟨rfl, hsize⟩
        cases h
        exact ⟨high, low, by rw [List.take_append_drop], List.length_take_of_le hsize⟩
      . cases h
  . rintro ⟨high, low, rfl, hsize⟩
    have hle : BigEndian.decode [high, low] * 2 ≤ (codes ++ rest).length := by
      rw [List.length_append]
      omega
    rw [takeKick]
    rw [if_pos ⟨rfl, hle⟩, ← hsize, List.take_left, List.drop_left]

theorem takeKick_append {bytes codes rest : List UInt8} (h : takeKick bytes = some (codes, rest))
    (more : List UInt8) : takeKick (bytes ++ more) = some (codes, rest ++ more) := by
  rcases takeKick_eq_some_iff.mp h with ⟨high, low, rfl, hsize⟩
  refine takeKick_eq_some_iff.mpr ⟨high, low, ?_, hsize⟩
  simp only [List.cons_append, List.append_assoc]

def Foreign (bytes : List UInt8) : Prop :=
  ∃ id rest, bytes = id :: rest ∧ id ≠ 0xFF

theorem short_of_takeKick {rest : List UInt8} (h : takeKick (0xFF :: rest) = none)
    : rest.length < 2
        ∨ ∃ high low tail, rest = high :: low :: tail
          ∧ tail.length < BigEndian.decode [high, low] * 2 := by
  match rest with
  | [] => exact Or.inl (by decide)
  | [high] => exact Or.inl (Nat.one_lt_two)
  | high :: low :: tail =>
    refine Or.inr ⟨high, low, tail, rfl, ?_⟩
    rw [takeKick] at h
    split at h
    . cases h
    . next hnot =>
      by_contra hle
      exact hnot ⟨rfl, Nat.not_lt.mp hle⟩

theorem takeKick_kick {codes : List UInt8} (heven : codes.length % 2 = 0)
    (hlt : codes.length < 2 ^ 17) (rest : List UInt8)
    : takeKick (kick codes ++ rest) = some (codes, rest) := by
  have hdecode : BigEndian.decode (BigEndian.encode 2 (codes.length / 2)) = codes.length / 2 :=
    BigEndian.decode_encode_of_lt (by omega)
  have hbytes : ∃ high low, BigEndian.encode 2 (codes.length / 2) = [high, low] := ⟨_, _, rfl⟩
  rcases hbytes with ⟨high, low, heq⟩
  rw [heq] at hdecode
  rw [takeKick_eq_some_iff, kick, heq]
  refine ⟨high, low, rfl, ?_⟩
  rw [hdecode]
  omega

theorem length_kick (codes : List UInt8) : (kick codes).length = 3 + codes.length := by
  rw [kick, List.length_cons, List.length_append, BigEndian.length_encode]
  omega

theorem not_foreign_of_isPrefix {bytes codes : List UInt8} (h : bytes <+: kick codes)
    : ¬ Foreign bytes := by
  rintro ⟨id, rest, rfl, hid⟩
  rw [kick, List.cons_prefix_cons] at h
  exact hid h.1

theorem takeKick_of_isPrefix {bytes codes : List UInt8} (heven : codes.length % 2 = 0)
    (hlt : codes.length < 2 ^ 17) (h : bytes <+: kick codes) (hne : bytes ≠ kick codes)
    : takeKick bytes = none := by
  cases htake : takeKick bytes with
  | none => rfl
  | some found =>
    rcases h with ⟨more, hmore⟩
    have hwhole := takeKick_append htake more
    have hall := takeKick_kick heven hlt []
    rw [List.append_nil] at hall
    rw [hmore, hall, Option.some.injEq, Prod.mk.injEq] at hwhole
    rcases List.append_eq_nil_iff.mp hwhole.2.symm with ⟨-, rfl⟩
    rw [List.append_nil] at hmore
    exact absurd hmore hne

end Legacy

end McStatus
