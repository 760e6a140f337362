import McStatus.Library.Attempts
import McStatus.Python.Io.Lemmas.Codec

/-!
This module contains what has been read when a reader returns, for sources that may raise at any
time: they keep a record of the bytes they have handed out.
-/

namespace McStatus

open Reader

namespace Python

open BaseSyncReader

class RecordingReader (σ : Type) extends BaseSyncReader σ where
  record : σ → List UInt8
  record_of_read {s s' : σ} {n : Nat} {data : List UInt8} :
    read (n : Int) s = .ok data s' → data.length = n ∧ record s' = record s ++ data

open RecordingReader

variable {σ : Type} [RecordingReader σ]

theorem readUbyte_record {s s' : σ} {value : Int} (h : readValue .ubyte s = .ok value s')
    : ∃ b : UInt8, value = b.toNat ∧ record s' = record s ++ [b] := by
  rcases bind_eq_ok.mp h with ⟨data, t, hread, hunpack⟩
  rcases record_of_read hread with ⟨hlen, hrecord⟩
  rcases List.length_eq_one_iff.mp hlen with ⟨b, rfl⟩
  rw [unpack_ubyte, ofExcept_ok, pure_apply, EStateM.Result.ok.injEq] at hunpack
  rcases hunpack with ⟨rfl, rfl⟩
  exact ⟨b, rfl, hrecord⟩

theorem readVaruint_go_record {max_bits left i result n : Nat} {s s' : σ}
    (hresult : result < 2 ^ (7 * i))
    (h : readVaruint.go max_bits left i result s = .ok n s')
    : ∃ input, record s' = record s ++ input ∧ Varint.Framed input ∧ input.length ≤ left
        ∧ n = result + Varint.value input * 2 ^ (7 * i) ∧ n < 2 ^ max_bits := by
  induction left generalizing i result s with
  | zero => cases h
  | succ left ih =>
    rw [readVaruint.go] at h
    rcases bind_eq_ok.mp h with ⟨value, t, hread, h⟩
    rcases readUbyte_record hread with ⟨b, rfl, hrecord⟩
    have hmax (n : Nat) : n > readVaruint.value_max max_bits ↔ 2 ^ max_bits ≤ n := by
      have := Nat.two_pow_pos max_bits
      rw [readVaruint.value_max]
      omega
    simp only [Int.toNat_natCast, toNat_and_low, toNat_and_high_eq_zero_iff,
      or_shiftLeft_of_lt hresult, hmax] at h
    by_cases hbig : 2 ^ max_bits ≤ result + b.toNat % 128 * 2 ^ (7 * i)
    . rw [if_pos hbig] at h
      cases h
    . rw [if_neg hbig] at h
      by_cases hlast : b.toNat < 128
      . rw [if_pos hlast, pure_apply, EStateM.Result.ok.injEq] at h
        rcases h with ⟨rfl, rfl⟩
        have hvalue := Varint.group_add_value i result b []
        rw [Varint.value_nil, Nat.zero_mul, Nat.add_zero] at hvalue
        exact ⟨[b], hrecord, Varint.framed_singleton.mpr hlast, by simp, hvalue.symm, by omega⟩
      . rw [if_neg hlast] at h
        rcases ih (Varint.group_lt b hresult) h with ⟨input, hrest, hframed, hlen, hn, hlt⟩
        refine ⟨b :: input, ?_, ?_, Nat.succ_le_succ hlen, ?_, hlt⟩
        . rw [hrest, hrecord, List.append_assoc, List.singleton_append]
        . exact Varint.framed_cons.mpr (Or.inr ⟨Nat.le_of_not_lt hlast, hframed⟩)
        . rw [hn, Varint.group_add_value]

theorem readVaruint_record {max_bits n : Nat} {s s' : σ} (h : readVaruint max_bits s = .ok n s')
    : ∃ input, record s' = record s ++ input ∧ Varint.InRange max_bits input
        ∧ n = Varint.value input := by
  rcases readVaruint_go_record (by simp) h with ⟨input, hrecord, hframed, hlen, hn, hlt⟩
  have hn : n = Varint.value input := by simpa using hn
  exact ⟨input, hrecord, ⟨hframed, hlen, hn ▸ hlt⟩, hn⟩

theorem eq_of_fromTwosComplement {bits n : Nat} {value : Int} (hbits : 1 ≤ bits) (hn : n < 2 ^ bits)
    (hvalue : 0 ≤ value) (h : fromTwosComplement n bits = .ok value)
    : value = n ∧ n < 2 ^ (bits - 1) := by
  have hcast : ((2 ^ bits : Nat) : Int) = 2 ^ bits := by simp
  have hcast' : ((2 ^ (bits - 1) : Nat) : Int) = 2 ^ (bits - 1) := by simp
  rcases (fromTwosComplement_eq_ok_iff hbits).mp h with ⟨-, rfl⟩
  rw [TwosComplement.decode] at hvalue ⊢
  split at hvalue
  . next hlow =>
    rw [if_pos hlow]
    omega
  . omega

theorem readBytearray_record {s s' : σ} {data : List UInt8} (h : readBytearray s = .ok data s')
    : ∃ length, record s' = record s ++ (length ++ data) ∧ Varint.InRange 32 length
        ∧ Varint.value length = data.length ∧ data.length < 2 ^ 31 := by
  rcases bind_eq_ok.mp h with ⟨value, t, hvarint, hdata⟩
  rcases bind_eq_ok.mp hvarint with ⟨n, u, hvaruint, hsigned⟩
  rcases readVaruint_record hvaruint with ⟨length, hrecord, hrange, rfl⟩
  split at hdata
  . cases hdata
  . next hnonneg =>
    cases hfrom : fromTwosComplement (Varint.value length) 32 with
    | error e =>
      rw [hfrom] at hsigned
      cases hsigned
    | ok signed =>
      rw [hfrom, ofExcept_ok, pure_apply, EStateM.Result.ok.injEq] at hsigned
      rcases hsigned with ⟨rfl, rfl⟩
      rcases eq_of_fromTwosComplement (by decide) hrange.value_lt (by omega) hfrom with ⟨rfl, hlt⟩
      rcases record_of_read hdata with ⟨hlen, hrest⟩
      refine ⟨length, ?_, hrange, hlen.symm, ?_⟩
      . rw [hrest, hrecord, List.append_assoc]
      . rw [hlen]
        exact hlt

section Keeps

variable {τ : Type} {I : τ → Prop}

theorem keeps_ofExcept {α : Type} (x : Except Exception α) : Keeps I (ofExcept x : Py τ α) := by
  cases x with
  | ok a => exact Keeps.pure a
  | error e => exact Keeps.throw e

section Read

variable [BaseSyncReader τ]

theorem keeps_readVaruint (h : ∀ n, Keeps I (read n : Py τ (List UInt8))) (max_bits : Nat)
    : Keeps I (readVaruint max_bits : Py τ Nat) := by
  have hgo : ∀ left i result, Keeps I (readVaruint.go max_bits left i result : Py τ Nat) := by
    intro left
    induction left with
    | zero =>
      intro i result
      exact Keeps.throw _
    | succ left ih =>
      intro i result
      refine Keeps.bind (Keeps.bind (h _) fun data => keeps_ofExcept _) fun byte => ?_
      apply Keeps.ite
      . exact Keeps.throw _
      . apply Keeps.ite
        . exact Keeps.pure _
        . exact ih _ _
  exact hgo _ _ _

theorem keeps_readBytearray (h : ∀ n, Keeps I (read n : Py τ (List UInt8)))
    : Keeps I (readBytearray : Py τ (List UInt8)) := by
  refine Keeps.bind (Keeps.bind (keeps_readVaruint h 32) fun n => keeps_ofExcept _) fun length => ?_
  apply Keeps.ite
  . exact Keeps.throw _
  . exact h length

end Read

section Write

open BaseSyncWriter

variable [BaseSyncWriter τ]

theorem keeps_writeValue (h : ∀ data, Keeps I (write data : Py τ Unit))
    (fmt : StructFormat) (value : fmt.Value)
    : Keeps I (writeValue fmt value : Py τ Unit) :=
  Keeps.bind (keeps_ofExcept _) fun data => h data

theorem keeps_writeVaruint_go (h : ∀ data, Keeps I (write data : Py τ Unit))
    (remaining : Nat) : Keeps I (writeVaruint.go remaining : Py τ Unit) := by
  rw [writeVaruint.go]
  split
  . exact keeps_writeValue h .ubyte _
  . exact Keeps.bind (keeps_writeValue h .ubyte _) fun _ =>
      keeps_writeVaruint_go h (remaining >>> 7)
termination_by remaining
decreasing_by
  rw [Nat.shiftRight_eq_div_pow]
  apply Nat.div_lt_self <;> omega

theorem keeps_writeVarint (h : ∀ data, Keeps I (write data : Py τ Unit)) (value : Int)
    : Keeps I (writeVarint value : Py τ Unit) := by
  refine Keeps.bind (keeps_ofExcept _) fun val => ?_
  apply Keeps.ite
  . exact Keeps.throw _
  . exact keeps_writeVaruint_go h _

theorem keeps_writeUtf (h : ∀ data, Keeps I (write data : Py τ Unit))
    (value : List Char) : Keeps I (writeUtf value : Py τ Unit) := by
  apply Keeps.ite
  . exact Keeps.throw _
  . exact Keeps.bind (keeps_writeVarint h _) fun _ => h _

end Write

end Keeps

end Python

end McStatus
