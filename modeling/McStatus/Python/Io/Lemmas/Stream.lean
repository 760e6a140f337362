import McStatus.Python.Io.Lemmas.Record
import McStatus.Python.Io.RoundTrip

/-!
This module contains what a read of a packet takes from a source that is only known to hand out its
bytes in order where it is asked for no negative number of them.
-/

namespace McStatus

open Reader

namespace Python

open BaseSyncReader

section Lawful

variable {σ : Type} [LawfulReader σ] {s s' : σ}

theorem readVaruint_eq_ok {max_bits n : Nat} (h : readVaruint max_bits s = .ok n s')
    : ∃ input, LawfulReader.view s = input ++ LawfulReader.view s' ∧ Varint.InRange max_bits input
        ∧ n = Varint.value input := by
  rcases readVaruint_cases max_bits s with ⟨input, t, hview, hrange, hok⟩ | ⟨e, t, herror, -⟩
  . cases h.symm.trans hok
    exact ⟨input, hview, hrange, rfl⟩
  . cases h.symm.trans herror

theorem readVarint_eq_ok {value : Int} (hvalue : 0 ≤ value) (h : readVarint s = .ok value s')
    : ∃ input, LawfulReader.view s = input ++ LawfulReader.view s' ∧ Varint.InRange 32 input
        ∧ value = Varint.value input := by
  rcases bind_eq_ok.mp h with ⟨n, t, hread, hsigned⟩
  rcases readVaruint_eq_ok hread with ⟨input, hview, hrange, rfl⟩
  cases hfrom : fromTwosComplement (Varint.value input) 32 with
  | error e =>
    rw [hfrom] at hsigned
    cases hsigned
  | ok signed =>
    rw [hfrom] at hsigned
    cases hsigned
    exact ⟨input, hview, hrange,
      (eq_of_fromTwosComplement (by decide) hrange.value_lt hvalue hfrom).1⟩

theorem readBytearray_eq_ok {data : List UInt8} (h : readBytearray s = .ok data s')
    : ∃ length, LawfulReader.view s = length ++ (data ++ LawfulReader.view s')
        ∧ Varint.InRange 32 length ∧ Varint.value length = data.length := by
  rcases bind_eq_ok.mp h with ⟨value, t, hvarint, hdata⟩
  split at hdata
  . cases hdata
  . next hneg =>
    rcases readVarint_eq_ok (Int.not_lt.mp hneg) hvarint with ⟨length, hview, hrange, rfl⟩
    rcases LawfulReader.length_of_read hdata with ⟨hlen, hview'⟩
    exact ⟨length, by rw [hview, hview'], hrange, Int.ofNat_inj.mp hlen⟩

theorem readUtf_eq_ok {text : List Char} (h : readUtf s = .ok text s')
    : ∃ size, LawfulReader.view s = size ++ (Utf8.encode text ++ LawfulReader.view s')
        ∧ Varint.InRange 32 size ∧ Varint.value size = (Utf8.encode text).length := by
  rcases bind_eq_ok.mp h with ⟨value, t, hvarint, h⟩
  split at h
  . cases h
  . next hneg =>
    split at h
    . cases h
    . rcases bind_eq_ok.mp h with ⟨data, u, hread, h⟩
      rcases bind_eq_ok.mp h with ⟨chars, v, hdecode, h⟩
      rcases readVarint_eq_ok (Int.not_lt.mp hneg) hvarint with ⟨size, hview, hrange, rfl⟩
      rcases LawfulReader.length_of_read hread with ⟨hlen, hview'⟩
      rw [decodeUtf8] at hdecode
      cases hdecoded : Utf8.decode? data with
      | none =>
        rw [hdecoded] at hdecode
        cases hdecode
      | some chars' =>
        rw [hdecoded] at hdecode
        cases hdecode
        split at h
        . cases h
        . cases h
          rw [Utf8.encode_of_decode? hdecoded]
          exact ⟨size, by rw [hview, hview'], hrange, Int.ofNat_inj.mp hlen⟩

end Lawful

/-- A source whose reads hand out the bytes of `view` in order, and raise `OSError` at its end. -/
class StreamReader (σ : Type) extends BaseSyncReader σ where
  view : σ → List UInt8
  IsEnd : Exception → Prop
  isOSError_of_isEnd {e : Exception} : IsEnd e → e.IsOSError
  consumes_read (input : List UInt8) : Consumes view (read input.length) input input
  runsOut_read (input : List UInt8) : RunsOut view IsEnd (read input.length) input
  length_of_read {s s' : σ} {n : Nat} {data : List UInt8} :
    read n s = .ok data s' → n = data.length ∧ view s = data ++ view s'

/-- The same source, which raises where it is asked for a negative number of bytes. -/
def Guarded (σ : Type) : Type := σ

namespace Guarded

variable {σ : Type} [StreamReader σ]

def read (n : Int) : Py (Guarded σ) (List UInt8) :=
  if n < 0 then throw (.osError (.negativeRead n)) else (BaseSyncReader.read n : Py σ (List UInt8))

theorem read_natCast (n : Nat)
    : (read n : Py (Guarded σ) (List UInt8)) = (BaseSyncReader.read n : Py σ (List UInt8)) :=
  if_neg (by omega)

theorem not_neg_of_read {n : Int} {s s' : Guarded σ} {data : List UInt8}
    (h : read n s = .ok data s') : ¬ n < 0 := by
  intro hneg
  have hthrow : (read n : Py (Guarded σ) (List UInt8)) = throw (.osError (.negativeRead n)) :=
    if_pos hneg
  rw [hthrow] at h
  cases h

instance : LawfulReader (Guarded σ) where
  read := read
  available s := BaseSyncReader.available (σ := σ) s
  available_lt h := BaseSyncReader.available_lt (σ := σ)
    (by rwa [← Nat.cast_one, read_natCast] at h)
  view s := StreamReader.view (σ := σ) s
  IsEnd := StreamReader.IsEnd σ
  isOSError_of_isEnd := StreamReader.isOSError_of_isEnd
  consumes_read input := by
    rw [read_natCast]
    exact StreamReader.consumes_read (σ := σ) input
  runsOut_read input := by
    rw [read_natCast]
    exact StreamReader.runsOut_read (σ := σ) input
  length_of_read := by
    intro s s' n data h
    rcases Int.eq_ofNat_of_zero_le (Int.not_lt.mp (not_neg_of_read h)) with ⟨k, rfl⟩
    change read k s = .ok data s' at h
    rw [read_natCast] at h
    rcases StreamReader.length_of_read (σ := σ) h with ⟨hlen, hview⟩
    exact ⟨congrArg Nat.cast hlen, hview⟩

theorem readVaruint_eq (max_bits : Nat)
    : (readVaruint max_bits : Py (Guarded σ) Nat) = (readVaruint max_bits : Py σ Nat) := by
  have hgo : ∀ left i result, (readVaruint.go max_bits left i result : Py (Guarded σ) Nat)
      = (readVaruint.go max_bits left i result : Py σ Nat) := by
    intro left
    induction left with
    | zero => intro i result; rfl
    | succ left ih =>
      intro i result
      rw [readVaruint.go, readVaruint.go]
      simp only [ih]
      rfl
  exact hgo _ _ _

theorem readVarint_eq : (readVarint : Py (Guarded σ) Int) = (readVarint : Py σ Int) := by
  rw [readVarint, readVaruint_eq]
  rfl

theorem readBytearray_eq
    : (readBytearray : Py (Guarded σ) (List UInt8)) = (readBytearray : Py σ (List UInt8)) := by
  rw [readBytearray, readVarint_eq, readBytearray]
  congr 1
  funext length
  by_cases hneg : length < 0
  . rw [if_pos hneg, if_pos hneg]
    rfl
  . rw [if_neg hneg, if_neg hneg]
    exact if_neg hneg

end Guarded

section Stream

variable {σ : Type} [StreamReader σ]

theorem StreamReader.consumes_readBytearray {data : List UInt8} (h : data.length < 2 ^ 31)
    : Consumes StreamReader.view (readBytearray : Py σ (List UInt8))
        (Varint.encode data.length ++ data) data := by
  have hconsumes := @Python.consumes_readBytearray (Guarded σ) _ data h
  rw [Guarded.readBytearray_eq] at hconsumes
  exact hconsumes

theorem StreamReader.delimited_readBytearray
    : Delimited StreamReader.view (StreamReader.IsEnd σ) (readBytearray : Py σ (List UInt8)) := by
  have hdelimited := @BaseSyncReader.delimited_readBytearray (Guarded σ) _
  rw [Guarded.readBytearray_eq] at hdelimited
  exact hdelimited

theorem StreamReader.readBytearray_eq_ok {s s' : σ} {data : List UInt8}
    (h : readBytearray s = .ok data s')
    : ∃ length, StreamReader.view s = length ++ (data ++ StreamReader.view s')
        ∧ Varint.InRange 32 length ∧ Varint.value length = data.length := by
  rw [← Guarded.readBytearray_eq] at h
  exact @Python.readBytearray_eq_ok (Guarded σ) _ s s' data h

end Stream

end Python

end McStatus
