import McStatus.Rust.Io.RoundTrip

/-!
This module contains the limits of `write_mc_utf` and `read_mc_utf`, which take `len` for the number
of characters.
-/

namespace McStatus

open Reader

namespace Rust

open LawfulRead

def lengthPrefixed (data : List UInt8) : List UInt8 :=
  Varint.encode data.length ++ data

section Read

variable {σ : Type} [LawfulRead σ]

theorem toInt_ofNat_of_not_neg {n : Nat} (hn : n < 2 ^ 32) (h : ¬ (Int32.ofNat n < 0))
    : (Int32.ofNat n).toInt = n := by
  rw [Int32.lt_iff_toInt_lt, Int32.toInt_zero, Int32.toInt_ofNat'] at h
  have hsize : Int32.size = 2 ^ 32 := rfl
  rw [Int32.toInt_ofNat']
  rw [hsize, Int.bmod_def] at h ⊢
  omega

theorem readMcUtf_isError {value : List Char} (hlong : 32767 < utf8Len value) {s : σ}
    {rest : List UInt8} (hview : view s = lengthPrefixed (Utf8.encode value) ++ rest)
    : ∃ e s', readMcUtf s = .error (.error e) s' := by
  rw [lengthPrefixed, List.append_assoc] at hview
  rcases readVarint_cases s with ⟨input, t, hstart, hrange, hread⟩ | ⟨e, t, herror⟩
  . rw [hview] at hstart
    rcases (Varint.framed_encode _).unique hrange.framed hstart with ⟨rfl, hdata⟩
    have hlt := hrange.value_lt
    rw [Varint.value_encode] at hread hlt
    rw [readMcUtf, bind_of_ok hread]
    by_cases hneg : Int32.ofNat (Utf8.encode value).length < 0
    . rw [if_pos hneg]
      exact ⟨_, t, rfl⟩
    . rw [if_neg hneg]
      by_cases hbytes : Int32.ofNat (Utf8.encode value).length > 131068
      . rw [if_pos hbytes]
        exact ⟨_, t, rfl⟩
      . rw [if_neg hbytes, toInt_ofNat_of_not_neg hlt hneg, Int.toNat_natCast]
        rcases consumes_readExact (Utf8.encode value) t rest hdata.symm with ⟨u, hexact, -⟩
        rw [bind_of_ok hexact, Utf8.decode?_encode]
        dsimp only
        rw [if_pos hlong]
        exact ⟨_, u, rfl⟩
  . exact ⟨e, t, bind_of_error herror⟩

end Read

theorem writeMcUtf_isError {value : List Char} (hlong : 32767 < utf8Len value) (b : Buffer)
    : ∃ e b', writeMcUtf value b = .error (.error e) b' := by
  rw [writeMcUtf, if_pos hlong]
  exact ⟨_, b, rfl⟩

/-- The limit as it is documented: 32767 characters can be written and read, and no more. -/
def CountsChars (value : List Char) : Prop :=
  (value.length ≤ 32767 →
      ∃ bytes, Writes (writeMcUtf value) bytes
        ∧ ∀ (b : Buffer) rest, b.unread = bytes ++ rest →
          ∃ b', readMcUtf b = .ok value b' ∧ b'.unread = rest)
    ∧ (32767 < value.length →
      (∀ b : Buffer, ∃ e b', writeMcUtf value b = .error (.error e) b')
        ∧ ∀ (b : Buffer) rest, b.unread = lengthPrefixed (Utf8.encode value) ++ rest →
          ∃ e b', readMcUtf b = .error (.error e) b')

theorem not_countsChars {value : List Char} (hchars : value.length ≤ 32767)
    (hbytes : 32767 < utf8Len value) : ¬ CountsChars value := by
  rintro ⟨hkeeps, -⟩
  rcases hkeeps hchars with ⟨bytes, hwrite, -⟩
  have hle := writeMcUtf_eq_ok_iff.mp ⟨_, hwrite Buffer.new⟩
  omega

theorem countsChars_iff (value : List Char)
    : CountsChars value ↔ utf8Len value ≤ 32767 ∨ 32767 < value.length := by
  constructor
  . intro h
    cases Nat.lt_or_ge 32767 value.length with
    | inl hlong => exact Or.inr hlong
    | inr hshort =>
      left
      apply Nat.le_of_not_lt
      intro hbytes
      exact not_countsChars hshort hbytes h
  . have hle := length_le_utf8Len value
    rintro (hshort | hlong)
    . refine ⟨fun _ => ⟨_, writes_writeMcUtf hshort, ?_⟩, fun hlong => by omega⟩
      exact consumes_readMcUtf hshort
    . have hbytes : 32767 < utf8Len value := by omega
      refine ⟨fun hshort => by omega, fun _ => ⟨writeMcUtf_isError hbytes, ?_⟩⟩
      intro b rest hview
      exact readMcUtf_isError hbytes hview

theorem not_countsChars_replicate : ¬ CountsChars (List.replicate 16384 'é') := by
  have hbytes : utf8Len (List.replicate 16384 'é') = 16384 * 2 := by
    rw [utf8Len, List.map_replicate, List.sum_replicate_nat]
    rfl
  apply not_countsChars
  . rw [List.length_replicate]
    decide
  . rw [hbytes]
    decide

end Rust

end McStatus
