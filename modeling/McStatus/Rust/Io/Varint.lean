import McStatus.Rust.Io.Lemmas.Read
import McStatus.Rust.Io.Lemmas.TwosComplement

/-!
This module contains what `read_varint` and `read_varlong` accept. An `i32` is read exactly; the
tenth group of an `i64` has one bit left in the accumulator, and what it carries above that is lost
in front of the range check.
-/

namespace McStatus

open Reader

namespace Rust

open LawfulRead

variable {σ : Type} [LawfulRead σ]

theorem readVarint_of_ok {n : Nat} {s s' : σ} (h : readVaruint 32 s = .ok (UInt64.ofNat n) s')
    (hn : n < 2 ^ 32) : readVarint s = .ok (Int32.ofNat n) s' := by
  have htoNat : (UInt64.ofNat n).toNat = n := by
    rw [UInt64.toNat_ofNat']
    omega
  rcases @fromTwosComplement_32 (UInt64.ofNat n) (by omega) with ⟨v, hfrom, hv⟩
  rw [htoNat] at hv
  rw [readVarint, bind_of_ok h, hfrom, ← hv]
  rfl

theorem readVarlong_of_ok {n : Nat} {s s' : σ} (h : readVaruint 64 s = .ok (UInt64.ofNat n) s')
    : readVarlong s = .ok (Int64.ofNat n) s' := by
  have hmod : Int64.ofNat (UInt64.ofNat n).toNat = Int64.ofNat n := by
    apply Int64.toInt_inj.mp
    rw [Int64.toInt_ofNat', Int64.toInt_ofNat', UInt64.toNat_ofNat']
    exact Int.emod_bmod n (2 ^ 64)
  rw [readVarlong, bind_of_ok h, fromTwosComplement_64, hmod]
  rfl

theorem consumes_readVarint {input : List UInt8} (h : Varint.InRange 32 input)
    : Consumes view (readVarint : Io σ Int32) input (Int32.ofNat (Varint.value input)) := by
  intro s rest hview
  have hlt := h.value_lt
  rcases consumes_readVaruint (by decide) h.framed h.length_le (by omega) s rest hview with
    ⟨s', hread, hrest⟩
  exact ⟨s', readVarint_of_ok hread hlt, hrest⟩

theorem consumes_readVarlong {input : List UInt8} (hframed : Varint.Framed input)
    (hlen : input.length ≤ 10)
    : Consumes view (readVarlong : Io σ Int64) input (Int64.ofNat (Varint.value input)) := by
  intro s rest hview
  rcases consumes_readVaruint (by decide) hframed hlen (Nat.mod_lt _ (by decide)) s rest hview with
    ⟨s', hread, hrest⟩
  exact ⟨s', readVarlong_of_ok hread, hrest⟩

theorem readVarint_cases (s : σ)
    : (∃ input s', view s = input ++ view s' ∧ Varint.InRange 32 input
        ∧ readVarint s = .ok (Int32.ofNat (Varint.value input)) s')
      ∨ ∃ e s', (readVarint : Io σ Int32) s = .error (.error e) s' := by
  rcases @readVaruint_cases σ _ 32 (by decide) s with
    ⟨input, s', ⟨hview, hframed, hlen⟩, hmod, hok⟩ | ⟨e, s', herror⟩
  . have hvalue := Varint.value_lt_of_length_le hlen
    have hlt : Varint.value input < 2 ^ 32 := by omega
    exact Or.inl ⟨input, s', hview, ⟨hframed, hlen, hlt⟩, readVarint_of_ok hok hlt⟩
  . exact Or.inr ⟨e, s', bind_of_error herror⟩

theorem readVarlong_cases (s : σ)
    : (∃ input s', view s = input ++ view s' ∧ Varint.Framed input ∧ input.length ≤ 10
        ∧ readVarlong s = .ok (Int64.ofNat (Varint.value input)) s')
      ∨ ∃ e s', (readVarlong : Io σ Int64) s = .error (.error e) s' := by
  rcases @readVaruint_cases σ _ 64 (by decide) s with
    ⟨input, s', ⟨hview, hframed, hlen⟩, -, hok⟩ | ⟨e, s', herror⟩
  . exact Or.inl ⟨input, s', hview, hframed, hlen, readVarlong_of_ok hok⟩
  . exact Or.inr ⟨e, s', bind_of_error herror⟩

/--
`read` takes the numbers of up to `bits` bits off its source, whatever follows them, and returns an
error for everything else.
-/
def ReadsExactly {α : Type} (bits : Nat) (ofNat : Nat → α) (read : Io σ α) (s : σ) : Prop :=
  (∀ input rest, view s = input ++ rest → Varint.InRange bits input →
      ∃ s', read s = .ok (ofNat (Varint.value input)) s' ∧ view s' = rest)
    ∧ ((¬ ∃ input rest, view s = input ++ rest ∧ Varint.InRange bits input) →
      ∃ e s', read s = .error (.error e) s')

theorem readVarint_readsExactly (s : σ) : ReadsExactly 32 Int32.ofNat readVarint s := by
  constructor
  . intro input rest hview hrange
    exact consumes_readVarint hrange s rest hview
  . intro hnone
    rcases readVarint_cases s with ⟨input, s', hview, hrange, -⟩ | herror
    . exact absurd ⟨input, _, hview, hrange⟩ hnone
    . exact herror

theorem not_readsExactly_of_lastOverflows {s : σ} (h : Varint.LastOverflows 9 2 (view s))
    : ¬ ReadsExactly 64 Int64.ofNat readVarlong s := by
  rintro ⟨-, hnone⟩
  rcases h.framed with ⟨input, rest, hview, hframed, hlen⟩
  rw [hview, Varint.lastOverflows_iff (by decide) hframed (by omega)] at h
  rcases consumes_readVarlong hframed (by omega) s rest hview with ⟨s', hread, -⟩
  have hout : ¬ ∃ input rest, view s = input ++ rest ∧ Varint.InRange 64 input := by
    rintro ⟨input', rest', hview', hrange⟩
    rw [hview] at hview'
    have hlt := hrange.value_lt
    rw [← (hframed.unique hrange.framed hview').1] at hlt
    omega
  rcases hnone hout with ⟨e, t, herror⟩
  rw [hread] at herror
  cases herror

/--
Numbers of 32 bits are read exactly, and numbers of 64 bits unless the tenth group has more than the
one bit that is left for it.
-/
theorem readVarint_readVarlong_readsExactly_iff (s : σ)
    : ReadsExactly 32 Int32.ofNat readVarint s ∧ ReadsExactly 64 Int64.ofNat readVarlong s
        ↔
      ¬ Varint.LastOverflows 9 2 (view s) := by
  constructor
  . rintro ⟨-, hexact⟩ hover
    exact not_readsExactly_of_lastOverflows hover hexact
  . intro hfits
    refine ⟨readVarint_readsExactly s, ?_, ?_⟩
    . intro input rest hview hrange
      exact consumes_readVarlong hrange.framed hrange.length_le s rest hview
    . intro hnone
      rcases readVarlong_cases s with ⟨input, s', hview, hframed, hlen, -⟩ | herror
      . rw [hview, Varint.lastOverflows_iff (by decide) hframed hlen] at hfits
        exact absurd ⟨input, _, hview, hframed, hlen, by omega⟩ hnone
      . exact herror

theorem readVarlong_not_readsExactly
    : ¬ (ReadsExactly 32 Int32.ofNat readVarint
          (Buffer.fromBytes [0x80, 0x80, 0x80, 0x80, 0x80, 0x80, 0x80, 0x80, 0x80, 0x02])
        ∧ ReadsExactly 64 Int64.ofNat readVarlong
          (Buffer.fromBytes [0x80, 0x80, 0x80, 0x80, 0x80, 0x80, 0x80, 0x80, 0x80, 0x02])) := by
  rintro ⟨-, hexact⟩
  refine not_readsExactly_of_lastOverflows ?_ hexact
  exact ⟨List.replicate 9 0x80, 0x02, [], rfl, rfl, by simp, by decide, by decide⟩

end Rust

end McStatus
