import McStatus.Library.Varint
import McStatus.Rust.Io.Buffer
import McStatus.Rust.Io.Impl

/-!
This module contains what the readers of varints take from their source. The results are stated for
every source that hands out its bytes in order, however many at a time.
-/

namespace McStatus

open Reader

namespace Rust

/-- A source whose reads hand out the bytes of `view` in order, and none only at its end. -/
class LawfulRead (σ : Type) extends Read σ where
  view : σ → List UInt8
  read_eq_ok (length : Nat) (s : σ) :
    ∃ data s', read length s = .ok data s' ∧ view s = data ++ view s' ∧ data.length ≤ length
      ∧ (data = [] → length = 0 ∨ view s = [])

instance : LawfulRead Buffer where
  view := Buffer.unread
  read_eq_ok length b := by
    rcases Buffer.read_eq length b with ⟨b', hread, hunread⟩
    refine ⟨_, b', hread, ?_, List.length_take_le _ _, ?_⟩
    . rw [hunread, List.take_append_drop]
    . intro hnil
      rwa [List.take_eq_nil_iff] at hnil

open LawfulRead

variable {σ : Type} [LawfulRead σ]

theorem consumes_readExact (input : List UInt8)
    : Consumes view (readExact input.length : Io σ (List UInt8)) input input := by
  intro s rest hview
  unfold readExact
  split
  . next hnil =>
    rw [List.length_eq_zero_iff.mp hnil] at hview ⊢
    exact ⟨s, rfl, hview⟩
  . next hpos =>
    rcases read_eq_ok input.length s with ⟨data, t, hread, hsplit, hle, hnil⟩
    -- one call may hand out a part of `input` only
    rw [hview] at hsplit
    rcases List.append_eq_append_iff.mp hsplit with
      ⟨surplus, hdata, hrest⟩ | ⟨input', hinput, hrest⟩
    . have hsurplus : surplus = [] := by
        rw [hdata, List.length_append] at hle
        exact List.length_eq_zero_iff.mp (by omega)
      subst hsurplus
      rw [List.append_nil] at hdata
      subst hdata
      rw [List.nil_append] at hrest
      rw [bind_of_ok hread, if_neg hpos, Nat.sub_self, readExact, if_pos rfl, pure_bind,
        List.append_nil]
      exact ⟨t, rfl, hrest.symm⟩
    . have hdata : data.length ≠ 0 := by
        intro hzero
        rcases hnil (List.length_eq_zero_iff.mp hzero) with hzero' | hend
        . exact hpos hzero'
        . rw [hview, List.append_eq_nil_iff] at hend
          exact hpos (by rw [hend.1]; rfl)
      have hlength : input.length - data.length = input'.length := by
        rw [hinput, List.length_append]
        omega
      have hlt : input'.length < input.length := by omega
      rcases consumes_readExact input' t rest hrest with ⟨s', hexact, hrest'⟩
      rw [bind_of_ok hread, if_neg hdata, hlength, bind_of_ok hexact, hinput]
      exact ⟨s', rfl, hrest'⟩
termination_by input.length

theorem consumes_readByte (b : UInt8) : Consumes view (readByte : Io σ UInt8) [b] b :=
  (consumes_readExact [b]).bind_done (Consumes.pure b)

theorem readByte_of_nil {s : σ} (h : view s = [])
    : ∃ e s', (readByte : Io σ UInt8) s = .error (.error e) s' := by
  rcases read_eq_ok 1 s with ⟨data, t, hread, hsplit, -, -⟩
  rw [h, eq_comm, List.append_eq_nil_iff] at hsplit
  have hexact : (readExact 1 : Io σ (List UInt8)) s
      = .error (.error (.new .unexpectedEof "failed to fill whole buffer")) t := by
    rw [readExact, if_neg (by decide), bind_of_ok hread, hsplit.1]
    rfl
  exact ⟨_, t, bind_of_error hexact⟩

theorem valueMax_toNat {max_bits : Nat} (h : max_bits ≤ 64)
    : (valueMax max_bits).toNat = 2 ^ max_bits - 1 := by
  rw [valueMax]
  split
  . next hlt =>
    have hpow : 2 ^ max_bits < 2 ^ 64 := Nat.pow_lt_pow_right (by decide) hlt
    have hpos := Nat.two_pow_pos max_bits
    have hmod : max_bits % 64 = max_bits := Nat.mod_eq_of_lt hlt
    have hshift : ((1 : UInt64) <<< UInt64.ofNat max_bits).toNat = 2 ^ max_bits := by
      rw [UInt64.toNat_shiftLeft, UInt64.toNat_ofNat', Nat.mod_eq_of_lt (a := max_bits) (by omega),
        hmod, UInt64.toNat_one, Nat.one_shiftLeft, Nat.mod_eq_of_lt hpow]
    rw [UInt64.toNat_sub_of_le _ _ (by rw [UInt64.le_iff_toNat_le, hshift]; exact hpos),
      hshift]
    rfl
  . next hge =>
    have : max_bits = 64 := by omega
    subst this
    rfl

theorem ofNat_mod_two_pow (n : Nat) : UInt64.ofNat (n % 2 ^ 64) = UInt64.ofNat n :=
  UInt64.ofNat_mod_size

theorem readVaruint_go_byte {max_bits left i : Nat} {result : UInt64} {b : UInt8} {s : σ}
    {rest : List UInt8} (hview : view s = b :: rest) (hbits : max_bits ≤ 64) (hi : i ≤ 9)
    (hresult : result.toNat < 2 ^ (7 * i))
    : ∃ t : σ, ∃ result' : UInt64, view t = rest
        ∧ result'.toNat = (result.toNat + b.toNat % 128 * 2 ^ (7 * i)) % 2 ^ 64
        ∧ readVaruint.go max_bits (left + 1) i result s
          =
        (if 2 ^ max_bits ≤ result'.toNat then
          throwIo .invalidData s!"Received varint was outside the range of {max_bits}-bit int."
        else if b.toNat < 128 then
          pure result'
        else
          readVaruint.go max_bits left (i + 1) result'
          : Io σ UInt64) t := by
  rcases consumes_readByte b s rest hview with ⟨t, hread, hrest⟩
  refine ⟨t, result ||| ((b &&& 0x7F).toUInt64 <<< UInt64.ofNat (7 * i)), hrest, ?_, ?_⟩
  . exact toNat_or_group b hi hresult
  . have hmax (n : UInt64) : n > valueMax max_bits ↔ 2 ^ max_bits ≤ n.toNat := by
      have := Nat.two_pow_pos max_bits
      rw [gt_iff_lt, UInt64.lt_iff_toNat_lt, valueMax_toNat hbits]
      omega
    rw [readVaruint.go, bind_of_ok hread]
    simp only [hmax, and_high_eq_zero_iff]

theorem consumes_readVaruint_go {max_bits left i : Nat} {result : UInt64} {input : List UInt8}
    (hbits : max_bits ≤ 64) (hlimit : left + i ≤ 10) (hwidth : max_bits = 64 ∨ left + i ≤ 9)
    (hframed : Varint.Framed input) (hleft : input.length ≤ left)
    (hresult : result.toNat < 2 ^ (7 * i))
    (hmax : (result.toNat + Varint.value input * 2 ^ (7 * i)) % 2 ^ 64 < 2 ^ max_bits)
    : Consumes view (readVaruint.go max_bits left i result : Io σ UInt64) input
        (UInt64.ofNat (result.toNat + Varint.value input * 2 ^ (7 * i))) := by
  induction input generalizing left i result with
  | nil => exact absurd hframed Varint.not_framed_nil
  | cons b input ih =>
    intro s rest hview
    rw [List.length_cons] at hleft
    cases left with
    | zero => omega
    | succ left =>
      rcases readVaruint_go_byte hview hbits (by omega) hresult with ⟨t, r, hrest, hr, hgo⟩
      rw [hgo]
      rw [Varint.group_add_value] at hmax ⊢
      rcases Varint.framed_cons.mp hframed with ⟨hlast, rfl⟩ | ⟨hmore, hframed⟩
      . simp only [Varint.value_nil, Nat.zero_mul, Nat.add_zero] at hmax ⊢
        rw [if_neg (by omega), if_pos hlast, ← ofNat_mod_two_pow, ← hr, UInt64.ofNat_toNat]
        exact ⟨t, rfl, hrest⟩
      . -- a group that is followed by another one is the ninth at most, and fits
        have hinput : 0 < input.length := by
          cases input with
          | nil => exact absurd hframed Varint.not_framed_nil
          | cons c input => simp
        have hgroup := Varint.group_lt b hresult
        have hfit : result.toNat + b.toNat % 128 * 2 ^ (7 * i) < 2 ^ 63 :=
          Nat.lt_of_lt_of_le hgroup (Nat.pow_le_pow_right (by decide) (by omega))
        rw [Nat.mod_eq_of_lt (by omega)] at hr
        have hpart : r.toNat < 2 ^ max_bits := by
          rcases hwidth with rfl | hwidth
          . omega
          . have hsum := Varint.add_value_lt input hgroup
            have hfit' : 2 ^ (7 * (i + 1 + input.length)) ≤ 2 ^ 64 :=
              Nat.pow_le_pow_right (by decide) (by omega)
            rw [Nat.mod_eq_of_lt (by omega)] at hmax
            omega
        rw [if_neg (by omega), if_neg (by omega), ← hr]
        rw [← hr] at hmax hgroup
        exact ih (by omega) (by omega) hframed (by omega) hgroup hmax t rest hrest

theorem readVaruint_go_cases {max_bits left i : Nat} {result : UInt64} (hbits : max_bits ≤ 64)
    (hlimit : left + i ≤ 10) (hresult : result.toNat < 2 ^ (7 * i)) (s : σ)
    : (∃ input s', Varint.Starts left (view s) input (view s')
        ∧ (result.toNat + Varint.value input * 2 ^ (7 * i)) % 2 ^ 64 < 2 ^ max_bits
        ∧ readVaruint.go max_bits left i result s
            = .ok (UInt64.ofNat (result.toNat + Varint.value input * 2 ^ (7 * i))) s')
      ∨ ∃ e s', readVaruint.go max_bits left i result s = .error (.error e) s' := by
  induction left generalizing i result s with
  | zero => exact Or.inr ⟨_, s, rfl⟩
  | succ left ih =>
    cases hview : view s with
    | nil =>
      rcases readByte_of_nil hview with ⟨e, t, hread⟩
      refine Or.inr ⟨e, t, ?_⟩
      rw [readVaruint.go, bind_of_error hread]
    | cons b rest =>
      rcases readVaruint_go_byte hview hbits (by omega) hresult with ⟨t, r, hrest, hr, hgo⟩
      have hvalue (input : List UInt8)
          : (r.toNat + Varint.value input * 2 ^ (7 * (i + 1))) % 2 ^ 64
              = (result.toNat + Varint.value (b :: input) * 2 ^ (7 * i)) % 2 ^ 64 := by
        rw [Varint.group_add_value, hr, Nat.mod_add_mod]
      have hofNat (input : List UInt8)
          : UInt64.ofNat (r.toNat + Varint.value input * 2 ^ (7 * (i + 1)))
              = UInt64.ofNat (result.toNat + Varint.value (b :: input) * 2 ^ (7 * i)) := by
        rw [← ofNat_mod_two_pow, hvalue, ofNat_mod_two_pow]
      rw [hgo]
      by_cases hmax : 2 ^ max_bits ≤ r.toNat
      . rw [if_pos hmax]
        exact Or.inr ⟨_, t, rfl⟩
      . rw [if_neg hmax]
        by_cases hlast : b.toNat < 128
        . have hnil := hvalue []
          have hnil' := hofNat []
          simp only [Varint.value_nil, Nat.zero_mul, Nat.add_zero] at hnil hnil'
          refine Or.inl ⟨[b], t, hrest ▸ Varint.Starts.last hlast, ?_⟩
          rw [if_pos hlast, ← hnil, ← hnil', UInt64.ofNat_toNat]
          have := r.toNat_lt
          exact ⟨by omega, rfl⟩
        . have hgroup : r.toNat < 2 ^ (7 * (i + 1)) :=
            hr ▸ Nat.lt_of_le_of_lt (Nat.mod_le _ _) (Varint.group_lt b hresult)
          rw [if_neg hlast]
          rcases ih (by omega) hgroup t with ⟨input, s', hstarts, hlt, hok⟩ | herror
          . rw [hrest] at hstarts
            refine Or.inl ⟨b :: input, s', hstarts.more hlast, ?_⟩
            rw [← hvalue, ← hofNat]
            exact ⟨hlt, hok⟩
          . exact Or.inr herror

theorem consumes_readVaruint {max_bits : Nat} {input : List UInt8} (hbits : max_bits ≤ 64)
    (hframed : Varint.Framed input) (hlen : input.length ≤ (max_bits + 6) / 7)
    (hmax : Varint.value input % 2 ^ 64 < 2 ^ max_bits)
    : Consumes view (readVaruint max_bits : Io σ UInt64) input
        (UInt64.ofNat (Varint.value input)) := by
  have hgo := @consumes_readVaruint_go σ _ max_bits (readVaruint.byte_limit max_bits) 0 0 input
    hbits (by rw [readVaruint.byte_limit]; omega) (by rw [readVaruint.byte_limit]; omega) hframed
    hlen (by decide)
  simp only [UInt64.toNat_zero, Nat.mul_zero, Nat.pow_zero, Nat.mul_one, Nat.zero_add] at hgo
  exact hgo hmax

theorem readVaruint_cases {max_bits : Nat} (hbits : max_bits ≤ 64) (s : σ)
    : (∃ input s', Varint.Starts ((max_bits + 6) / 7) (view s) input (view s')
        ∧ Varint.value input % 2 ^ 64 < 2 ^ max_bits
        ∧ readVaruint max_bits s = .ok (UInt64.ofNat (Varint.value input)) s')
      ∨ ∃ e s', readVaruint max_bits s = .error (.error e) s' := by
  have hgo := @readVaruint_go_cases σ _ max_bits (readVaruint.byte_limit max_bits) 0 0
    hbits (by rw [readVaruint.byte_limit]; omega) (by decide) s
  simp only [UInt64.toNat_zero, Nat.mul_zero, Nat.pow_zero, Nat.mul_one, Nat.zero_add] at hgo
  exact hgo

end Rust

end McStatus
