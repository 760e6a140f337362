import McStatus.Java.Wire
import McStatus.Python.Io.Lemmas.Read
import McStatus.Python.Io.Lemmas.TwosComplement

/-!
This module contains the bytes behind the writers of a `Buffer`, and shows that the readers take
exactly these bytes and return what was written.
-/

namespace McStatus

open Reader

namespace Python

open BaseSyncReader BaseSyncWriter

/-- An object that `write` adds bytes to the end of. -/
class LawfulWriter (σ : Type) extends BaseSyncWriter σ where
  append : σ → List UInt8 → σ
  write_eq (bytes : List UInt8) (s : σ) : write bytes s = .ok () (append s bytes)
  append_append (s : σ) (bytes bytes' : List UInt8) :
    append (append s bytes) bytes' = append s (bytes ++ bytes')
  append_nil (s : σ) : append s [] = s

section Writes

open LawfulWriter

variable {τ : Type} [LawfulWriter τ]

/-- `x` adds `bytes` to the end of whatever it writes to. -/
def Writes (x : Py τ Unit) (bytes : List UInt8) : Prop :=
  ∀ s, x s = .ok () (append s bytes)

theorem Writes.pure : Writes (pure () : Py τ Unit) [] := by
  intro s
  rw [pure_apply, append_nil]

theorem Writes.bind {x : Py τ Unit} {f : Unit → Py τ Unit} {bytes bytes' : List UInt8}
    (hx : Writes x bytes) (hf : Writes (f ()) bytes') : Writes (x >>= f) (bytes ++ bytes') := by
  intro s
  rw [bind_of_ok (hx s), hf, append_append]

theorem writes_write (bytes : List UInt8) : Writes (write bytes : Py τ Unit) bytes :=
  write_eq bytes

theorem writes_ofExcept {α : Type} {x : Except Exception α} {a : α} {f : α → Py τ Unit}
    {bytes : List UInt8} (hx : x = .ok a) (hf : Writes (f a) bytes)
    : Writes (ofExcept x >>= f) bytes := by
  intro s
  subst hx
  exact hf s

theorem writes_writeValue {fmt : StructFormat} {value : fmt.Value} {bytes : List UInt8}
    (h : pack fmt value = .ok bytes) : Writes (writeValue fmt value : Py τ Unit) bytes :=
  writes_ofExcept h (writes_write bytes)

end Writes

theorem pack_ubyte {n : Nat} (h : n < 256) : pack .ubyte (n : Nat) = .ok [UInt8.ofNat n] := by
  have hrange : 0 ≤ (n : Int) ∧ (n : Int) < 2 ^ (8 * 1) := by
    constructor <;> omega
  simp only [pack, packUnsigned, hrange, and_self, ↓reduceIte, Int.toNat_natCast, BigEndian.encode,
    List.nil_append, Nat.mod_eq_of_lt h]

theorem unpack_ubyte (b : UInt8) : unpack .ubyte [b] = .ok (b.toNat : Int) := by
  simp [unpack, StructFormat.standardSize, StructFormat.calcsize, unpackUnsigned, BigEndian.decode]

section Writes

variable {τ : Type} [LawfulWriter τ]

theorem writes_writeVaruint_go (n : Nat)
    : Writes (writeVaruint.go n : Py τ Unit) (Varint.encode n) := by
  have hlow : n &&& 0x7F = n % 128 := Nat.and_two_pow_sub_one_eq_mod n 7
  have hhigh : n >>> 7 = n / 128 := Nat.shiftRight_eq_div_pow n 7
  rw [writeVaruint.go, Varint.encode, hlow, hhigh, low_or_flag]
  by_cases hlt : n < 128
  . have hdone : n - n % 128 = 0 := by omega
    rw [if_pos hdone, if_pos hlt]
    exact writes_writeValue (pack_ubyte (by omega))
  . have hmore : ¬ (n - n % 128 = 0) := by omega
    rw [if_neg hmore, if_neg hlt, ← List.singleton_append]
    exact (writes_writeValue (pack_ubyte (by omega))).bind (writes_writeVaruint_go (n / 128))

theorem writes_writeVaruint {max_bits n : Nat} (h : n < 2 ^ max_bits)
    : Writes (writeVaruint max_bits (n : Nat) : Py τ Unit) (Varint.encode n) := by
  have hcast : ((2 ^ max_bits : Nat) : Int) = 2 ^ max_bits := by simp
  have hrange : ¬ ((n : Int) < 0 ∨ (n : Int) > 2 ^ max_bits - 1) := by omega
  rw [writeVaruint]
  simp only [hrange, ↓reduceIte, Int.toNat_natCast]
  exact writes_writeVaruint_go n

theorem writes_writeSigned {bits : Nat} {value : Int} (hbits : 1 ≤ bits)
    (hmin : -2 ^ (bits - 1) ≤ value) (hmax : value < 2 ^ (bits - 1))
    : Writes (ofExcept (toTwosComplement value bits) >>= writeVaruint bits : Py τ Unit)
        (Varint.encode (value % 2 ^ bits).toNat) := by
  refine writes_ofExcept (toTwosComplement_of_inRange hbits hmin hmax) ?_
  have := @writes_writeVaruint τ _ _ _ (toNat_emod_two_pow_lt value bits)
  rwa [toNat_emod_two_pow] at this

theorem writes_writeVarint {n : Nat} (h : n < 2 ^ 31)
    : Writes (writeVarint (n : Nat) : Py τ Unit) (Varint.encode n) := by
  have := @writes_writeSigned τ _ 32 n (by omega) (by omega) (by omega)
  have hmod : ((n : Int) % 2 ^ 32).toNat = n := by omega
  rwa [hmod] at this

theorem writes_writeBytearray {data : List UInt8} (h : data.length < 2 ^ 31)
    : Writes (writeBytearray data : Py τ Unit) (Varint.encode data.length ++ data) :=
  (writes_writeVarint h).bind (writes_write data)

end Writes

section Buffer

instance : LawfulWriter Buffer where
  append := Buffer.append
  write_eq _ _ := rfl
  append_append b bytes bytes' := by simp [Buffer.append]
  append_nil b := by simp [Buffer.append]

theorem writes_writeUtf {s : List Char} (h : s.length ≤ 32767)
    : Writes (writeUtf s : Py Buffer Unit) (Java.text s) := by
  have hlen : (Utf8.encode s).length < 2 ^ 31 := by
    have := utf8Len_le s
    rw [Utf8.length_encode]
    omega
  have hnot : ¬ (s.length > 32767) := by omega
  rw [writeUtf, if_neg hnot]
  exact (writes_writeVarint hlen).bind (writes_write _)

end Buffer

section Read

open LawfulReader

variable {σ : Type} [LawfulReader σ]

theorem consumes_readUbyte (b : UInt8)
    : Consumes view (readValue .ubyte : Py σ Int) [b] (b.toNat : Int) :=
  consumes_readValue rfl (unpack_ubyte b)

theorem readVaruint_go_byte {max_bits left i result : Nat} {b : UInt8} {s : σ} {rest : List UInt8}
    (hview : view s = b :: rest) (hresult : result < 2 ^ (7 * i))
    : ∃ t : σ, view t = rest
        ∧ readVaruint.go max_bits (left + 1) i result s
          =
        (if 2 ^ max_bits ≤ result + b.toNat % 128 * 2 ^ (7 * i) then
          throw (.osError (.varintRange max_bits))
        else if b.toNat < 128 then
          pure (result + b.toNat % 128 * 2 ^ (7 * i))
        else
          readVaruint.go max_bits left (i + 1) (result + b.toNat % 128 * 2 ^ (7 * i))
          : Py σ Nat) t := by
  rcases consumes_readUbyte b s rest hview with ⟨t, hread, hrest⟩
  have hmax (n : Nat) : n > readVaruint.value_max max_bits ↔ 2 ^ max_bits ≤ n := by
    have := Nat.two_pow_pos max_bits
    rw [readVaruint.value_max]
    omega
  refine ⟨t, hrest, ?_⟩
  rw [readVaruint.go, bind_of_ok hread]
  simp only [Int.toNat_natCast, toNat_and_low, toNat_and_high_eq_zero_iff,
    or_shiftLeft_of_lt hresult, hmax]

theorem consumes_readVaruint_go {max_bits left i result : Nat} {input : List UInt8}
    (hframed : Varint.Framed input) (hleft : input.length ≤ left) (hresult : result < 2 ^ (7 * i))
    (hmax : result + Varint.value input * 2 ^ (7 * i) < 2 ^ max_bits)
    : Consumes view (readVaruint.go max_bits left i result : Py σ Nat) input
        (result + Varint.value input * 2 ^ (7 * i)) := by
  induction input generalizing left i result with
  | nil => exact absurd hframed Varint.not_framed_nil
  | cons b input ih =>
    intro s rest hview
    cases left with
    | zero => simp at hleft
    | succ left =>
      rcases readVaruint_go_byte hview hresult with ⟨t, hrest, hgo⟩
      rw [hgo]
      rw [Varint.group_add_value] at hmax ⊢
      rw [if_neg (by omega)]
      rcases Varint.framed_cons.mp hframed with ⟨hlast, rfl⟩ | ⟨hmore, hframed⟩
      . rw [if_pos hlast, Varint.value_nil, Nat.zero_mul, Nat.add_zero]
        exact ⟨t, rfl, hrest⟩
      . rw [if_neg (by omega)]
        rw [List.length_cons] at hleft
        exact ih hframed (by omega) (Varint.group_lt b hresult) hmax t rest hrest

theorem readVaruint_go_cases {max_bits left i result : Nat} (hresult : result < 2 ^ (7 * i)) (s : σ)
    : (∃ input s', Varint.Starts left (view s) input (view s')
        ∧ result + Varint.value input * 2 ^ (7 * i) < 2 ^ max_bits
        ∧ readVaruint.go max_bits left i result s
            = .ok (result + Varint.value input * 2 ^ (7 * i)) s')
      ∨ ∃ e s', readVaruint.go max_bits left i result s = .error e s' ∧ e.IsOSError := by
  induction left generalizing i result s with
  | zero => exact Or.inr ⟨_, s, rfl, _, rfl⟩
  | succ left ih =>
    cases hview : view s with
    | nil =>
      have hempty : view s <+: [0] ∧ view s ≠ [0] := by simp [hview]
      rcases runsOut_read [0] s hempty.1 hempty.2 with ⟨e, t, hread, he⟩
      have hvalue : readValue .ubyte s = .error e t := bind_of_error hread
      refine Or.inr ⟨e, t, ?_, isOSError_of_isEnd he⟩
      rw [readVaruint.go, bind_of_error hvalue]
    | cons b rest =>
      rcases readVaruint_go_byte hview hresult with ⟨t, hrest, hgo⟩
      rw [hgo]
      by_cases hmax : 2 ^ max_bits ≤ result + b.toNat % 128 * 2 ^ (7 * i)
      . rw [if_pos hmax]
        exact Or.inr ⟨_, t, rfl, _, rfl⟩
      . rw [if_neg hmax]
        by_cases hlast : b.toNat < 128
        . have hvalue := Varint.group_add_value i result b []
          rw [Varint.value_nil, Nat.zero_mul, Nat.add_zero] at hvalue
          refine Or.inl ⟨[b], t, hrest ▸ Varint.Starts.last hlast, ?_⟩
          rw [if_pos hlast, hvalue]
          exact ⟨by omega, rfl⟩
        . rw [if_neg hlast]
          rcases ih (Varint.group_lt b hresult) t with ⟨input, s', hstarts, hlt, hok⟩ | herror
          . rw [hrest] at hstarts
            refine Or.inl ⟨b :: input, s', hstarts.more hlast, ?_⟩
            rw [Varint.group_add_value]
            exact ⟨hlt, hok⟩
          . exact Or.inr herror

theorem consumes_readVaruint_of_inRange {max_bits : Nat} {input : List UInt8}
    (h : Varint.InRange max_bits input)
    : Consumes view (readVaruint max_bits : Py σ Nat) input (Varint.value input) := by
  have := @consumes_readVaruint_go σ _ max_bits (readVaruint.byte_limit max_bits) 0 0 input h.framed
    h.length_le (by simp) (by simpa using h.value_lt)
  simpa [readVaruint] using this

theorem readVaruint_cases (max_bits : Nat) (s : σ)
    : (∃ input s', view s = input ++ view s' ∧ Varint.InRange max_bits input
        ∧ readVaruint max_bits s = .ok (Varint.value input) s')
      ∨ ∃ e s', readVaruint max_bits s = .error e s' ∧ e.IsOSError := by
  rcases @readVaruint_go_cases σ _ max_bits (readVaruint.byte_limit max_bits) 0 0 (by simp) s with
    ⟨input, s', ⟨hview, hframed, hlen⟩, hlt, hok⟩ | herror
  . have hzero : 0 + Varint.value input * 2 ^ (7 * 0) = Varint.value input := by simp
    rw [hzero] at hlt hok
    exact Or.inl ⟨input, s', hview, ⟨hframed, hlen, hlt⟩, hok⟩
  . exact Or.inr herror

theorem consumes_readVaruint {max_bits n : Nat} (hbits : 0 < max_bits) (h : n < 2 ^ max_bits)
    : Consumes view (readVaruint max_bits : Py σ Nat) (Varint.encode n) n := by
  have := @consumes_readVaruint_of_inRange σ _ _ _ (Varint.inRange_encode hbits h)
  rwa [Varint.value_encode] at this

theorem consumes_readSigned {bits : Nat} {value : Int} (hbits : 1 ≤ bits)
    (hmin : -2 ^ (bits - 1) ≤ value) (hmax : value < 2 ^ (bits - 1))
    : Consumes view
        (readVaruint bits >>= fun n => ofExcept (fromTwosComplement n bits) : Py σ Int)
        (Varint.encode (value % 2 ^ bits).toNat) value := by
  have hlt : (value % 2 ^ bits).toNat < 2 ^ bits := toNat_emod_two_pow_lt value bits
  refine (consumes_readVaruint hbits hlt).bind_done (consumes_ofExcept ?_)
  rw [toNat_emod_two_pow]
  exact fromTwosComplement_emod hbits hmin hmax

theorem consumes_readVarint {n : Nat} (h : n < 2 ^ 31)
    : Consumes view (readVarint : Py σ Int) (Varint.encode n) (n : Int) := by
  have := @consumes_readSigned σ _ 32 n (by omega) (by omega) (by omega)
  have hmod : ((n : Int) % 2 ^ 32).toNat = n := by omega
  rwa [hmod] at this

theorem consumes_readUtf {s : List Char} (h : s.length ≤ 32767)
    : Consumes view (readUtf : Py σ (List Char)) (Java.text s) s := by
  have hlen := utf8Len_le s
  rw [← Utf8.length_encode] at hlen
  refine Consumes.bind (consumes_readVarint (by omega)) ?_
  have hneg : ¬ (((Utf8.encode s).length : Int) < 0) := by omega
  have hlong : ¬ (((Utf8.encode s).length : Int) > 131068) := by omega
  have hdecode : decodeUtf8 (Utf8.encode s) = .ok s := by
    rw [decodeUtf8, Utf8.decode?_encode]
  have hchars : ¬ (s.length > 32767) := by omega
  rw [if_neg hneg, if_neg hlong]
  refine (consumes_read (Utf8.encode s)).bind_done ?_
  refine (consumes_ofExcept hdecode).bind_nil ?_
  rw [if_neg hchars]
  exact Consumes.pure s

end Read

end Python

end McStatus
