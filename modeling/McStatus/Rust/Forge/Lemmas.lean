import McStatus.Library.Varint
import McStatus.Rust.Forge.Impl

/-!
This module contains what the decoder of Forge's mod data reads off the front of its bytes. Behind
their end it goes on with zeros.
-/

namespace McStatus

open Reader

namespace Rust

namespace StringBuffer

def unread (buffer : StringBuffer) : List UInt8 :=
  buffer.data.drop buffer.pos

def padded (length : Nat) (bytes : List UInt8) : List UInt8 :=
  match length with
  | 0 => []
  | length + 1 => bytes.headD 0 :: padded length bytes.tail

theorem readByte_eq (s : StringBuffer)
    : ∃ s', readByte s = .ok (s.unread.headD 0) s' ∧ s'.unread = s.unread.tail := by
  have hget : (get : Reading StringBuffer) s = .ok s s := rfl
  have hhead : s.unread.head? = s.data[s.pos]? := List.head?_drop
  rw [readByte, bind_of_ok hget]
  cases h : s.data[s.pos]? with
  | some byte =>
    refine ⟨{ s with pos := s.pos + 1 }, ?_, List.drop_drop.symm.trans ?_⟩
    . rw [List.headD_eq_head?_getD, hhead, h]
      rfl
    . rw [List.drop_one]
      rfl
  | none =>
    have hnil : s.unread = [] := by
      rw [← List.head?_eq_none_iff, hhead, h]
    refine ⟨s, ?_, ?_⟩
    . rw [hnil]
      rfl
    . rw [hnil]
      rfl

theorem consumes_readByte (byte : UInt8) : Consumes unread readByte [byte] byte := by
  intro s rest h
  rcases readByte_eq s with ⟨s', hread, hrest⟩
  rw [h] at hread hrest
  exact ⟨s', hread, hrest⟩

theorem listM_readByte (length : Nat) (s : StringBuffer)
    : ∃ s', listM length readByte s = .ok (padded length s.unread) s'
        ∧ s'.unread = s.unread.drop length := by
  induction length generalizing s with
  | zero => exact ⟨s, rfl, rfl⟩
  | succ length ih =>
    rcases readByte_eq s with ⟨t, hread, hrest⟩
    rcases ih t with ⟨t', hlist, hrest'⟩
    refine ⟨t', ?_, ?_⟩
    . rw [listM, bind_of_ok hread, bind_of_ok hlist, hrest]
      rfl
    . rw [hrest', hrest, List.drop_tail]

theorem consumes_readVaruint_go {left i : Nat} {result : UInt64} {input : List UInt8}
    (hlimit : left + i ≤ 5) (hframed : Varint.Framed input) (hleft : input.length ≤ left)
    (hresult : result.toNat < 2 ^ (7 * i))
    : Consumes unread (readVaruint.go left i result) input
        (UInt64.ofNat (result.toNat + Varint.value input * 2 ^ (7 * i))) := by
  induction input generalizing left i result with
  | nil => exact absurd hframed Varint.not_framed_nil
  | cons b input ih =>
    intro s rest h
    rw [List.length_cons] at hleft
    cases left with
    | zero => omega
    | succ left =>
      rcases consumes_readByte b s _ h with ⟨t, hread, hrest⟩
      have hgroup := Varint.group_lt b hresult
      have hfit : 2 ^ (7 * (i + 1)) ≤ 2 ^ 35 := Nat.pow_le_pow_right (by decide) (by omega)
      have hvalue := toNat_or_group b (by omega) hresult
      rw [Nat.mod_eq_of_lt (by omega)] at hvalue
      rw [readVaruint.go, bind_of_ok hread, Varint.group_add_value, ← hvalue]
      rw [← hvalue] at hgroup
      simp only [and_high_eq_zero_iff]
      rcases Varint.framed_cons.mp hframed with ⟨hlast, rfl⟩ | ⟨hmore, hframed⟩
      . rw [if_pos hlast, Varint.value_nil, Nat.zero_mul, Nat.add_zero, UInt64.ofNat_toNat]
        exact ⟨t, rfl, hrest⟩
      . rw [if_neg (by omega)]
        exact ih (by omega) hframed (by omega) hgroup t rest hrest

theorem consumes_readVaruint {input : List UInt8} (hframed : Varint.Framed input)
    (hlen : input.length ≤ 5)
    : Consumes unread readVaruint input (UInt64.ofNat (Varint.value input)) := by
  have := @consumes_readVaruint_go 5 0 0 input (by decide) hframed hlen (by decide)
  rwa [UInt64.toNat_zero, Nat.zero_add, Nat.mul_zero, Nat.pow_zero, Nat.mul_one] at this

theorem toNat_value {input : List UInt8} (hlen : input.length ≤ 5)
    : (UInt64.ofNat (Varint.value input)).toNat = Varint.value input := by
  have := Varint.value_lt_of_length_le hlen
  rw [UInt64.toNat_ofNat', Nat.mod_eq_of_lt (by omega)]

theorem readUtf_eq {s : StringBuffer} {input rest : List UInt8}
    (h : Varint.Starts 5 s.unread input rest)
    : ∃ s', readUtf s = .ok ((Utf8.decode? (padded (Varint.value input) rest)).getD []) s'
        ∧ s'.unread = rest.drop (Varint.value input) := by
  rcases consumes_readVaruint h.framed h.length_le s rest h.split with ⟨t, hlength, hrest⟩
  rcases listM_readByte (Varint.value input) t with ⟨t', hlist, hrest'⟩
  rw [hrest] at hlist hrest'
  refine ⟨t', ?_, hrest'⟩
  rw [readUtf, bind_of_ok hlength, toNat_value h.length_le, bind_of_ok hlist, pure_apply]

theorem getElem?_padded {length i : Nat} (h : i < length) (bytes : List UInt8)
    : (padded length bytes)[i]? = some (bytes.getD i 0) := by
  induction length generalizing i bytes with
  | zero => omega
  | succ length ih =>
    cases i with
    | zero => cases bytes <;> rfl
    | succ i =>
      rw [padded, List.getElem?_cons_succ, ih (by omega)]
      cases bytes <;> simp

theorem readUtf_of_zero {s : StringBuffer} {rest : List UInt8} (h : s.unread = 0 :: rest)
    : ∃ s', readUtf s = .ok [] s' ∧ s'.unread = rest := by
  have hstarts : Varint.Starts 5 s.unread [0] rest := h ▸ Varint.Starts.last (by decide)
  have hdecode : Utf8.decode? [] = some [] := Utf8.decode?_encode []
  have hvalue : Varint.value [0] = 0 := rfl
  have := readUtf_eq hstarts
  rwa [hvalue, padded, hdecode, List.drop_zero] at this

theorem readUtf_of_one {s : StringBuffer} {rest : List UInt8} (h : s.unread = 1 :: rest)
    (hrest : (rest.headD 0).toNat < 128)
    : ∃ text s', readUtf s = .ok text s' ∧ text ≠ [] := by
  have hstarts : Varint.Starts 5 s.unread [1] rest := h ▸ Varint.Starts.last (by decide)
  rcases readUtf_eq hstarts with ⟨s', hread, -⟩
  refine ⟨_, s', hread, ?_⟩
  have hascii : ∀ b ∈ [rest.headD 0], b < 0x80 := by
    rw [List.forall_mem_singleton, UInt8.lt_iff_toNat_lt]
    exact hrest
  have hpadded : padded (Varint.value [1]) rest = [rest.headD 0] := rfl
  rw [hpadded, ← Latin1.utf8_encode_decode hascii, Utf8.decode?_encode, Option.getD_some, Ne,
    Latin1.decode_eq_nil]
  exact List.cons_ne_nil _ _

end StringBuffer

open StringBuffer

def bytesOf (data : List Char) : List UInt8 :=
  (data.flatMap encodeUtf16).flatMap unitBytes

theorem encode_of_nonEmpty {bytes : List UInt8} {text : List Char}
    (h : nonEmpty ((Utf8.decode? bytes).getD []) = some text)
    : bytes ≠ [] ∧ Utf8.encode text = bytes := by
  cases hdecode : Utf8.decode? bytes with
  | none =>
    rw [hdecode] at h
    simp [nonEmpty] at h
  | some s =>
    rw [hdecode, Option.getD_some, nonEmpty] at h
    split at h
    . simp at h
    . next hne =>
      rw [Option.some.injEq] at h
      subst h
      refine ⟨?_, Utf8.encode_of_decode? hdecode⟩
      rintro rfl
      have hnil : Utf8.decode? [] = some [] := Utf8.decode?_encode []
      rw [hnil, Option.some.injEq] at hdecode
      exact hne (hdecode ▸ rfl)

section Runs

variable {s s' : StringBuffer}

theorem decodeMod_eq_ok {truncated : Bool} {mod : ForgeDataMod} {input rest : List UInt8}
    (h : Varint.Starts 5 s.unread input rest) (hrun : decodeMod truncated s = .ok mod s')
    : mod.mod_id = nonEmpty ((Utf8.decode? (padded (Varint.value input) rest)).getD [])
        ∧ ∃ t marker t', t.unread = rest.drop (Varint.value input)
          ∧ readUtf t = .ok marker t' ∧ mod.marker = nonEmpty marker := by
  rcases readUtf_eq h with ⟨t, hread, hrest⟩
  rw [decodeMod, bind_of_ok hread] at hrun
  rcases bind_eq_ok.mp hrun with ⟨marker, t', hmarker, hrun⟩
  -- the name and the version are read or they are not
  cases truncated with
  | false =>
    rcases bind_eq_ok.mp hrun with ⟨name, u, -, hrun⟩
    rcases bind_eq_ok.mp hrun with ⟨version, u', -, hrun⟩
    cases hrun
    exact ⟨rfl, t, marker, t', hrest, hmarker, rfl⟩
  | true =>
    rcases bind_eq_ok.mp hrun with ⟨name, u, -, hrun⟩
    rcases bind_eq_ok.mp hrun with ⟨version, u', -, hrun⟩
    cases hrun
    exact ⟨rfl, t, marker, t', hrest, hmarker, rfl⟩

theorem decodeChannel_eq_ok {channel : ForgeDataChannel}
    (hrun : decodeChannel s = .ok channel s')
    : ∃ t t', readUtf s = .ok channel.name t ∧ readUtf t = .ok channel.version t' := by
  rcases bind_eq_ok.mp hrun with ⟨name, t, hname, hrun⟩
  rcases bind_eq_ok.mp hrun with ⟨version, t', hversion, hrun⟩
  rcases bind_eq_ok.mp hrun with ⟨required, u, -, hrun⟩
  rw [pure_apply, EStateM.Result.ok.injEq] at hrun
  rcases hrun with ⟨rfl, -⟩
  exact ⟨t, t', hname, hversion⟩

theorem decodeLists_eq_ok {truncated : UInt8} {bytes count rest : List UInt8}
    {channels : List ForgeDataChannel} {mods : List ForgeDataMod}
    (h : s.unread = truncated :: bytes) (hcount : Varint.Starts 5 bytes count rest)
    (hrun : decodeLists s = .ok (channels, mods) s')
    : ∃ start mid num_channels t, start.unread = rest
        ∧ listM (Varint.value count) (decodeMod (decide (truncated ≠ 0))) start = .ok mods mid
        ∧ StringBuffer.readVaruint mid = .ok num_channels t
        ∧ listM num_channels.toNat decodeChannel t = .ok channels s' := by
  rcases StringBuffer.consumes_readByte truncated s bytes h with ⟨u, hread, hbytes⟩
  have hbool : readBool s = .ok (decide (truncated ≠ 0)) u := by
    rw [readBool, bind_of_ok hread, pure_apply]
  have hsplit : u.unread = count ++ rest := hbytes.trans hcount.split
  rcases StringBuffer.consumes_readVaruint hcount.framed hcount.length_le u rest hsplit
    with ⟨start, hnum, hrest⟩
  rw [decodeLists, bind_of_ok hbool, bind_of_ok hnum, toNat_value hcount.length_le] at hrun
  rcases bind_eq_ok.mp hrun with ⟨mods', mid, hmods, hrun⟩
  rcases bind_eq_ok.mp hrun with ⟨num_channels, t, hnum_channels, hrun⟩
  rcases bind_eq_ok.mp hrun with ⟨channels', t', hchannels, hrun⟩
  rw [pure_apply, EStateM.Result.ok.injEq, Prod.mk.injEq] at hrun
  rcases hrun with ⟨⟨rfl, rfl⟩, rfl⟩
  exact ⟨start, mid, num_channels, t, hrest, hmods, hnum_channels, hchannels⟩

end Runs

end Rust

end McStatus
