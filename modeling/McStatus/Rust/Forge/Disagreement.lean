import McStatus.Python.Forge.RoundTrip
import McStatus.Rust.Forge.Lemmas

/-!
This module contains what `decode_optimized_buffer` makes of optimized mod data as
`mcstatus/responses/forge.py` reads it. It takes two bytes off every character instead of fifteen
bits, and it takes the two characters of the length for a part of the lists.
-/

namespace McStatus

open Reader Python

namespace Rust

open StringBuffer

theorem bytesOf_cons {c : Char} (hc : c.toNat < 2 ^ 15) (data : List Char)
    : bytesOf (c :: data)
        =
      UInt8.ofNat (c.toNat / 256) :: UInt8.ofNat (c.toNat % 256) :: bytesOf data := by
  have hunit : encodeUtf16 c = [UInt16.ofNat c.toNat] := by
    rw [encodeUtf16, Utf16.units, if_pos (by omega), List.map_singleton]
  have hnat : (UInt16.ofNat c.toNat).toNat = c.toNat := by
    rw [UInt16.toNat_ofNat', Nat.mod_eq_of_lt (by omega)]
  have hhigh : (UInt16.ofNat c.toNat >>> 8).toUInt8 &&& 0x7F = UInt8.ofNat (c.toNat / 256) := by
    apply UInt8.toNat_inj.mp
    have height : (8 : UInt16).toNat % 16 = 8 := rfl
    have hmask : (0x7F : UInt8).toNat = 2 ^ 7 - 1 := rfl
    rw [UInt8.toNat_and, UInt16.toNat_toUInt8, UInt16.toNat_shiftRight, hnat, height, hmask,
      Nat.and_two_pow_sub_one_eq_mod, Nat.shiftRight_eq_div_pow, UInt8.toNat_ofNat']
    omega
  have hlow : (UInt16.ofNat c.toNat).toUInt8 = UInt8.ofNat (c.toNat % 256) := by
    apply UInt8.toNat_inj.mp
    rw [UInt16.toNat_toUInt8, hnat, UInt8.toNat_ofNat']
    omega
  rw [bytesOf, List.flatMap_cons, hunit, List.singleton_append, List.flatMap_cons, unitBytes, hhigh,
    hlow]
  rfl

/-- What the bytes of a payload of `n` bytes with `count` mods begin with, up to the flag. -/
def front (n count : Nat) : List UInt8 :=
  [UInt8.ofNat (n / 256 % 128), UInt8.ofNat (n % 256), UInt8.ofNat (n / 2 ^ 23),
    UInt8.ofNat (n / 2 ^ 15 % 256), UInt8.ofNat (count / 256 % 128)]

def flagByte (truncated : Bool) : UInt8 :=
  if truncated then 1 else 0

theorem length_encodeFlagged (sent : Sent) (truncated : Bool)
    : (sent.encodeFlagged truncated).length = sent.encode.length := by
  simp only [Sent.encodeFlagged, Sent.encode, List.length_append, List.length_singleton]

theorem packChars_cons {bytes : List UInt8} (h : 2 ≤ bytes.length)
    : ∃ chars, packChars bytes
        =
      fifteenBits bytes.length 0 :: fifteenBits bytes.length 1
        :: fifteenBits (littleEndian bytes) 0 :: fifteenBits (littleEndian bytes) 1 :: chars := by
  obtain ⟨k, hk⟩ : ∃ k, (8 * bytes.length + 14) / 15 = k + 1 + 1 :=
    ⟨(8 * bytes.length + 14) / 15 - 2, by omega⟩
  rw [packChars, hk, @List.range_succ_eq_map (k + 1), @List.range_succ_eq_map k]
  exact ⟨_, rfl⟩

theorem bytesOf_packChars {sent : Sent} (truncated : Bool) (h : sent.encode.length < 2 ^ 30)
    : ∃ tail, bytesOf (packChars (sent.encodeFlagged truncated))
          = front sent.encode.length sent.mods.length ++ flagByte truncated :: tail
        ∧ (tail.headD 0).toNat < 128 := by
  let flag := flagByte truncated
  let high := UInt8.ofNat (sent.mods.length / 256 % 256)
  obtain ⟨rest, hbytes⟩ : ∃ rest, sent.encodeFlagged truncated = flag :: high :: rest := ⟨_, rfl⟩
  have hlen := length_encodeFlagged sent truncated
  rw [hbytes] at hlen ⊢
  rcases @packChars_cons (flag :: high :: rest) (by simp) with ⟨chars, hchars⟩
  rw [hchars, hlen]
  generalize sent.encode.length = n at h ⊢
  generalize hvalue : littleEndian (flag :: high :: rest) = value
  have hvalue : value = flag.toNat + 256 * (high.toNat + 256 * littleEndian rest) := hvalue.symm
  have hhigh : high.toNat = sent.mods.length / 256 % 256 :=
    Varint.toNat_ofNat (Nat.mod_lt _ (by decide))
  have hflag := flag.toNat_lt
  have hlow := toNat_fifteenBits n 0
  have hupper := toNat_fifteenBits n 1
  have hfirst := toNat_fifteenBits value 0
  have hlow_high : (fifteenBits n 0).toNat / 256 = n / 256 % 128 := by
    omega
  have hlow_low : (fifteenBits n 0).toNat % 256 = n % 256 := by
    omega
  have hupper_high : (fifteenBits n 1).toNat / 256 = n / 2 ^ 23 := by
    omega
  have hupper_low : (fifteenBits n 1).toNat % 256 = n / 2 ^ 15 % 256 := by
    omega
  have hfirst_high : (fifteenBits value 0).toNat / 256 = sent.mods.length / 256 % 128 := by
    omega
  have hfirst_low : (fifteenBits value 0).toNat % 256 = flag.toNat := by
    omega
  rw [bytesOf_cons (toNat_fifteenBits_lt _ _), bytesOf_cons (toNat_fifteenBits_lt _ _),
    bytesOf_cons (toNat_fifteenBits_lt _ _), bytesOf_cons (toNat_fifteenBits_lt _ _),
    hlow_high, hlow_low, hupper_high, hupper_low, hfirst_high, hfirst_low, UInt8.ofNat_toNat]
  refine ⟨_, rfl, ?_⟩
  have hlast := toNat_fifteenBits_lt value 1
  rw [List.headD_cons, Varint.toNat_ofNat (by omega)]
  omega

/--
The bytes before the flag fall into the truncated byte, the number of mods, the number behind it
(which is the length of an id or the number of channels), and what is left of them.
-/
structure Splits (n mods : Nat) (truncated : UInt8) (count input lead : List UInt8) : Prop where
  front_eq : front n mods = truncated :: (count ++ (input ++ lead))
  count_framed : Varint.Framed count
  count_le : count.length ≤ 5
  input_framed : Varint.Framed input
  input_le : input.length ≤ 5
  value_of_short : n % 256 < 128 →
    Varint.value count = n % 256 ∧ Varint.value input = n / 2 ^ 23
  value_of_small : n < 2 ^ 15 → Varint.value input = 0
  lead_of_long : 128 ≤ n % 256 → mods = 0 → lead = [] ∨ lead = [0]
  drop_lead : Varint.value count = mods → ∀ i, 0 < i → i < lead.length → lead.drop i = [0]

theorem high_eq_zero {mods : Nat} (h : mods < 256) : UInt8.ofNat (mods / 256 % 128) = 0 := by
  rw [Nat.div_eq_of_lt h]
  rfl

theorem splits_short {n : Nat} (mods : Nat) (h : n < 2 ^ 30) (hshort : n % 256 < 128)
    : Splits n mods (UInt8.ofNat (n / 256 % 128)) [UInt8.ofNat (n % 256)]
        [UInt8.ofNat (n / 2 ^ 23)]
        [UInt8.ofNat (n / 2 ^ 15 % 256), UInt8.ofNat (mods / 256 % 128)] where
  front_eq := rfl
  count_framed := Varint.framed_ofNat hshort
  count_le := by simp
  input_framed := Varint.framed_ofNat (by omega)
  input_le := by simp
  value_of_short := by
    intro _
    exact ⟨Varint.value_ofNat hshort, Varint.value_ofNat (by omega)⟩
  value_of_small := by
    intro hsmall
    rw [Varint.value_ofNat (by omega)]
    omega
  lead_of_long := by
    intro hlong
    omega
  drop_lead := by
    intro hcount i hpos hlt
    rw [Varint.value_ofNat hshort] at hcount
    have hi : i = 1 := by
      simp only [List.length_cons, List.length_nil] at hlt
      omega
    rw [hi, high_eq_zero (by omega)]
    rfl

theorem splits_middle {n : Nat} (mods : Nat) (h : n < 2 ^ 30) (hlong : ¬ (n % 256 < 128))
    (hmiddle : n / 2 ^ 15 % 256 < 128)
    : Splits n mods (UInt8.ofNat (n / 256 % 128)) [UInt8.ofNat (n % 256), UInt8.ofNat (n / 2 ^ 23)]
        [UInt8.ofNat (n / 2 ^ 15 % 256)] [UInt8.ofNat (mods / 256 % 128)] where
  front_eq := rfl
  count_framed := Varint.framed_ofNat_ofNat hlong (by omega) (by omega)
  count_le := by simp
  input_framed := Varint.framed_ofNat hmiddle
  input_le := by simp
  value_of_short := by
    intro hshort
    exact absurd hshort hlong
  value_of_small := by
    intro hsmall
    rw [Varint.value_ofNat hmiddle]
    omega
  lead_of_long := by
    intro _ hmods
    rw [high_eq_zero (by omega)]
    exact Or.inr rfl
  drop_lead := by
    intro _ i hpos hlt
    simp only [List.length_cons, List.length_nil] at hlt
    omega

theorem splits_upper {n : Nat} (mods : Nat) (h : n < 2 ^ 30) (hlong : ¬ (n % 256 < 128))
    (hmiddle : ¬ (n / 2 ^ 15 % 256 < 128))
    : Splits n mods (UInt8.ofNat (n / 256 % 128)) [UInt8.ofNat (n % 256), UInt8.ofNat (n / 2 ^ 23)]
        [UInt8.ofNat (n / 2 ^ 15 % 256), UInt8.ofNat (mods / 256 % 128)] [] where
  front_eq := rfl
  count_framed := Varint.framed_ofNat_ofNat hlong (by omega) (by omega)
  count_le := by simp
  input_framed := Varint.framed_ofNat_ofNat hmiddle (by omega) (by omega)
  input_le := by simp
  value_of_short := by
    intro hshort
    exact absurd hshort hlong
  value_of_small := by
    intro hsmall
    omega
  lead_of_long := by
    intro _ _
    exact Or.inl rfl
  drop_lead := by
    intro _ i hpos hlt
    exact absurd hlt (Nat.not_lt_zero i)

theorem front_splits {n : Nat} (mods : Nat) (h : n < 2 ^ 30)
    : ∃ truncated count input lead, Splits n mods truncated count input lead := by
  by_cases hshort : n % 256 < 128
  . exact ⟨_, _, _, _, splits_short mods h hshort⟩
  . by_cases hmiddle : n / 2 ^ 15 % 256 < 128
    . exact ⟨_, _, _, _, splits_middle mods h hshort hmiddle⟩
    . exact ⟨_, _, _, _, splits_upper mods h hshort hmiddle⟩

def SameMods (mods : List ForgeDataMod) (expected : List Python.ForgeDataMod) : Prop :=
  mods.map (fun mod => (mod.mod_id, mod.marker))
    = expected.map fun mod => (some mod.name, some mod.marker)

def SameChannels (channels : List ForgeDataChannel) (expected : List Python.ForgeDataChannel)
    : Prop :=
  channels.map (fun channel => (channel.name, channel.version, channel.required))
    = expected.map fun channel => (channel.name, channel.version, channel.required)

/-- Both libraries read `d`, and they read the same mods and the same channels out of it. -/
def Agree (d : List Char) : Prop :=
  ∃ data expected, ForgeData.build (.object [(['d'], .string d)]) = .ok data
    ∧ Python.ForgeData.build { d := some d } = .ok expected
    ∧ SameMods data.mods expected.mods ∧ SameChannels data.channels expected.channels

theorem build_d (d : List Char)
    : ForgeData.build (.object [(['d'], .string d)])
        =
      (decodeOptimizedBuffer d).map fun lists => {
        fml_network_version := none
        channels := lists.1
        mods := lists.2
        truncated := none
      } := by
  have hget : ∀ key, key ≠ ['d'] → Value.get [(['d'], .string d)] key = none := by
    intro key hkey
    rw [Value.get, if_neg (Ne.symm hkey), Value.get]
  have hd : (Value.get [(['d'], .string d)] ['d']).bind Value.asStr = some d := rfl
  unfold ForgeData.build builtItems
  simp only [hd]
  rw [hget _ (by decide), hget _ (by decide), hget _ (by decide), hget _ (by decide)]
  cases decodeOptimizedBuffer d with
  | ok lists =>
    simp [Except.map, bind, Except.bind, pure, Except.pure]
  | error e => rfl

theorem decodeOptimizedBuffer_eq_ok {d : List Char}
    {lists : List ForgeDataChannel × List ForgeDataMod} (hne : bytesOf d ≠ [])
    (h : decodeOptimizedBuffer d = .ok lists)
    : ∃ s', decodeLists { data := bytesOf d, pos := 0 } = .ok lists s' := by
  have hchars : ¬ ((d.flatMap encodeUtf16).isEmpty = true) := by
    rw [List.isEmpty_iff]
    intro hnil
    rw [bytesOf, hnil] at hne
    exact hne rfl
  rw [decodeOptimizedBuffer, if_neg hchars] at h
  have hbytes : (d.flatMap encodeUtf16).flatMap unitBytes = bytesOf d := rfl
  rw [hbytes] at h
  cases hrun : decodeLists { data := bytesOf d, pos := 0 } with
  | ok lists' s' =>
    rw [hrun, Except.ok.injEq] at h
    exact ⟨s', h ▸ rfl⟩
  | error e => exact e.elim

theorem build_encodeFlagged {sent : Sent} (truncated : Bool) (h : sent.encode.length < 2 ^ 30)
    : Python.ForgeData.build { d := some (packChars (sent.encodeFlagged truncated)) }
        = .ok { sent.toData with truncated := truncated } := by
  apply Python.ForgeData.build_of_full (Python.ForgeData.full_encodeFlagged truncated h)
  rw [length_encodeFlagged]
  exact h

section Runs

variable {sent : Sent} {truncated : Bool} {flag : UInt8}
variable {count input lead : List UInt8}

theorem Agree.runs (h : Agree (packChars (sent.encodeFlagged truncated)))
    (hsize : sent.encode.length < 2 ^ 30)
    (hsplits : Splits sent.encode.length sent.mods.length flag count input lead)
    : ∃ start mid num_channels t s' tail mods channels,
        start.unread = input ++ (lead ++ flagByte truncated :: tail)
        ∧ (tail.headD 0).toNat < 128
        ∧ listM (Varint.value count) (decodeMod (decide (flag ≠ 0))) start = .ok mods mid
        ∧ StringBuffer.readVaruint mid = .ok num_channels t
        ∧ listM num_channels.toNat decodeChannel t = .ok channels s'
        ∧ SameMods mods sent.toData.mods ∧ SameChannels channels sent.toData.channels := by
  rcases h with ⟨data, expected, hbuild, hpython, hmods, hchannels⟩
  rw [build_encodeFlagged truncated hsize, Except.ok.injEq] at hpython
  subst hpython
  rcases bytesOf_packChars truncated hsize with ⟨tail, hbytes, htail⟩
  rw [build_d] at hbuild
  cases hdecode : decodeOptimizedBuffer (packChars (sent.encodeFlagged truncated)) with
  | error e =>
    rw [hdecode] at hbuild
    simp [Except.map] at hbuild
  | ok lists =>
    rw [hdecode, Except.map, Except.ok.injEq] at hbuild
    subst hbuild
    have hne : bytesOf (packChars (sent.encodeFlagged truncated)) ≠ [] := by
      rw [hbytes, front]
      exact List.cons_ne_nil _ _
    rcases decodeOptimizedBuffer_eq_ok hne hdecode with ⟨s', hrun⟩
    have hview : ({ data := bytesOf (packChars (sent.encodeFlagged truncated)), pos := 0 }
        : StringBuffer).unread
        = flag :: (count ++ (input ++ (lead ++ flagByte truncated :: tail))) := by
      have hdrop := @List.drop_zero _ (bytesOf (packChars (sent.encodeFlagged truncated)))
      rw [unread, hdrop, hbytes, hsplits.front_eq, List.cons_append, List.append_assoc,
        List.append_assoc]
    rcases decodeLists_eq_ok hview ⟨rfl, hsplits.count_framed, hsplits.count_le⟩ hrun
      with ⟨start, mid, num_channels, t, hstart, hlist, hnum, hlist'⟩
    exact ⟨start, mid, num_channels, t, s', tail, lists.2, lists.1, hstart, htail, hlist, hnum,
      hlist', hmods, hchannels⟩

theorem Agree.first_mod (h : Agree (packChars (sent.encodeFlagged truncated)))
    (hsize : sent.encode.length < 2 ^ 30)
    (hsplits : Splits sent.encode.length sent.mods.length flag count input lead) {m : SentMod}
    {ms : List SentMod} (hsent : sent.mods = m :: ms)
    : Varint.value input ≠ 0
        ∧ (lead.length < Varint.value input
            ∧ (Utf8.encode m.mod_id.chars)[lead.length]? = some (flagByte truncated)
          ∨ Varint.value input = lead.length ∧ truncated = true) := by
  rcases h.runs hsize hsplits
    with ⟨start, mid, num_channels, t, s', tail, mods, channels, hstart, -, hlist, -, -, hmods, -⟩
  have hcount : Varint.value count = sent.mods.length := by
    rw [← length_of_listM hlist]
    have := congrArg List.length hmods
    simpa [Sent.toData] using this
  have hsucc : Varint.value count = ms.length + 1 := by
    rw [hcount, hsent, List.length_cons]
  rw [hsucc] at hlist
  rcases listM_succ_eq_ok hlist with ⟨mod, mods', u, hmod, -, rfl⟩
  simp only [SameMods, Sent.toData, hsent, List.map_cons, List.cons.injEq, Prod.mk.injEq] at hmods
  rcases hmods with ⟨⟨hid, hmarker⟩, -⟩
  rcases decodeMod_eq_ok ⟨hstart, hsplits.input_framed, hsplits.input_le⟩ hmod
    with ⟨hid', u', marker, u'', hrest, hread, hmarker'⟩
  rcases encode_of_nonEmpty (hid'.symm.trans hid) with ⟨hne, hencode⟩
  -- the marker is not empty, and so its length is not zero
  have hmarked : ∀ rest, u'.unread ≠ 0 :: rest := by
    intro rest hzero
    rcases readUtf_of_zero hzero with ⟨_, hnil, -⟩
    rw [hread, EStateM.Result.ok.injEq] at hnil
    rw [hmarker, hnil.1] at hmarker'
    simp [nonEmpty] at hmarker'
  have hpos : Varint.value input ≠ 0 := by
    intro hzero
    rw [hzero] at hne
    exact hne rfl
  refine ⟨hpos, ?_⟩
  rcases Nat.lt_trichotomy lead.length (Varint.value input) with hlt | heq | hgt
  . left
    refine ⟨hlt, ?_⟩
    rw [SentMod.toMod] at hencode
    rw [hencode, getElem?_padded hlt]
    simp
  . right
    refine ⟨heq.symm, ?_⟩
    rw [← heq, List.drop_left] at hrest
    cases truncated with
    | true => rfl
    | false => exact absurd hrest (hmarked tail)
  . have hzero := hsplits.drop_lead hcount _ (Nat.pos_of_ne_zero hpos) hgt
    rw [List.drop_append_of_le_length (Nat.le_of_lt hgt), hzero] at hrest
    exact absurd hrest (hmarked _)

theorem readUtf_flagByte {s s' : StringBuffer} {text : List Char} {tail : List UInt8}
    (h : s.unread = flagByte truncated :: tail) (htail : (tail.headD 0).toNat < 128)
    (hread : readUtf s = .ok text s') : text = [] ↔ truncated = false := by
  cases truncated with
  | false =>
    rcases readUtf_of_zero h with ⟨t, hnil, -⟩
    rw [hread, EStateM.Result.ok.injEq] at hnil
    simp [hnil.1]
  | true =>
    rcases readUtf_of_one h htail with ⟨text', t, htext, hne⟩
    rw [hread, EStateM.Result.ok.injEq] at htext
    simp [htext.1, hne]

theorem Agree.first_channel (h : Agree (packChars (sent.encodeFlagged truncated)))
    (hsize : sent.encode.length < 2 ^ 30)
    (hsplits : Splits sent.encode.length sent.mods.length flag count input lead)
    (hsent : sent.mods = [])
    : Varint.value count = 0 ∧ Varint.value input = sent.channels.length
        ∧ ∀ c cs, sent.channels = c :: cs → (lead = [] → (c.name.chars = [] ↔ truncated = false))
          ∧ (lead = [0] → (c.version.chars = [] ↔ truncated = false)) := by
  rcases h.runs hsize hsplits with ⟨start, mid, num_channels, t, s', tail, mods, channels, hstart,
    htail, hlist, hnum, hlist', hmods, hchannels⟩
  have hcount : Varint.value count = 0 := by
    rw [← length_of_listM hlist]
    have := congrArg List.length hmods
    simpa [Sent.toData, hsent] using this
  rw [hcount, listM, pure_apply, EStateM.Result.ok.injEq] at hlist
  rw [← hlist.2] at hnum
  rcases StringBuffer.consumes_readVaruint hsplits.input_framed hsplits.input_le start _ hstart
    with ⟨t', hread, ht⟩
  rw [hread, EStateM.Result.ok.injEq] at hnum
  rcases hnum with ⟨rfl, rfl⟩
  rw [toNat_value hsplits.input_le] at hlist'
  have hinput : Varint.value input = sent.channels.length := by
    rw [← length_of_listM hlist']
    have := congrArg List.length hchannels
    simpa [Sent.toData, hsent] using this
  refine ⟨hcount, hinput, ?_⟩
  intro c cs hcons
  rw [hinput, hcons, List.length_cons] at hlist'
  rcases listM_succ_eq_ok hlist' with ⟨channel, channels', u, hchannel, -, rfl⟩
  simp only [SameChannels, Sent.toData, hsent, hcons, List.flatMap_nil, List.nil_append,
    List.map_cons, List.cons.injEq, Prod.mk.injEq, SentChannel.toChannel] at hchannels
  rcases hchannels with ⟨⟨hname, hversion, -⟩, -⟩
  rcases decodeChannel_eq_ok hchannel with ⟨v, v', hread_name, hread_version⟩
  constructor
  . rintro rfl
    rw [← hname]
    exact readUtf_flagByte ht htail hread_name
  . rintro rfl
    rcases readUtf_of_zero ht with ⟨v'', hnil, hv⟩
    rw [hread_name, EStateM.Result.ok.injEq] at hnil
    rw [← hnil.2] at hv
    rw [← hversion]
    exact readUtf_flagByte hv htail hread_version

end Runs

theorem Sent.length_encode_of_no_mods {sent : Sent} (h : sent.mods = [])
    : sent.encode.length
        = 3 + ((Varint.encode sent.channels.length).length
          + (sent.channels.flatMap SentChannel.encode).length) := by
  simp only [Sent.encode, h, List.flatMap_nil, List.nil_append, List.length_append,
    List.length_singleton, List.length_nil, BigEndian.length_encode]
  omega

theorem length_channels_le (channels : List SentChannel)
    : (channels.flatMap SentChannel.encode).length ≤ channels.length * 262143 := by
  induction channels with
  | nil => simp
  | cons c cs ih =>
    have hname := Java.length_text_le c.name.fits
    have hversion := Java.length_text_le c.version.fits
    simp only [List.flatMap_cons, SentChannel.encode, List.length_append, List.length_cons,
      List.length_nil] at ih ⊢
    omega

theorem Agree.value_ne_zero {sent : Sent} {truncated : Bool}
    {flag : UInt8} {count input lead : List UInt8}
    (h : Agree (packChars (sent.encodeFlagged truncated)))
    (hsize : sent.encode.length < 2 ^ 30)
    (hsplits : Splits sent.encode.length sent.mods.length flag count input lead)
    : Varint.value input ≠ 0 := by
  cases hsent : sent.mods with
  | cons m ms => exact (h.first_mod hsize hsplits hsent).1
  | nil =>
    intro hzero
    rcases h.first_channel hsize hsplits hsent with ⟨hcount, hinput, -⟩
    have hnone : sent.channels = [] := List.eq_nil_of_length_eq_zero (by omega)
    have hlen : sent.encode.length = 4 := by
      rw [Sent.length_encode_of_no_mods hsent, hnone, List.length_nil, Varint.encode]
      rfl
    have := hsplits.value_of_short (by omega)
    omega

theorem long_of_no_mods {sent : Sent} {flag : UInt8} {count input lead : List UInt8}
    (hsize : sent.encode.length < 2 ^ 30)
    (hsplits : Splits sent.encode.length sent.mods.length flag count input lead)
    (hsent : sent.mods = [])
    (hinput : Varint.value input = sent.channels.length) (hpos : Varint.value input ≠ 0)
    : 128 ≤ sent.encode.length % 256 := by
  apply Nat.le_of_not_lt
  intro hshort
  have hupper := (hsplits.value_of_short hshort).2
  have hchannels := length_channels_le sent.channels
  have hlen := Sent.length_encode_of_no_mods hsent
  have hone : (Varint.encode sent.channels.length).length ≤ 1 :=
    Varint.length_encode_le (by decide) (by omega)
  omega

/--
The Python library reads the mods and the channels that were sent out of its string, whether the
list is cut off or not. The Rust library misses them with one of the two flags at least, and with
both as long as the upper character of the length is zero.
-/
theorem decoders_disagree {sent : Sent}
    (h : sent.encode.length < 2 ^ 30)
    : (∀ truncated, Python.ForgeData.build { d := some (packChars (sent.encodeFlagged truncated)) }
          = .ok { sent.toData with truncated := truncated })
        ∧ ¬ (∀ truncated, Agree (packChars (sent.encodeFlagged truncated)))
        ∧ (sent.encode.length < 2 ^ 15 →
          ∀ truncated, ¬ Agree (packChars (sent.encodeFlagged truncated))) := by
  rcases front_splits sent.mods.length h with ⟨flag, count, input, lead, hsplits⟩
  refine ⟨fun truncated => build_encodeFlagged truncated h, ?_, ?_⟩
  . intro hagree
    have hpos := (hagree true).value_ne_zero h hsplits
    cases hsent : sent.mods with
    | cons m ms =>
      rcases (hagree false).first_mod h hsplits hsent with ⟨-, ⟨hlt, hfalse⟩ | ⟨-, hfalse⟩⟩
      . rcases (hagree true).first_mod h hsplits hsent with ⟨-, ⟨-, htrue⟩ | ⟨heq, -⟩⟩
        . rw [hfalse] at htrue
          exact absurd htrue (by decide)
        . omega
      . exact Bool.noConfusion hfalse
    | nil =>
      rcases (hagree false).first_channel h hsplits hsent with ⟨-, hinput, hfalse⟩
      rcases (hagree true).first_channel h hsplits hsent with ⟨-, -, htrue⟩
      cases hchannels : sent.channels with
      | nil =>
        rw [hchannels] at hinput
        exact hpos hinput
      | cons c cs =>
        have hlong := long_of_no_mods h hsplits hsent hinput hpos
        rcases hsplits.lead_of_long hlong (by rw [hsent, List.length_nil]) with hlead | hlead
        . have hname := ((hfalse c cs hchannels).1 hlead).mpr rfl
          exact Bool.noConfusion (((htrue c cs hchannels).1 hlead).mp hname)
        . have hversion := ((hfalse c cs hchannels).2 hlead).mpr rfl
          exact Bool.noConfusion (((htrue c cs hchannels).2 hlead).mp hversion)
  . intro hsmall truncated hagree
    exact hagree.value_ne_zero h hsplits (hsplits.value_of_small hsmall)

def jei : Sent where
  mods := [{
    mod_id := { chars := "jei".toList, fits := by decide }
    version := some { chars := "1".toList, fits := by decide }
    channels := [{
      name := { chars := "main".toList, fits := by decide }
      version := { chars := "1".toList, fits := by decide }
      required := true
    }]
  }]
  count_lt := by decide
  channels := []

theorem decoders_disagree_jei
    : (∀ truncated, Python.ForgeData.build { d := some (packChars (jei.encodeFlagged truncated)) }
          = .ok { jei.toData with truncated := truncated })
        ∧ ¬ (∀ truncated, Agree (packChars (jei.encodeFlagged truncated)))
        ∧ (jei.encode.length < 2 ^ 15 →
          ∀ truncated, ¬ Agree (packChars (jei.encodeFlagged truncated))) :=
  decoders_disagree (by decide +kernel)

theorem not_agree_jei
    : let d := packChars (jei.encodeFlagged false)
      Python.ForgeData.build { d := some d } = .ok jei.toData
        ∧ ((ForgeData.build (.object [(['d'], .string d)])).toOption.map
            fun data => data.mods.length) = some 19
        ∧ ¬ Agree d := by
  intro d
  have hpython : Python.ForgeData.build { d := some d } = .ok jei.toData :=
    build_encodeFlagged false (by decide +kernel)
  have hrust : ((ForgeData.build (.object [(['d'], .string d)])).toOption.map
      fun data => data.mods.length) = some 19 := by
    decide +kernel
  refine ⟨hpython, hrust, ?_⟩
  rintro ⟨data, expected, hbuild, hexpected, hmods, -⟩
  have hlen := congrArg List.length hmods
  rw [hpython, Except.ok.injEq] at hexpected
  rw [hbuild, Except.toOption, Option.map_some, Option.some.injEq] at hrust
  rw [List.length_map, List.length_map, hrust, ← hexpected] at hlen
  exact absurd hlen (by decide)

end Rust

end McStatus
