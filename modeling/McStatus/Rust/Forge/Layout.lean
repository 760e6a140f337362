import McStatus.Library.Varint
import McStatus.Rust.Forge.Bytewise
import McStatus.Rust.Forge.Lemmas

/-!
This module contains the layout of Forge's mod data as a language of bytes, and when
`decode_optimized_buffer` decodes nothing but bytes that exist.
-/

namespace McStatus

open Reader

namespace Rust

open StringBuffer (unread)
open Bytewise (existingByte decodeExisting)

/-- A number: every byte but the last one has its highest bit set, unless there are too many. -/
inductive Varuint : Nat → List UInt8 → Prop where
  | full : Varuint 0 []
  | last (left : Nat) (b : UInt8) (h : b.toNat < 128) : Varuint (left + 1) [b]
  | more (left : Nat) (b : UInt8) (rest : List UInt8) (h : 128 ≤ b.toNat)
      (hrest : Varuint left rest)
      : Varuint (left + 1) (b :: rest)

theorem Varuint.length_le {left : Nat} {input : List UInt8} (h : Varuint left input)
    : input.length ≤ left := by
  induction h with
  | full => exact Nat.le_refl 0
  | last => exact Nat.succ_le_succ (Nat.zero_le _)
  | more left b rest h hrest ih => exact Nat.succ_le_succ ih

theorem Varuint.length_pos {left : Nat} {input : List UInt8} (h : Varuint (left + 1) input)
    : 1 ≤ input.length := by
  cases h with
  | last => exact Nat.le_refl 1
  | more b rest h hrest => exact Nat.succ_le_succ (Nat.zero_le _)

def HasText (text : List Char) (input : List UInt8) : Prop :=
  ∃ length bytes, input = length ++ bytes ∧ Varuint 5 length ∧ bytes.length = Varint.value length
    ∧ text = (Utf8.decode? bytes).getD []

inductive HasMod : Bool → ForgeDataMod → List UInt8 → Prop where
  | truncated (mod_id marker : List Char) (input₁ input₂ : List UInt8) (h₁ : HasText mod_id input₁)
      (h₂ : HasText marker input₂)
      : HasMod true
          { mod_id := nonEmpty mod_id, marker := nonEmpty marker, name := none, version := none }
          (input₁ ++ input₂)
  | full (mod_id marker name version : List Char) (input₁ input₂ input₃ input₄ : List UInt8)
      (h₁ : HasText mod_id input₁) (h₂ : HasText marker input₂) (h₃ : HasText name input₃)
      (h₄ : HasText version input₄)
      : HasMod false
          { mod_id := nonEmpty mod_id, marker := nonEmpty marker, name := some name,
            version := some version }
          (input₁ ++ (input₂ ++ (input₃ ++ input₄)))

inductive HasChannel : ForgeDataChannel → List UInt8 → Prop where
  | mk (name version : List Char) (required : UInt8) (input₁ input₂ : List UInt8)
      (h₁ : HasText name input₁) (h₂ : HasText version input₂)
      : HasChannel { name := name, version := version, required := required ≠ 0 }
          (input₁ ++ (input₂ ++ [required]))

inductive Layout : List ForgeDataChannel × List ForgeDataMod → List UInt8 → Prop where
  | mk (truncated : UInt8) (channels : List ForgeDataChannel) (mods : List ForgeDataMod)
      (num_mods input₁ num_channels input₂ : List UInt8) (hnum_mods : Varuint 5 num_mods)
      (hmods_length : mods.length = Varint.value num_mods)
      (hmods : Words (HasMod (truncated ≠ 0)) mods input₁) (hnum_channels : Varuint 5 num_channels)
      (hchannels_length : channels.length = Varint.value num_channels)
      (hchannels : Words HasChannel channels input₂)
      : Layout (channels, mods) (truncated :: (num_mods ++ (input₁ ++ (num_channels ++ input₂))))

theorem parses_existingByte : Parses unread existingByte (fun b input => input = [b]) where
  sound := by
    intro s b s' hrun
    rw [existingByte, bind_of_ok (get_apply s)] at hrun
    have hhead : s.unread.head? = s.data[s.pos]? := List.head?_drop
    cases hbyte : s.data[s.pos]? with
    | some byte =>
      rw [hbyte] at hrun
      cases hrun
      refine ⟨[b], ?_, rfl⟩
      have htail : s.data.drop (s.pos + 1) = s.unread.tail := by
        rw [← List.drop_one]
        exact List.drop_drop.symm
      change s.unread = [b] ++ s.data.drop (s.pos + 1)
      rw [htail, List.singleton_append]
      exact (List.cons_head?_tail (hhead.trans hbyte)).symm
    | none =>
      rw [hbyte] at hrun
      cases hrun
  complete := by
    rintro b input rfl s rest h
    have hhead : s.unread.head? = s.data[s.pos]? := List.head?_drop
    rw [h, List.singleton_append, List.head?_cons] at hhead
    refine ⟨{ s with pos := s.pos + 1 }, ?_, ?_⟩
    . rw [existingByte, bind_of_ok (get_apply s), ← hhead]
      rfl
    . have htail : s.data.drop (s.pos + 1) = s.unread.tail := by
        rw [← List.drop_one]
        exact List.drop_drop.symm
      change s.data.drop (s.pos + 1) = rest
      rw [htail, h]
      rfl

theorem parses_go {left i : Nat} {result : UInt64} (hlimit : left + i ≤ 5)
    (hresult : result.toNat < 2 ^ (7 * i))
    : Parses unread (Bytewise.readVaruint.go existingByte left i result) (fun n input =>
        Varuint left input ∧ n =
          UInt64.ofNat (result.toNat + Varint.value input * 2 ^ (7 * i))) := by
  induction left generalizing i result with
  | zero =>
    refine (Parses.pure result).congr fun n input => ?_
    constructor
    . rintro ⟨rfl, rfl⟩
      refine ⟨.full, ?_⟩
      rw [Varint.value_nil, Nat.zero_mul, Nat.add_zero, UInt64.ofNat_toNat]
    . rintro ⟨hinput, rfl⟩
      cases hinput
      rw [Varint.value_nil, Nat.zero_mul, Nat.add_zero, UInt64.ofNat_toNat]
      exact ⟨rfl, rfl⟩
  | succ left ih =>
    have hvalue (b : UInt8)
        : (result ||| ((b &&& 0x7F).toUInt64 <<< UInt64.ofNat (7 * i))).toNat
            = result.toNat + b.toNat % 128 * 2 ^ (7 * i) := by
      have hgroup := Varint.group_lt b hresult
      have hfit : 2 ^ (7 * (i + 1)) ≤ 2 ^ 35 := Nat.pow_le_pow_right (by decide) (by omega)
      have := toNat_or_group b (by omega) hresult
      rwa [Nat.mod_eq_of_lt (by omega)] at this
    have hnext (b : UInt8)
        : (result ||| ((b &&& 0x7F).toUInt64 <<< UInt64.ofNat (7 * i))).toNat
            < 2 ^ (7 * (i + 1)) := by
      rw [hvalue]
      exact Varint.group_lt b hresult
    rw [Bytewise.readVaruint.go]
    refine (parses_existingByte.bind fun b =>
      Parses.ite (Parses.pure _) (ih (by omega) (hnext b))).congr fun n input => ?_
    constructor
    . rintro ⟨b, front, back, rfl, rfl, hback⟩
      rw [List.singleton_append, Varint.group_add_value, ← hvalue]
      split at hback
      . next hlast =>
        rcases hback with ⟨rfl, rfl⟩
        rw [and_high_eq_zero_iff] at hlast
        simp only [Varint.value_nil, Nat.zero_mul, Nat.add_zero, UInt64.ofNat_toNat]
        exact ⟨.last left b hlast, trivial⟩
      . next hmore =>
        rw [and_high_eq_zero_iff, Nat.not_lt] at hmore
        exact ⟨.more left b back hmore hback.1, hback.2⟩
    . rintro ⟨hinput, rfl⟩
      cases hinput with
      | last _ b hlast =>
        refine ⟨b, [b], [], rfl, rfl, ?_⟩
        rw [if_pos ((and_high_eq_zero_iff b).mpr hlast), Varint.group_add_value, ← hvalue]
        simp only [Varint.value_nil, Nat.zero_mul, Nat.add_zero, UInt64.ofNat_toNat]
        exact ⟨trivial, trivial⟩
      | more _ b rest hmore hrest =>
        refine ⟨b, [b], rest, rfl, rfl, ?_⟩
        rw [if_neg (by rw [and_high_eq_zero_iff]; omega), Varint.group_add_value, ← hvalue]
        exact ⟨hrest, rfl⟩

theorem parses_readVaruint
    : Parses unread (Bytewise.readVaruint existingByte)
        (fun n input => Varuint 5 input ∧ n = UInt64.ofNat (Varint.value input)) := by
  have hgo := @parses_go 5 0 0 (by decide) (by decide)
  refine hgo.congr fun n input => ?_
  rw [UInt64.toNat_zero, Nat.zero_add, Nat.mul_zero, Nat.pow_zero, Nat.mul_one]

theorem toNat_value {input : List UInt8} (h : Varuint 5 input)
    : (UInt64.ofNat (Varint.value input)).toNat = Varint.value input :=
  StringBuffer.toNat_value h.length_le

theorem words_bytes {bytes input : List UInt8}
    : Words (fun b input => input = [b]) bytes input ↔ input = bytes := by
  induction bytes generalizing input with
  | nil => exact words_nil
  | cons b bytes ih =>
    rw [words_cons]
    constructor
    . rintro ⟨front, back, rfl, rfl, hback⟩
      rw [ih.mp hback, List.singleton_append]
    . rintro rfl
      exact ⟨[b], bytes, rfl, rfl, ih.mpr rfl⟩

theorem parses_readUtf : Parses unread (Bytewise.readUtf existingByte) HasText := by
  refine (parses_readVaruint.bind fun length => (parses_existingByte.listM length.toNat).bind_pure
    fun bytes => (Utf8.decode? bytes).getD []).congr fun text input => ?_
  constructor
  . rintro ⟨n, length, word, rfl, ⟨hlength, rfl⟩, bytes, ⟨hlen, hword⟩, rfl⟩
    rw [words_bytes] at hword
    rw [toNat_value hlength] at hlen
    exact ⟨length, bytes, by rw [hword], hlength, hlen, rfl⟩
  . rintro ⟨length, bytes, rfl, hlength, hlen, rfl⟩
    exact ⟨_, length, bytes, rfl, ⟨hlength, rfl⟩, bytes,
      ⟨by rw [toNat_value hlength, hlen], words_bytes.mpr rfl⟩, rfl⟩

theorem parses_readBool
    : Parses unread (Bytewise.readBool existingByte)
        (fun b input => ∃ byte, input = [byte] ∧ b = decide (byte ≠ 0)) :=
  parses_existingByte.bind_pure fun byte => decide (byte ≠ 0)

theorem parses_decodeMod_truncated
    : Parses unread (Bytewise.decodeMod existingByte true) (HasMod true) := by
  refine (parses_readUtf.bind fun mod_id => parses_readUtf.bind fun marker =>
    (Parses.pure none).bind fun name => (Parses.pure none).bind_pure fun version =>
    ForgeDataMod.mk (nonEmpty mod_id) (nonEmpty marker) name version).congr fun mod input => ?_
  constructor
  . rintro ⟨mod_id, input₁, _, rfl, h₁, marker, input₂, _, rfl, h₂, _, _, _, rfl, ⟨rfl, rfl⟩, _,
      ⟨rfl, rfl⟩, rfl⟩
    rw [List.append_nil, List.append_nil]
    exact .truncated mod_id marker input₁ input₂ h₁ h₂
  . intro h
    cases h with
    | truncated mod_id marker input₁ input₂ h₁ h₂ =>
      exact ⟨mod_id, input₁, input₂, rfl, h₁, marker, input₂, [], (List.append_nil _).symm, h₂,
        none, [], [], rfl, ⟨rfl, rfl⟩, none, ⟨rfl, rfl⟩, rfl⟩

theorem parses_decodeMod_full
    : Parses unread (Bytewise.decodeMod existingByte false) (HasMod false) := by
  have hsome : Parses unread (some <$> Bytewise.readUtf existingByte)
      (fun text input => ∃ s, HasText s input ∧ text = some s) := by
    rw [map_eq_pure_bind]
    exact parses_readUtf.bind_pure some
  refine (parses_readUtf.bind fun mod_id => parses_readUtf.bind fun marker =>
    hsome.bind fun name => hsome.bind_pure fun version =>
    ForgeDataMod.mk (nonEmpty mod_id) (nonEmpty marker) name version).congr fun mod input => ?_
  constructor
  . rintro ⟨mod_id, input₁, _, rfl, h₁, marker, input₂, _, rfl, h₂, _, input₃, input₄, rfl,
      ⟨name, h₃, rfl⟩, _, ⟨version, h₄, rfl⟩, rfl⟩
    exact .full mod_id marker name version input₁ input₂ input₃ input₄ h₁ h₂ h₃ h₄
  . intro h
    cases h with
    | full mod_id marker name version input₁ input₂ input₃ input₄ h₁ h₂ h₃ h₄ =>
      exact ⟨mod_id, input₁, _, rfl, h₁, marker, input₂, _, rfl, h₂, some name, input₃, input₄, rfl,
        ⟨name, h₃, rfl⟩, some version, ⟨version, h₄, rfl⟩, rfl⟩

theorem parses_decodeMod (truncated : Bool)
    : Parses unread (Bytewise.decodeMod existingByte truncated) (HasMod truncated) := by
  cases truncated with
  | true => exact parses_decodeMod_truncated
  | false => exact parses_decodeMod_full

theorem parses_decodeChannel
    : Parses unread (Bytewise.decodeChannel existingByte) HasChannel := by
  refine (parses_readUtf.bind fun name => parses_readUtf.bind fun version =>
    parses_readBool.bind_pure fun required => ForgeDataChannel.mk name version required).congr
    fun channel input => ?_
  constructor
  . rintro ⟨name, input₁, _, rfl, h₁, version, input₂, _, rfl, h₂, _, ⟨byte, rfl, rfl⟩, rfl⟩
    exact .mk name version byte input₁ input₂ h₁ h₂
  . intro h
    cases h with
    | mk name version byte input₁ input₂ h₁ h₂ =>
      exact ⟨name, input₁, _, rfl, h₁, version, input₂, _, rfl, h₂, _, ⟨byte, rfl, rfl⟩, rfl⟩

theorem parses_decodeLists
    : Parses unread (Bytewise.decodeLists existingByte) Layout := by
  refine (parses_readBool.bind fun truncated => parses_readVaruint.bind fun num_mods =>
    ((parses_decodeMod truncated).listM num_mods.toNat).bind fun mods => parses_readVaruint.bind
    fun num_channels => (parses_decodeChannel.listM num_channels.toNat).bind_pure fun channels =>
    (channels, mods)).congr fun lists input => ?_
  constructor
  . rintro ⟨_, _, _, rfl, ⟨truncated, rfl, rfl⟩, _, num_mods, _, rfl, ⟨hnum_mods, rfl⟩, mods,
      input₁, _, rfl, ⟨hmods_length, hmods⟩, _, num_channels, input₂, rfl, ⟨hnum_channels, rfl⟩,
      channels, ⟨hchannels_length, hchannels⟩, rfl⟩
    rw [toNat_value hnum_mods] at hmods_length
    rw [toNat_value hnum_channels] at hchannels_length
    exact .mk truncated channels mods num_mods input₁ num_channels input₂ hnum_mods hmods_length
      hmods hnum_channels hchannels_length hchannels
  . intro h
    cases h with
    | mk truncated channels mods num_mods input₁ num_channels input₂ hnum_mods hmods_length hmods
        hnum_channels hchannels_length hchannels =>
      exact ⟨_, [truncated], _, rfl, ⟨truncated, rfl, rfl⟩, _, num_mods, _, rfl, ⟨hnum_mods, rfl⟩,
        mods, input₁, _, rfl, ⟨by rw [toNat_value hnum_mods, hmods_length], hmods⟩, _, num_channels,
        input₂, rfl, ⟨hnum_channels, rfl⟩, channels,
        ⟨by rw [toNat_value hnum_channels, hchannels_length], hchannels⟩, rfl⟩

theorem HasText.length_pos {text : List Char} {input : List UInt8} (h : HasText text input)
    : 1 ≤ input.length := by
  rcases h with ⟨length, bytes, rfl, hlength, _⟩
  have := hlength.length_pos
  rw [List.length_append]
  omega

theorem HasMod.length_pos {truncated : Bool} {mod : ForgeDataMod} {input : List UInt8}
    (h : HasMod truncated mod input) : 1 ≤ input.length := by
  cases h with
  | truncated mod_id marker input₁ input₂ h₁ h₂ =>
    have := h₁.length_pos
    rw [List.length_append]
    omega
  | full mod_id marker name version input₁ input₂ input₃ input₄ h₁ h₂ h₃ h₄ =>
    have := h₁.length_pos
    rw [List.length_append]
    omega

theorem HasChannel.length_pos {channel : ForgeDataChannel} {input : List UInt8}
    (h : HasChannel channel input) : 1 ≤ input.length := by
  cases h with
  | mk name version required input₁ input₂ h₁ h₂ =>
    have := h₁.length_pos
    rw [List.length_append]
    omega

theorem Layout.length_ge {channels : List ForgeDataChannel} {mods : List ForgeDataMod}
    {input : List UInt8} (h : Layout (channels, mods) input)
    : mods.length + channels.length ≤ input.length := by
  cases h with
  | mk truncated channels mods num_mods input₁ num_channels input₂ hnum_mods hmods_length hmods
      hnum_channels hchannels_length hchannels =>
    have hmods' := Words.length_ge (k := 1) (fun mod word h => HasMod.length_pos h) hmods
    have hchannels' := Words.length_ge (k := 1) (fun channel word h => HasChannel.length_pos h)
      hchannels
    simp only [List.length_cons, List.length_append]
    omega

theorem encodeUtf16_ne_nil (c : Char) : encodeUtf16 c ≠ [] := by
  unfold encodeUtf16 Utf16.units
  split <;> exact List.cons_ne_nil _ _

theorem decodeExisting_iff {d : List Char} {lists : List ForgeDataChannel × List ForgeDataMod}
    : decodeExisting d = some lists
        ↔ (d = [] ∧ lists = ([], [])) ∨ (d ≠ [] ∧ ∃ input rest, bytesOf d = input ++ rest
          ∧ Layout lists input) := by
  have hempty : (d.flatMap encodeUtf16).isEmpty = true ↔ d = [] := by
    cases d with
    | nil => simp
    | cons c d => simp [encodeUtf16_ne_nil c]
  unfold decodeExisting
  dsimp only
  by_cases hd : d = []
  . rw [if_pos (hempty.mpr hd), Option.some.injEq, eq_comm]
    simp [hd]
  . rw [if_neg fun h => hd (hempty.mp h)]
    have hunread : unread { data := (d.flatMap encodeUtf16).flatMap unitBytes, pos := 0 }
        = bytesOf d := rfl
    simp only [hd, false_and, ne_eq, not_false_eq_true, true_and, false_or]
    constructor
    . intro h
      split at h
      . next lists' s' hrun =>
        cases h
        rcases parses_decodeLists.sound _ _ _ hrun with ⟨input, hview, hlayout⟩
        exact ⟨input, _, hunread ▸ hview, hlayout⟩
      . cases h
    . rintro ⟨input, rest, hsplit, hlayout⟩
      rcases parses_decodeLists.complete lists input hlayout _ rest (hunread.trans hsplit)
        with ⟨s', hrun, _⟩
      rw [hrun]

/--
An error, or lists that are decoded of existing bytes only, and that are no longer than these.
-/
def NeverInvents (d : List Char) : Prop :=
  (∃ e, decodeOptimizedBuffer d = .error e)
    ∨ ∃ channels mods, decodeOptimizedBuffer d = .ok (channels, mods)
      ∧ decodeExisting d = some (channels, mods)
      ∧ mods.length + channels.length ≤ (bytesOf d).length

theorem decodeOptimizedBuffer_ok (d : List Char)
    : ∃ lists, decodeOptimizedBuffer d = .ok lists := by
  unfold decodeOptimizedBuffer
  dsimp only
  split
  . exact ⟨_, rfl⟩
  . split
    exact ⟨_, rfl⟩

/--
`decode_optimized_buffer` invents nothing exactly when its string is empty, or starts with a layout
that is there as a whole.
-/
theorem neverInvents_iff (d : List Char)
    : NeverInvents d
        ↔ d = [] ∨ ∃ lists input rest, bytesOf d = input ++ rest ∧ Layout lists input := by
  rcases decodeOptimizedBuffer_ok d with ⟨lists, hok⟩
  constructor
  . rintro (⟨e, herror⟩ | ⟨channels, mods, _, hexisting, _⟩)
    . rw [hok] at herror
      cases herror
    . rcases decodeExisting_iff.mp hexisting with ⟨hd, _⟩ | ⟨_, input, rest, hsplit, hlayout⟩
      . exact Or.inl hd
      . exact Or.inr ⟨_, input, rest, hsplit, hlayout⟩
  . intro h
    right
    by_cases hd : d = []
    . subst hd
      exact ⟨[], [], rfl, rfl, Nat.le_refl 0⟩
    . rcases h with hnil | ⟨⟨channels, mods⟩, input, rest, hsplit, hlayout⟩
      . exact absurd hnil hd
      . have hexisting := decodeExisting_iff.mpr (Or.inr ⟨hd, input, rest, hsplit, hlayout⟩)
        have hlen := hlayout.length_ge
        refine ⟨channels, mods, Bytewise.decodeOptimizedBuffer_of_existing hexisting, hexisting, ?_⟩
        rw [hsplit, List.length_append]
        omega

/-- The bytes end within the first mod, which is returned as if zeros came behind them. -/
theorem decodeOptimizedBuffer_invents
    : decodeOptimizedBuffer [Char.ofNat 1, Char.ofNat 1]
          = .ok ([], [{
            mod_id := none
            marker := some [Char.ofNat 0]
            name := some []
            version := some []
          }])
        ∧ ¬ ∀ d, NeverInvents d := by
  have hok : decodeOptimizedBuffer [Char.ofNat 1, Char.ofNat 1]
      = .ok ([], [{
        mod_id := none
        marker := some [Char.ofNat 0]
        name := some []
        version := some []
      }]) := by
    decide +kernel
  refine ⟨hok, fun h => ?_⟩
  have hnone : decodeExisting [Char.ofNat 1, Char.ofNat 1] = none := by decide +kernel
  rcases h [Char.ofNat 1, Char.ofNat 1] with ⟨e, herror⟩ | ⟨channels, mods, _, hexisting, _⟩
  . rw [hok] at herror
    cases herror
  . rw [hnone] at hexisting
    cases hexisting

end Rust

end McStatus
