import McStatus.Library.Split
import McStatus.Library.Utf16
import McStatus.Rust.Decimal
import McStatus.Rust.Legacy.Impl

/-!
This module shows which responses of servers before 1.7 are read back: `decode_utf16be` takes every
code unit for a character, and a surrogate is none.
-/

namespace McStatus

open Fallible
open Utf16 (isBmp)

namespace Rust

namespace LegacyClient

theorem fromU32_toNat (c : Char) : fromU32 c.toNat = some c := by
  have hvalid : c.toNat.isValidChar := c.valid
  rw [fromU32, if_pos hvalid, Char.ofNat_toNat]

theorem fromU32_of_surrogate {n : Nat} (hlow : 0xD800 ≤ n) (hhigh : n < 0xE000)
    : fromU32 n = none := by
  have hnot : ¬ n.isValidChar := by
    unfold Nat.isValidChar
    omega
  exact if_neg hnot

theorem decodeUtf16be_unit {n : Nat} (h : n < 0x10000) (rest : List UInt8)
    : decodeUtf16be (BigEndian.encode 2 n ++ rest)
        = (fromU32 n).toList ++ decodeUtf16be rest := by
  have hdecode : BigEndian.decode (BigEndian.encode 2 n) = n := BigEndian.decode_encode_of_lt h
  have hbytes : ∃ high low, BigEndian.encode 2 n = [high, low] := ⟨_, _, rfl⟩
  rcases hbytes with ⟨high, low, heq⟩
  rw [heq] at hdecode ⊢
  rw [List.cons_append, List.singleton_append, decodeUtf16be, hdecode]

theorem decodeUtf16be_encode (s : List Char) : decodeUtf16be (Utf16.encode s) = s.filter isBmp := by
  induction s with
  | nil => rfl
  | cons c s ih =>
    rw [Utf16.encode_cons, Utf16.encodeChar]
    rcases Utf16.units_cases c with ⟨hc, heq⟩ | ⟨hc, high, low, heq, hhigh, hlow⟩
    . rw [heq, List.flatMap_singleton, decodeUtf16be_unit (of_decide_eq_true hc), fromU32_toNat, ih,
        List.filter_cons_of_pos hc]
      rfl
    . rw [heq, List.flatMap_cons, List.flatMap_singleton, List.append_assoc,
        decodeUtf16be_unit (by omega), decodeUtf16be_unit (by omega),
        fromU32_of_surrogate hhigh.1 (by omega), fromU32_of_surrogate (by omega) hlow.2, ih,
        List.filter_cons_of_neg (by simp [hc])]
      rfl

def AllBmp (s : List Char) : Prop :=
  ∀ c ∈ s, c.toNat < 0x10000

theorem filter_isBmp_eq_iff {s : List Char} : s.filter isBmp = s ↔ AllBmp s := by
  rw [List.filter_eq_self]
  simp only [isBmp, decide_eq_true_eq]
  rfl

def digits (n : UInt32) : List Char :=
  Nat.toDigits 10 n.toNat

theorem parseOrZero_digits (n : UInt32) : parseOrZero (digits n) = n := by
  rw [parseOrZero, digits, parseU32_toDigits]
  rfl

theorem not_mem_digits {c : Char} (h : c.isDigit = false) (n : UInt32) : c ∉ digits n :=
  Numeral.not_mem_toDigits h n.toNat

theorem filter_digits (n : UInt32) : (digits n).filter isBmp = digits n := by
  rw [filter_isBmp_eq_iff]
  intro c hc
  have := Numeral.toNat_of_isDigit (Numeral.isDigit_toDigits hc)
  omega

def currentText (protocol : UInt32) (version motd : List Char) (online max : UInt32) : List Char :=
  ['\x00'].intercalate ["§1".toList, digits protocol, version, motd, digits online, digits max]

def oldText (motd : List Char) (online max : UInt32) : List Char :=
  ['§'].intercalate [motd, digits online, digits max]

variable {version motd : List Char}

theorem not_mem_filter {c : Char} {s : List Char} (h : c ∉ s) : c ∉ s.filter isBmp :=
  fun hmem => h (List.mem_of_mem_filter hmem)

theorem parseResponse_currentText (protocol online max : UInt32) (latency : Float)
    (hversion : '\x00' ∉ version) (hmotd : '\x00' ∉ motd)
    : parseResponse (Utf16.encode (currentText protocol version motd online max)) latency
        = .ok (LegacyStatusResponse.build protocol (version.filter isBmp) (motd.filter isBmp) online
          max latency) := by
  have hmark : "§1".toList.filter isBmp = "§1".toList := by decide
  have hparts :
    (decodeUtf16be (Utf16.encode (currentText protocol version motd online max))).splitOn
      '\x00' = ["§1".toList, digits protocol, version.filter isBmp, motd.filter isBmp,
        digits online, digits max] := by
    rw [decodeUtf16be_encode, currentText, filter_intercalate (by decide)]
    simp only [List.map_cons, List.map_nil, hmark, filter_digits]
    apply List.splitOn_intercalate
    . simp [not_mem_digits, not_mem_filter hversion, not_mem_filter hmotd]
    . simp
  rw [parseResponse]
  dsimp only
  rw [hparts]
  simp [index, parseOrZero_digits]

theorem parseResponse_oldText (online max : UInt32) (latency : Float) (hmotd : '\x00' ∉ motd)
    (hsign : '§' ∉ motd)
    : parseResponse (Utf16.encode (oldText motd online max)) latency
        = .ok (LegacyStatusResponse.build 0 "<1.4".toList (motd.filter isBmp) online max
          latency) := by
  have htext : decodeUtf16be (Utf16.encode (oldText motd online max))
      = ['§'].intercalate [motd.filter isBmp, digits online, digits max] := by
    rw [decodeUtf16be_encode, oldText, filter_intercalate (by decide)]
    simp only [List.map_cons, List.map_nil, filter_digits]
  have hparts : (['§'].intercalate [motd.filter isBmp, digits online, digits max]).splitOn '§'
      = [motd.filter isBmp, digits online, digits max] := by
    apply List.splitOn_intercalate
    . simp [not_mem_digits, not_mem_filter hsign]
    . simp
  have hwhole : (['§'].intercalate [motd.filter isBmp, digits online, digits max]).splitOn '\x00'
      = [['§'].intercalate [motd.filter isBmp, digits online, digits max]] := by
    apply List.splitOn_eq_singleton
    apply not_mem_intercalate (by decide)
    simp [not_mem_digits, not_mem_filter hmotd]
  generalize ['§'].intercalate [motd.filter isBmp, digits online, digits max] = text at *
  -- there is one more `§` in it than in the mark of the other format
  have hmark : text ≠ ['§', '1'] := by
    rintro rfl
    have hlength : (['§', '1'].splitOn '§').length = 2 := by decide
    rw [hparts] at hlength
    cases hlength
  rw [parseResponse]
  dsimp only
  rw [htext, hwhole]
  simp [index, parseOrZero_digits, hmark, hparts]

def CurrentReadBack (protocol : UInt32) (version motd : List Char) (online max : UInt32)
    (latency : Float) : Prop :=
  ∃ response, parseResponse (Utf16.encode (currentText protocol version motd online max)) latency
      = .ok response
    ∧ response.version = { name := version, protocol } ∧ response.motd.raw = .string motd
    ∧ response.players = { online, max }

def OldReadBack (motd : List Char) (online max : UInt32) (latency : Float) : Prop :=
  ∃ response, parseResponse (Utf16.encode (oldText motd online max)) latency = .ok response
    ∧ response.motd.raw = .string motd ∧ response.players = { online, max }

theorem readBack_iff_allBmp (protocol online max : UInt32) (latency : Float)
    (hversion : '\x00' ∉ version) (hmotd : '\x00' ∉ motd)
    : (CurrentReadBack protocol version motd online max latency ↔ AllBmp version ∧ AllBmp motd)
        ∧ ('§' ∉ motd → (OldReadBack motd online max latency ↔ AllBmp motd))
        ∧ ∀ s, decodeUtf16be (Utf16.encode s) = s ↔ AllBmp s := by
  refine ⟨?_, fun hsign => ?_, fun s => ?_⟩
  . rw [← filter_isBmp_eq_iff, ← filter_isBmp_eq_iff]
    have hparse := parseResponse_currentText protocol online max latency hversion hmotd
    constructor
    . rintro ⟨response, hok, hname, hraw, -⟩
      rw [hparse] at hok
      cases hok
      exact ⟨congrArg LegacyStatusVersion.name hname, MotdRaw.string.inj hraw⟩
    . rintro ⟨hname, hraw⟩
      rw [hname, hraw] at hparse
      exact ⟨_, hparse, rfl, rfl, rfl⟩
  . rw [← filter_isBmp_eq_iff]
    have hparse := parseResponse_oldText online max latency hmotd hsign
    constructor
    . rintro ⟨response, hok, hraw, -⟩
      rw [hparse] at hok
      cases hok
      exact MotdRaw.string.inj hraw
    . intro hraw
      rw [hraw] at hparse
      exact ⟨_, hparse, rfl, rfl⟩
  . rw [decodeUtf16be_encode, filter_isBmp_eq_iff]

theorem readBack_iff_allBmp_ascii
    : (CurrentReadBack 61 "1.4.7".toList "A Minecraft Server".toList 5 20 12.3
          ↔ AllBmp "1.4.7".toList ∧ AllBmp "A Minecraft Server".toList)
        ∧ ('§' ∉ "A Minecraft Server".toList → (OldReadBack "A Minecraft Server".toList 5 20 12.3
          ↔ AllBmp "A Minecraft Server".toList))
        ∧ ∀ s, decodeUtf16be (Utf16.encode s) = s ↔ AllBmp s :=
  readBack_iff_allBmp 61 5 20 12.3 (by decide) (by decide)

/-- A character outside of the basic plane is missing from the MOTD. -/
theorem not_readBack_emoji
    : decodeUtf16be (Utf16.encode "hi 😀!".toList) = "hi !".toList
        ∧ (¬ ∀ protocol version motd online max latency, '\x00' ∉ version → '\x00' ∉ motd →
          CurrentReadBack protocol version motd online max latency)
        ∧ ¬ ∀ motd online max latency, '\x00' ∉ motd → '§' ∉ motd →
          OldReadBack motd online max latency := by
  have hdecode : decodeUtf16be (Utf16.encode "hi 😀!".toList) = "hi !".toList := by decide
  refine ⟨hdecode, fun h => ?_, fun h => ?_⟩
  . rcases h 61 [] "hi 😀!".toList 5 20 12.3 (by decide) (by decide) with ⟨response, hok, _, hraw, _⟩
    rw [parseResponse_currentText _ _ _ _ (by decide) (by decide)] at hok
    cases hok
    exact absurd (MotdRaw.string.inj hraw) (by decide)
  . rcases h "hi 😀!".toList 5 20 12.3 (by decide) (by decide) with ⟨response, hok, hraw, _⟩
    rw [parseResponse_oldText _ _ _ (by decide) (by decide)] at hok
    cases hok
    exact absurd (MotdRaw.string.inj hraw) (by decide)

end LegacyClient

end Rust

end McStatus
