import McStatus.Python.Bedrock.Reply
import McStatus.Python.Legacy.Impl
import McStatus.Rust.Legacy.RoundTrip

/-!
This module shows that the responses of servers before 1.7 are read back by Python as they were
sent, in both of their formats.
-/

namespace McStatus

namespace Python

namespace LegacyClient

open Rust.LegacyClient (digits currentText oldText not_mem_digits)

theorem intBase10_digits (n : UInt32) : intBase10 (digits n) = .ok (n.toNat : Int) := by
  have hlength : (Nat.toDigits 10 n.toNat).length ≤ 10 := by
    rw [Nat.length_toDigits_le_iff (by decide) (by decide)]
    have := n.toNat_lt
    omega
  have hfew : ¬ maxStrDigits < (Nat.toDigits 10 n.toNat).length := by
    rw [maxStrDigits]
    omega
  rw [digits, intBase10_of_nat? (Numeral.nat?_toDigits _), if_neg hfew]

theorem intBase10_unknown : intBase10 "-1".toList = .ok (-1) := by decide

theorem decodeUtf16be_encode (s : List Char) : decodeUtf16be (Utf16.encode s) = .ok s := by
  rw [decodeUtf16be, Utf16.decode?_encode]

variable {version motd : List Char}

def responseOf (version : LegacyStatusVersion) (motd : List Char) (online max : UInt32)
    (latency : Rat) : LegacyStatusResponse where
  players := { online := online.toNat, max := max.toNat }
  version := version
  motd := { parsed := Motd.parseAsStr motd false, raw := .str motd, bedrock := false }
  latency := latency

theorem parseResponse_currentText (protocol online max : UInt32) (latency : Rat)
    (hversion : '\x00' ∉ version) (hmotd : '\x00' ∉ motd)
    : parseResponse (Utf16.encode (currentText protocol version motd online max)) latency
        = .ok (responseOf { name := version, protocol := protocol.toNat } motd online max latency)
    := by
  have hnul := not_mem_digits (c := '\x00') (by decide)
  have hparts : (currentText protocol version motd online max).splitOn '\x00'
      = ["§1".toList, digits protocol, version, motd, digits online, digits max] := by
    apply List.splitOn_intercalate
    . simp [hnul, hversion, hmotd]
    . simp
  have hfields : fields ["§1".toList, digits protocol, version, motd, digits online, digits max]
      = .ok [digits protocol, version, motd, digits online, digits max] := rfl
  rw [parseResponse, decodeUtf16be_encode]
  dsimp only [Except.mapError]
  rw [Fallible.ok_bind, hparts, hfields, Fallible.ok_bind, LegacyStatusResponse.build]
  simp only [getItem, List.getElem?_cons_zero, List.getElem?_cons_succ, Fallible.ok_bind,
    intBase10_digits]
  rfl

theorem parseResponse_oldText (online max : UInt32) (latency : Rat) (hmotd : '\x00' ∉ motd)
    (hsign : '§' ∉ motd)
    : parseResponse (Utf16.encode (oldText motd online max)) latency
        = .ok (responseOf { name := "<1.4".toList, protocol := -1 } motd online max latency) := by
  have hnul := not_mem_digits (c := '\x00') (by decide)
  have hno := not_mem_digits (c := '§') (by decide)
  have hparts : (oldText motd online max).splitOn '§' = [motd, digits online, digits max] := by
    apply List.splitOn_intercalate
    . simp [hno, hsign]
    . simp
  have hwhole : (oldText motd online max).splitOn '\x00' = [oldText motd online max] := by
    apply List.splitOn_eq_singleton
    apply not_mem_intercalate (by decide)
    simp [hnul, hmotd]
  generalize oldText motd online max = text at *
  -- there is one more `§` in it than in the mark of the other format
  have hmark : text ≠ "§1".toList := by
    rintro rfl
    have hlength : ("§1".toList.splitOn '§').length = 2 := by decide
    rw [hparts] at hlength
    cases hlength
  have hfields : fields [text]
      = .ok ["-1".toList, "<1.4".toList, motd, digits online, digits max] := by
    have hfirst : (getItem [text] 0).mapError LegacyError.raised = .ok text := rfl
    rw [fields, hfirst, Fallible.ok_bind, if_pos hmark, hparts]
    rfl
  rw [parseResponse, decodeUtf16be_encode]
  dsimp only [Except.mapError]
  rw [Fallible.ok_bind, hwhole, hfields, Fallible.ok_bind, LegacyStatusResponse.build]
  simp only [getItem, List.getElem?_cons_zero, List.getElem?_cons_succ, Fallible.ok_bind,
    intBase10_digits, intBase10_unknown]
  rfl

end LegacyClient

end Python

end McStatus
