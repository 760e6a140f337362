import McStatus.Bedrock.Wire
import McStatus.Library.Loop
import McStatus.Python.Bedrock.Impl
import McStatus.Python.Io.StructRoundTrip

/-!
This module shows what the parser of Bedrock responses makes of a response that is complete: `int`
refuses numbers with too many digits.
-/

namespace McStatus

open Fallible

namespace Python

theorem decimalDigit?_of_isDigit {c : Char} (h : c.isDigit = true)
    : decimalDigit? c = some (c.toNat - '0'.toNat) := by
  have hrange := Numeral.toNat_of_isDigit h
  rw [decimalDigit?, decimalZeros, List.find?_cons_of_pos (by simp; omega)]
  rfl

theorem mapM_decimalDigit? {n m : Nat} {s : List Char} (h : Numeral.readFrom 10 n s = some m)
    : ∃ digits, s.mapM decimalDigit? = some digits ∧ digits.length = s.length
      ∧ digits.foldl (fun n d => 10 * n + d) n = m := by
  induction s generalizing n with
  | nil => exact ⟨[], rfl, rfl, Option.some.inj h⟩
  | cons c s ih =>
    have hdigit := Numeral.isDigit_of_readFrom h c List.mem_cons_self
    rcases Numeral.digit?_of_isDigit hdigit with ⟨hvalue, hlt⟩
    rw [Numeral.readFrom, hvalue] at h
    dsimp only at h
    rw [if_pos hlt] at h
    rcases ih h with ⟨digits, hmap, hlength, hfold⟩
    refine ⟨(c.toNat - '0'.toNat) :: digits, ?_, congrArg (· + 1) hlength, hfold⟩
    rw [List.mapM_cons, decimalDigit?_of_isDigit hdigit, hmap]
    rfl

theorem isIntSpace_of_isDigit {c : Char} (h : c.isDigit = true) : isIntSpace c = false := by
  have hrange := Numeral.toNat_of_isDigit h
  rw [isIntSpace, decide_eq_false_iff_not]
  intro hmem
  simp only [List.mem_cons, List.not_mem_nil, or_false] at hmem
  omega

theorem intBase10_of_nat? {n : Nat} {s : List Char} (h : Numeral.nat? 10 s = some n)
    : intBase10 s = if maxStrDigits < s.length then
        .error (.valueError (.intDigits s.length))
      else
        .ok n := by
  rcases Numeral.nat?_eq_some_iff.mp h with ⟨hne, hread⟩
  have hdigit := Numeral.isDigit_of_readFrom hread
  have hstrip : strip isIntSpace s = s := by
    apply strip_eq_self
    . exact fun c hc => isIntSpace_of_isDigit (hdigit c (List.mem_of_mem_head? hc))
    . exact fun c hc => isIntSpace_of_isDigit (hdigit c (List.mem_of_mem_getLast? hc))
  have hgroups : s.splitOn '_' = [s] := by
    apply List.splitOn_eq_singleton
    exact fun hmem => absurd (hdigit _ hmem) (by decide)
  rcases mapM_decimalDigit? hread with ⟨digits, hmap, hlength, hfold⟩
  rw [intBase10, hstrip]
  split
  next sign body hsign =>
  split at hsign
  . exact absurd (hdigit '+' List.mem_cons_self) (by decide)
  . exact absurd (hdigit '-' List.mem_cons_self) (by decide)
  . rw [Prod.mk.injEq] at hsign
    rcases hsign with ⟨rfl, rfl⟩
    rw [hgroups]
    simp [hmap, hlength, hfold, hne]

def responseOf (info : Bedrock.ServerInfo) (latency : Float) : BedrockStatusResponse where
  players := { online := info.online.value, max := info.max.value }
  version := {
    name := info.version.text
    protocol := info.protocol.value
    brand := info.brand.text
  }
  motd := {
    parsed := Motd.parseAsStr info.motd.text true
    raw := .str info.motd.text
    bedrock := true
  }
  latency := latency
  map_name := some info.field7.text
  gamemode := some info.field8.text

/-- `int` takes the numbers. -/
def FewDigits (info : Bedrock.ServerInfo) : Prop :=
  info.protocol.digits.length ≤ maxStrDigits ∧ info.online.digits.length ≤ maxStrDigits
    ∧ info.max.digits.length ≤ maxStrDigits

theorem intBase10_of_le {number : Bedrock.Decimal} (h : number.digits.length ≤ maxStrDigits)
    : intBase10 number.digits = .ok (number.value : Int) := by
  rw [intBase10_of_nat? number.reads, if_neg (Nat.not_lt.mpr h)]

theorem length_le_of_intBase10 {number : Bedrock.Decimal} {value : Int}
    (h : intBase10 number.digits = .ok value) : number.digits.length ≤ maxStrDigits := by
  rw [intBase10_of_nat? number.reads] at h
  split at h
  . cases h
  . next hle => exact Nat.not_lt.mp hle

theorem build_eq (info : Bedrock.ServerInfo) (latency : Float)
    : BedrockStatusResponse.build info.fields latency = (do
        let online ← intBase10 info.online.digits
        let max ← intBase10 info.max.digits
        let protocol ← intBase10 info.protocol.digits
        return {
          responseOf info latency with
          players := { online, max }
          version := { name := info.version.text, protocol, brand := info.brand.text }
        }) := by
  have hbrand : getItem info.fields 0 = .ok info.brand.text := rfl
  have hmotd : getItem info.fields 1 = .ok info.motd.text := rfl
  have hprotocol : getItem info.fields 2 = .ok info.protocol.digits := rfl
  have hversion : getItem info.fields 3 = .ok info.version.text := rfl
  have honline : getItem info.fields 4 = .ok info.online.digits := rfl
  have hmax : getItem info.fields 5 = .ok info.max.digits := rfl
  rw [BedrockStatusResponse.build, hbrand, hmotd, hprotocol, hversion, honline, hmax]
  simp only [ok_bind]
  rfl

theorem build_fields {info : Bedrock.ServerInfo} (latency : Float) (h : FewDigits info)
    : BedrockStatusResponse.build info.fields latency = .ok (responseOf info latency) := by
  rcases h with ⟨hprotocol, honline, hmax⟩
  rw [build_eq, intBase10_of_le hprotocol, intBase10_of_le honline, intBase10_of_le hmax]
  rfl

theorem fewDigits_of_build {info : Bedrock.ServerInfo} {latency : Float}
    {response : BedrockStatusResponse}
    (h : BedrockStatusResponse.build info.fields latency = .ok response) : FewDigits info := by
  rw [build_eq] at h
  rcases bind_eq_ok.mp h with ⟨online, honline, h⟩
  rcases bind_eq_ok.mp h with ⟨max, hmax, h⟩
  rcases bind_eq_ok.mp h with ⟨protocol, hprotocol, -⟩
  exact ⟨length_le_of_intBase10 hprotocol, length_le_of_intBase10 honline,
    length_le_of_intBase10 hmax⟩

namespace BedrockClient

theorem parseResponse_bytes (datagram : Bedrock.Datagram) (latency : Float)
    : parseResponse datagram.bytes latency
        = BedrockStatusResponse.build datagram.info.fields latency := by
  have hdrop : datagram.bytes.drop 1 = datagram.body := rfl
  have hunpack : unpack .ushort (BigEndian.encode 2 datagram.name_length)
      = .ok (datagram.name_length : Int) := by
    have hvalue : unpackUnsigned (BigEndian.encode 2 datagram.name_length)
        = (datagram.name_length : Int) := congrArg Int.ofNat datagram.decode_name_length
    rw [unpack_of_length (BigEndian.length_encode 2 _), hvalue]
  rw [parseResponse, hdrop, datagram.take_name_length, hunpack, ok_bind,
    Int.toNat_natCast, datagram.take_info, decodeUtf8, Utf8.decode?_encode]
  dsimp only
  rw [ok_bind, datagram.info.splitOn_text]

end BedrockClient

end Python

end McStatus
