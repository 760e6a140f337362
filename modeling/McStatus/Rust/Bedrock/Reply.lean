import McStatus.Bedrock.Wire
import McStatus.Rust.Bedrock.Impl
import McStatus.Rust.Decimal

/-!
This module shows that the parser of Bedrock responses never panics, and what it makes of a response
that is complete.
-/

namespace McStatus

open Fallible

namespace Rust

theorem someField_of_ne_nil {field : List Char} (h : field ≠ []) : someField field = some field :=
  if_neg (by simpa using h)

theorem exists_build (data : List (List Char)) (latency : Float)
    : ∃ response, BedrockStatusResponse.build data latency = .ok response := by
  rw [BedrockStatusResponse.build]
  split
  . exact ⟨_, rfl⟩
  . rcases exists_index_of_lt data 0 (by omega) with ⟨brand, hbrand⟩
    rcases exists_index_of_lt data 1 (by omega) with ⟨motd, hmotd⟩
    rcases exists_index_of_lt data 2 (by omega) with ⟨protocol, hprotocol⟩
    rcases exists_index_of_lt data 3 (by omega) with ⟨name, hname⟩
    rcases exists_index_of_lt data 4 (by omega) with ⟨online, honline⟩
    rcases exists_index_of_lt data 5 (by omega) with ⟨max, hmax⟩
    rw [hbrand, hmotd, hprotocol, hname, honline, hmax]
    exact ⟨_, rfl⟩

def responseOf (info : Bedrock.ServerInfo) (latency : Float) : BedrockStatusResponse where
  players := { online := .ofNat info.online.value, max := .ofNat info.max.value }
  version := {
    name := some info.version.text
    protocol := some (.ofNat info.protocol.value)
    brand := some info.brand.text
  }
  motd := Motd.fromString info.motd.text true
  latency := latency
  map_name := some info.field8.text
  gamemode := some info.field7.text

theorem build_fields (info : Bedrock.ServerInfo) (latency : Float)
    : BedrockStatusResponse.build info.fields latency = .ok (.ok (responseOf info latency)) := by
  have hbrand : index info.fields 0 = .ok info.brand.text := rfl
  have hmotd : index info.fields 1 = .ok info.motd.text := rfl
  have hprotocol : index info.fields 2 = .ok info.protocol.digits := rfl
  have hversion : index info.fields 3 = .ok info.version.text := rfl
  have honline : index info.fields 4 = .ok info.online.digits := rfl
  have hmax : index info.fields 5 = .ok info.max.digits := rfl
  have hfield7 : info.fields[7]? = some info.field7.text := rfl
  have hfield8 : info.fields[8]? = some info.field8.text := rfl
  have hlength : ¬ info.fields.length < 6 := by simp [Bedrock.ServerInfo.fields]
  rw [BedrockStatusResponse.build, if_neg hlength, hbrand, hmotd, hprotocol, hversion, honline,
    hmax, hfield7, hfield8]
  simp only [ok_bind, Option.bind_some, someField_of_ne_nil (Bedrock.Field.ne_nil _),
    parseU32_digits]
  rfl

namespace BedrockClient

theorem parseResponse_ne_panic (data : List UInt8) (latency : Float)
    : parseResponse data latency ≠ .error .panic := by
  rw [parseResponse]
  split
  . exact fun h => by cases h
  . next hlength =>
    rw [sliceFrom_of_le (by omega), ok_bind]
    have hdrop : (data.drop 1).length = data.length - 1 := List.length_drop
    rw [if_neg (by omega)]
    rcases exists_index_of_lt (data.drop 1) 32 (by omega) with ⟨high, hhigh⟩
    rcases exists_index_of_lt (data.drop 1) 33 (by omega) with ⟨low, hlow⟩
    rw [hhigh, ok_bind, hlow, ok_bind]
    dsimp only
    split
    . exact fun h => by cases h
    . rw [slice_of_le (by omega) (by omega), ok_bind]
      generalize Utf8.lossy _ = text
      rcases exists_build (text.splitOn ';') latency with ⟨response, hbuild⟩
      rw [hbuild, ok_bind]
      cases response with
      | ok response => exact fun h => by cases h
      | error e => exact fun h => by cases h

theorem parseResponse_bytes (datagram : Bedrock.Datagram) (latency : Float)
    : parseResponse datagram.bytes latency = .ok (responseOf datagram.info latency) := by
  have hlength := datagram.length_body
  have hbytes : datagram.bytes.length = datagram.body.length + 1 := rfl
  have hdrop : datagram.bytes.drop 1 = datagram.body := rfl
  have hsize : ∃ high low, BigEndian.encode 2 datagram.name_length = [high, low] := ⟨_, _, rfl⟩
  rcases hsize with ⟨high, low, hsize⟩
  have hpair := datagram.take_name_length
  rw [hsize] at hpair
  have hhigh : datagram.body[32]? = some high := by
    have h := congrArg (·[0]?) hpair
    simpa [List.getElem?_take, List.getElem?_drop] using h
  have hlow : datagram.body[33]? = some low := by
    have h := congrArg (·[1]?) hpair
    simpa [List.getElem?_take, List.getElem?_drop] using h
  have hdecode := datagram.decode_name_length
  rw [hsize] at hdecode
  rw [parseResponse, if_neg (by omega), sliceFrom_of_le (by omega), ok_bind, hdrop,
    if_neg (by omega), index_of_getElem? hhigh, index_of_getElem? hlow, ok_bind, ok_bind]
  dsimp only
  rw [hdecode, if_neg (by omega), slice_of_le (by omega) (by omega), ok_bind,
    Nat.add_sub_cancel_left, datagram.take_info, Utf8.lossy_encode, datagram.info.splitOn_text,
    build_fields, ok_bind]
  rfl

end BedrockClient

end Rust

end McStatus
