import McStatus.Library.BigEndian
import McStatus.Library.Utf8Lossy
import McStatus.Rust.Motd.Motd

/-!
This module contains the response parser of `src/protocol/bedrock.rs` and the response of
`src/response/bedrock.rs`.
-/

namespace McStatus

namespace Rust

structure BedrockStatusPlayers where
  online : UInt32
  max : UInt32
  deriving DecidableEq, Repr

structure BedrockStatusVersion where
  name : Option (List Char)
  protocol : Option UInt32
  brand : Option (List Char)
  deriving DecidableEq, Repr

structure BedrockStatusResponse where
  players : BedrockStatusPlayers
  version : BedrockStatusVersion
  motd : Motd
  latency : Float
  map_name : Option (List Char)
  gamemode : Option (List Char)

/-- A field, or `None` where it is empty. -/
def someField (field : List Char) : Option (List Char) :=
  if field.isEmpty then none else some field

/-- `BedrockStatusResponse::build`. What it returns as an error is a text. -/
def BedrockStatusResponse.build (data : List (List Char)) (latency : Float)
    : Exec (Except String BedrockStatusResponse) := do
  if data.length < 6 then
    return .error s!"Bedrock response has too few fields: expected at least 6, got {data.length}"
  else
    let brand := someField (← index data 0)
    let motd := Motd.fromString (← index data 1) true
    let protocol := parseU32 (← index data 2)
    let version_name := someField (← index data 3)
    let online := (parseU32 (← index data 4)).getD 0
    let max := (parseU32 (← index data 5)).getD 0
    let gamemode := data[7]?.bind someField
    let map_name := data[8]?.bind someField
    return .ok {
      players := { online, max }
      version := { name := version_name, protocol, brand }
      motd
      latency
      map_name
      gamemode
    }

namespace BedrockClient

def parseResponse (data : List UInt8) (latency : Float) : Exec BedrockStatusResponse := do
  if data.length < 35 then
    throw (.error (.protocol "Bedrock response too short"))
  else
    let data ← sliceFrom data 1
    if data.length < 34 then
      throw (.error (.protocol "Bedrock response too short for name length"))
    else
      let name_length := BigEndian.decode [← index data 32, ← index data 33]
      if data.length < 34 + name_length then
        throw (.error (.protocol "Bedrock response too short for server info"))
      else
        let name_data ← slice data 34 (34 + name_length)
        let fields := (Utf8.lossy name_data).splitOn ';'
        match ← BedrockStatusResponse.build fields latency with
        | .ok response => return response
        | .error e => throw (.error (.protocol e))

end BedrockClient

end Rust

end McStatus
