import McStatus.Library.BigEndian
import McStatus.Rust.Motd.Motd

/-!
This module contains the client of `src/protocol/legacy.rs` for servers before 1.7, and its response
of `src/response/legacy.rs`.
-/

namespace McStatus

open Fallible

namespace Rust

structure LegacyStatusPlayers where
  online : UInt32
  max : UInt32
  deriving DecidableEq, Repr

structure LegacyStatusVersion where
  name : List Char
  protocol : UInt32
  deriving DecidableEq, Repr

structure LegacyStatusResponse where
  players : LegacyStatusPlayers
  version : LegacyStatusVersion
  motd : Motd
  latency : Float

def LegacyStatusResponse.build (protocol_version : UInt32) (version_name motd_raw : List Char)
    (online_players max_players : UInt32) (latency : Float) : LegacyStatusResponse where
  players := { online := online_players, max := max_players }
  version := { name := version_name, protocol := protocol_version }
  motd := Motd.fromString motd_raw false
  latency := latency

namespace LegacyClient

def fromU32 (n : Nat) : Option Char :=
  if n.isValidChar then some (Char.ofNat n) else none

/-- `decode_utf16be`. What is no character by itself is left out, as is an odd byte at the end. -/
def decodeUtf16be (data : List UInt8) : List Char :=
  match data with
  | high :: low :: rest =>
    let code_unit := BigEndian.decode [high, low]
    (fromU32 code_unit).toList ++ decodeUtf16be rest
  | _ => []

def parseOrZero (s : List Char) : UInt32 :=
  (parseU32 s).getD 0

def parseResponse (data : List UInt8) (latency : Float) : Exec LegacyStatusResponse := do
  let decoded := decodeUtf16be data
  let parts := decoded.splitOn '\x00'
  if parts.length < 1 then
    throw (.error (.protocol "Received empty legacy response"))
  else if (← index parts 0) = "§1".toList then
    if parts.length < 6 then
      throw (.error (.protocol "Received invalid legacy response (expected 6 fields)"))
    else
      let protocol := parseOrZero (← index parts 1)
      let version ← index parts 2
      let motd ← index parts 3
      let online := parseOrZero (← index parts 4)
      let max := parseOrZero (← index parts 5)
      return LegacyStatusResponse.build protocol version motd online max latency
  else
    let legacy_parts := (← index parts 0).splitOn '§'
    if legacy_parts.length < 3 then
      throw (.error (.protocol "Received invalid kick packet reason"))
    else
      let motd ← index legacy_parts 0
      let online := parseOrZero (← index legacy_parts 1)
      let max := parseOrZero (← index legacy_parts 2)
      return LegacyStatusResponse.build 0 "<1.4".toList motd online max latency

example : decodeUtf16be [0x00, 0xA7, 0xD8, 0x3D, 0x00, 0x31] = "§1".toList := by decide

end LegacyClient

end Rust

end McStatus
