import McStatus.Library.Utf16
import McStatus.Python.Bedrock.Impl
import McStatus.Python.Java.Status

/-!
This module contains the client of `mcstatus/_protocol/legacy_client.py` for servers before 1.7, and
its response of `mcstatus/responses/legacy.py`.
-/

namespace McStatus

open Reader

namespace Python

open BaseSyncReader BaseSyncWriter

/-- What the client raises: its own `OSError`s, and everything else. -/
inductive LegacyError where
  | raised (e : Exception)
  /-- `Received invalid packet ID` -/
  | invalidPacketId
  /-- `Received invalid kick packet reason` -/
  | invalidKickReason
  deriving DecidableEq, Repr

structure LegacyStatusPlayers where
  online : Int
  max : Int
  deriving DecidableEq, Repr

structure LegacyStatusVersion where
  name : List Char
  protocol : Int
  deriving DecidableEq, Repr

structure LegacyStatusResponse where
  players : LegacyStatusPlayers
  version : LegacyStatusVersion
  motd : Motd
  latency : Rat

def LegacyStatusResponse.build (decoded_data : List (List Char)) (latency : Rat)
    : Except Exception LegacyStatusResponse := do
  let online ← intBase10 (← getItem decoded_data 3)
  let max ← intBase10 (← getItem decoded_data 4)
  let name ← getItem decoded_data 1
  let protocol ← intBase10 (← getItem decoded_data 0)
  let motd ← Motd.parse (.str (← getItem decoded_data 2)) false
  return { players := { online, max }, version := { name, protocol }, motd, latency }

def decodeUtf16be (data : List UInt8) : Except Exception (List Char) :=
  match Utf16.decode? data with
  | some chars => .ok chars
  | none => .error .unicodeDecodeError

namespace LegacyClient

def fields (decoded_data : List (List Char)) : Except LegacyError (List (List Char)) := do
  let first ← (getItem decoded_data 0).mapError .raised
  if first ≠ "§1".toList then
    -- servers before 1.4 do not send the mark, the protocol and the version
    let decoded_data := "§1".toList :: "-1".toList :: "<1.4".toList :: first.splitOn '§'
    if decoded_data.length ≠ 6 then
      throw .invalidKickReason
    else
      return decoded_data.drop 1
  else
    return decoded_data.drop 1

def parseResponse (data : List UInt8) (latency : Rat)
    : Except LegacyError LegacyStatusResponse := do
  let text ← (decodeUtf16be data).mapError .raised
  let decoded_data ← fields (text.splitOn '\x00')
  (LegacyStatusResponse.build decoded_data latency).mapError .raised

section Connection

variable {σ : Type} [BaseSyncReader σ] [BaseSyncWriter σ] [Clock σ]

def readKick : EStateM LegacyError σ (List UInt8) := do
  let id ← EStateM.adaptExcept .raised (read 1)
  if id ≠ [0xFF] then
    throw .invalidPacketId
  else
    EStateM.adaptExcept .raised do
      let length ← readValue .ushort
      read (length * 2)

def readStatus : EStateM LegacyError σ LegacyStatusResponse := do
  let start ← EStateM.adaptExcept .raised Clock.perfCounter
  EStateM.adaptExcept .raised (write [0xFE, 0x01, 0xFA])
  let data ← readKick
  let stop ← EStateM.adaptExcept .raised Clock.perfCounter
  ofResult (parseResponse data ((stop - start) * 1000))

end Connection

end LegacyClient

end Python

end McStatus
