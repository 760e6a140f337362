import McStatus.Library.Split
import McStatus.Python.Io.BaseIo
import McStatus.Python.Motd.Motd

/-!
This module contains the response parser of `mcstatus/_protocol/bedrock_client.py` and the response
of `mcstatus/responses/bedrock.py`.
-/

namespace McStatus

namespace Python

def decimalDigit? (c : Char) : Option Nat :=
  (decimalZeros.find? fun n => n ≤ c.toNat ∧ c.toNat < n + 10).map (c.toNat - ·)

def maxStrDigits : Nat := 4300

/--
`int(s)` of a string: space around the number, one sign in front of it and single underscores
between its digits are allowed. Zeros in front count as digits too.
-/
def intBase10 (s : List Char) : Except Exception Int :=
  let (sign, body) := match strip isIntSpace s with
    | '+' :: t => ((1 : Int), t)
    | '-' :: t => (-1, t)
    | t => (1, t)
  let groups := body.splitOn '_'
  match groups.flatten.mapM decimalDigit? with
  | some digits =>
    if groups.any List.isEmpty then
      .error (.valueError (.intLiteral s))
    else if maxStrDigits < digits.length then
      .error (.valueError (.intDigits digits.length))
    else
      .ok (sign * (digits.foldl (fun n d => 10 * n + d) 0 : Nat))
  | none => .error (.valueError (.intLiteral s))

/-- `data[index]`, for an index that is not negative. -/
def getItem {α : Type} (data : List α) (index : Nat) : Except Exception α :=
  match data[index]? with
  | some a => .ok a
  | none => .error .indexError

structure BedrockStatusPlayers where
  online : Int
  max : Int
  deriving DecidableEq, Repr

structure BedrockStatusVersion where
  name : List Char
  protocol : Int
  brand : List Char
  deriving DecidableEq, Repr

structure BedrockStatusResponse where
  players : BedrockStatusPlayers
  version : BedrockStatusVersion
  motd : Motd
  latency : Float
  map_name : Option (List Char)
  gamemode : Option (List Char)

def BedrockStatusResponse.build (decoded_data : List (List Char)) (latency : Float)
    : Except Exception BedrockStatusResponse := do
  let map_name := decoded_data[7]?
  let gamemode := decoded_data[8]?
  let online ← intBase10 (← getItem decoded_data 4)
  let max ← intBase10 (← getItem decoded_data 5)
  let name ← getItem decoded_data 3
  let protocol ← intBase10 (← getItem decoded_data 2)
  let brand ← getItem decoded_data 0
  let motd ← Motd.parse (.str (← getItem decoded_data 1)) true
  return {
    players := { online, max }
    version := { name, protocol, brand }
    motd
    latency
    map_name
    gamemode
  }

namespace BedrockClient

def parseResponse (data : List UInt8) (latency : Float)
    : Except Exception BedrockStatusResponse := do
  let data := data.drop 1
  let name_length ← unpack .ushort ((data.drop 32).take 2)
  let decoded_data ← decodeUtf8 ((data.drop 34).take name_length.toNat)
  BedrockStatusResponse.build (decoded_data.splitOn ';') latency

end BedrockClient

example : intBase10 " -1_٢٣ ".toList = .ok (-123) := by decide

end Python

end McStatus
