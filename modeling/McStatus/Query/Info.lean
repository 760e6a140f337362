import McStatus.Library.Numeral
import McStatus.Query.Plugins
import McStatus.Query.Server

/-!
This module contains what a server tells about itself over the query protocol, and the server that
tells it.
-/

namespace McStatus

namespace Query

structure Field where
  chars : List Char
  sendable : Sendable chars

structure Told where
  hostname : Field
  gametype : Field
  game_id : Field
  version : Field
  brand : Word ':'
  plugins : List (Word ';')
  map : Field
  numplayers : UInt32
  maxplayers : UInt32
  hostport : UInt16
  hostip : Field
  players : List Name
  order : Order
  hostname_not_last : order.keys.getLast? ≠ some .hostname

namespace Told

def value (told : Told) (k : Key) : List Char :=
  match k with
  | .hostname => told.hostname.chars
  | .gametype => told.gametype.chars
  | .game_id => told.game_id.chars
  | .version => told.version.chars
  | .plugins => pluginsLine told.brand told.plugins
  | .map => told.map.chars
  | .numplayers => Nat.toDigits 10 told.numplayers.toNat
  | .maxplayers => Nat.toDigits 10 told.maxplayers.toNat
  | .hostport => Nat.toDigits 10 told.hostport.toNat
  | .hostip => told.hostip.chars

theorem sendable_value (told : Told) (k : Key) : Sendable (told.value k) := by
  cases k with
  | hostname => exact told.hostname.sendable
  | gametype => exact told.gametype.sendable
  | game_id => exact told.game_id.sendable
  | version => exact told.version.sendable
  | plugins => exact sendable_pluginsLine _ _
  | map => exact told.map.sendable
  | hostip => exact told.hostip.sendable
  | _ => exact sendable_of_isDigit fun _ => Numeral.isDigit_toDigits

def values (told : Told) : Values := fun k =>
  .ofChars (told.value k) (told.sendable_value k)

theorem decode_values (told : Told) (k : Key)
    : Latin1.decode (told.values k).bytes = told.value k :=
  Text.decode_ofChars (told.sendable_value k)

theorem ascii_values (told : Told) (k : Key) : (told.values k).Ascii :=
  Text.ascii_ofChars (told.sendable_value k)

def stat (told : Told) : List UInt8 :=
  Latin1.encode "splitnum".toList ++ ([0x00, 0x80, 0x00]
    ++ encodeBody told.values told.order (.recorded told.players))

end Told

/-- Information that fits into a datagram, and the tokens of the server that gives it. -/
structure Info extends Told where
  token : Nat → Int
  token_valid : ∀ n, TwosComplement.InRange 32 (token n)
  stat_fits : toTold.stat.length + 5 ≤ 65507

def Info.gs4 (info : Info) : Gs4 where
  token := info.token
  stat := info.stat
  token_valid := info.token_valid
  stat_fits := info.stat_fits

end Query

end McStatus
