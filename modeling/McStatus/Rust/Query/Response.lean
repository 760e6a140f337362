import McStatus.Library.Split
import McStatus.Rust.Motd.Motd
import McStatus.Rust.Query.Impl

/-!
This module contains the query response of `src/response/query.rs`.
-/

namespace McStatus

namespace Rust

def isWhitespace (c : Char) : Bool :=
  let n := c.toNat
  (0x09 ≤ n && n ≤ 0x0D) || n == 0x20 || n == 0x85 || n == 0xA0 || n == 0x1680
    || (0x2000 ≤ n && n ≤ 0x200A) || n == 0x2028 || n == 0x2029 || n == 0x202F || n == 0x205F
    || n == 0x3000

def trim (s : List Char) : List Char :=
  strip isWhitespace s

structure QueryPlayers where
  online : UInt32
  max : UInt32
  list : List (List Char)
  deriving DecidableEq, Repr

structure QuerySoftware where
  version : Option (List Char)
  brand : Option (List Char)
  plugins : List (List Char)
  deriving DecidableEq, Repr

structure QueryResponse where
  raw : RawQueryResponse
  motd : Motd
  map_name : Option (List Char)
  ip : Option (List Char)
  port : Option UInt16
  game_type : Option (List Char)
  game_id : Option (List Char)
  players : QueryPlayers
  software : Option QuerySoftware

def parsePlugins (plugins_str : List Char) : Option (List Char) × List (List Char) :=
  if ':' ∈ plugins_str then
    let brand := trim (plugins_str.takeWhile (· != ':'))
    let brand := if brand.isEmpty then none else some brand
    let rest := (plugins_str.dropWhile (· != ':')).drop 1
    let plugin_list := ((rest.splitOn ';').map trim).filter (!·.isEmpty)
    (brand, plugin_list)
  else
    (some plugins_str, [])

def QueryResponse.build (raw : RawQueryResponse) (players : List (List Char)) : QueryResponse :=
  let motd_raw := raw.hostname.getD []
  let (brand, plugins) := (raw.plugins.map parsePlugins).getD (none, [])
  {
    raw := raw
    motd := Motd.fromString motd_raw false
    map_name := raw.map
    ip := raw.hostip
    port := raw.hostport
    game_type := raw.gametype
    game_id := raw.game_id
    players := {
      online := raw.numplayers.getD 0
      max := raw.maxplayers.getD 0
      list := if players ≠ [] then players else raw.players
    }
    software :=
      if brand.isSome ∨ plugins ≠ [] ∨ raw.software.isSome then
        some { version := raw.software, brand, plugins }
      else
        none
  }

example : parsePlugins "Paper: Essentials; WorldEdit".toList
    = (some "Paper".toList, ["Essentials".toList, "WorldEdit".toList]) := by decide

end Rust

end McStatus
