import McStatus.Query.Info
import McStatus.Rust.Decimal
import McStatus.Rust.Query.Exchange
import McStatus.Rust.Query.Players
import McStatus.Rust.Query.Software

/-!
This module shows what the `QueryClient` makes of what a server tells about itself: all comes out
right but the version and the players, which it does not find.
-/

namespace McStatus

open Fallible
open Query

namespace Rust

namespace QueryClient

def statOf (told : Told) : Stat where
  hostname := told.values .hostname
  gametype := told.values .gametype
  game_id := told.values .game_id
  version := told.values .version
  plugins := told.values .plugins
  map := told.values .map
  numplayers := .ofNat told.numplayers.toNat told.numplayers.toNat_lt
  maxplayers := .ofNat told.maxplayers.toNat told.maxplayers.toNat_lt
  hostport := .ofNat told.hostport.toNat told.hostport.toNat_lt
  hostip := told.values .hostip

theorem values_statOf (told : Told) (k : Key) : (statOf told).values k = told.values k := by
  cases k with
  | _ => rfl

theorem readPlayers_of_recorded {body : List UInt8} {pos : Nat} {names : List Name}
    (h : body.drop pos = (PlayerSection.recorded names).encode)
    : readPlayers body pos = .ok [] := by
  have hsection : body.drop pos = 0x01 :: (marker.encode ++ 0 :: (encodeNames names ++ [0])) := h
  have hlt : pos < body.length := by
    have hlen := congrArg List.length hsection
    rw [List.length_drop, List.length_cons] at hlen
    omega
  have hnext : body.drop (pos + 1) = marker.encode ++ 0 :: (encodeNames names ++ [0]) := by
    rw [← List.drop_drop, hsection]
    rfl
  have hnames : body.drop (pos + 1 + (utf8Len "player_".toList + 1))
      = 0 :: (encodeNames names ++ [0]) := by
    rw [← List.drop_drop, hnext]
    exact List.drop_left' rfl
  have hmarker : Latin1.decode (nulText (body.drop (pos + 1))) = "player_".toList := by
    rw [hnext, Text.nulText_encode]
    rfl
  apply Loop.run_break
  rw [playersStep, if_neg (by omega), index_eq hsection, ok_bind, if_neg (by decide), if_pos rfl]
  dsimp only
  rw [sliceFrom_of_le (by omega), ok_bind, readNullTerminatedIso_eq, ok_bind, hmarker, if_pos rfl,
    readPlayerNames_of_nul hnames]
  rfl

def rawOf (told : Told) : RawQueryResponse where
  hostname := if told.hostname.chars = [] then none else some told.hostname.chars
  gametype := some told.gametype.chars
  game_id := some told.game_id.chars
  version := some told.version.chars
  plugins := some (pluginsLine told.brand told.plugins)
  map := some told.map.chars
  numplayers := some told.numplayers
  maxplayers := some told.maxplayers
  hostport := some told.hostport
  hostip := some told.hostip.chars

theorem raw_statOf (told : Told) : (statOf told).raw = rawOf told := by
  have hdecode := told.decode_values
  have hempty : (told.values .hostname).bytes = [] ↔ told.hostname.chars = [] := by
    rw [← Latin1.decode_eq_nil, hdecode]
    rfl
  have hnumplayers : UInt32.ofNat (statOf told).numplayers.value = told.numplayers :=
    UInt32.ofNat_toNat
  have hmaxplayers : UInt32.ofNat (statOf told).maxplayers.value = told.maxplayers :=
    UInt32.ofNat_toNat
  have hhostport : UInt16.ofNat (statOf told).hostport.value = told.hostport :=
    UInt16.ofNat_toNat
  rw [Stat.raw, rawOf, hnumplayers, hmaxplayers, hhostport]
  simp only [statOf, hempty, hdecode, Told.value]

theorem keyValueSection_stat (told : Told) {header : List UInt8} (h : header.length = 5)
    : keyValueSection (header ++ told.stat)
        = encodeBody told.values told.order (.recorded told.players) := by
  have hdrop : (header ++ told.stat).drop 9
      = (Latin1.encode "splitnum".toList).drop 4 ++ 0 :: (0x80 :: 0x00
        :: encodeBody told.values told.order (.recorded told.players)) := by
    rw [List.drop_append, List.drop_of_length_le (by omega), h]
    rfl
  rw [keyValueSection, hdrop, nulText_append (by decide)]
  rfl

theorem parseResponse_stat (told : Told) {header : List UInt8} (h : header.length = 5)
    : parseResponse (header ++ told.stat) = .ok (rawOf told, []) := by
  have hlength : 22 ≤ (header ++ told.stat).length := by
    have hbody : 12 ≤ (encodeBody told.values told.order (.recorded told.players)).length := by
      simp [encodeBody, PlayerSection.encode, PlayerSection.recorded, marker, Latin1.encode]
      omega
    simp only [Told.stat, List.length_append, h, Latin1.encode, List.length_map]
    simp
    omega
  rcases parseResponse_of_le hlength with ⟨pos, hparse, hdrop⟩
  rw [keyValueSection_stat told h] at hdrop
  have hvalues : (statOf told).values = told.values := funext (values_statOf told)
  have hascii : (statOf told).hostname.Ascii := told.ascii_values .hostname
  rcases parseFrom_encodeBody (fun k _ => told.ascii_values k) told.hostname_not_last hdrop with
    ⟨pos', hplayers, hrun⟩
  rw [hparse, hrun, readPlayers_of_recorded hplayers, ok_bind, ← hvalues,
    (statOf told).foldl_store_order told.order hascii, raw_statOf]

def responseOf (told : Told) : QueryResponse where
  raw := rawOf told
  motd := Motd.fromString told.hostname.chars false
  map_name := some told.map.chars
  ip := some told.hostip.chars
  port := some told.hostport
  game_type := some told.gametype.chars
  game_id := some told.game_id.chars
  players := { online := told.numplayers, max := told.maxplayers, list := [] }
  software := some {
    version := none
    brand := some told.brand.chars
    plugins := told.plugins.map Word.chars
  }

theorem parseStat_info (info : Info)
    : parseStat info.gs4 = .ok (rawOf info.toTold, [])
        ∧ QueryResponse.build (rawOf info.toTold) [] = responseOf info.toTold := by
  constructor
  . exact @parseResponse_stat info.toTold (0 :: sessionBytes 0) rfl
  . have hhostname : (rawOf info.toTold).hostname.getD [] = info.hostname.chars := by
      rw [rawOf]
      dsimp only
      split
      . next hempty => exact hempty.symm
      . rfl
    have hplugins : (rawOf info.toTold).plugins.map parsePlugins
        = some (some info.brand.chars, info.plugins.map Word.chars) :=
      congrArg some (parsePlugins_pluginsLine info.brand info.plugins)
    rw [QueryResponse.build, hhostname, hplugins]
    rfl

end QueryClient

end Rust

end McStatus
