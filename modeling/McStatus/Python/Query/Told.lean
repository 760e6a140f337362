import McStatus.Python.Legacy.RoundTrip
import McStatus.Python.Query.Exchange
import McStatus.Query.Info

/-!
This module shows that the `QueryClient` gets all that a server tells about itself.
-/

namespace McStatus

open Fallible
open Query

namespace Python

namespace QueryClient

theorem lookup_foldl_store (values : Values) (k : Key) (keys : List Key) (data : RawQueryResponse)
    : (keys.foldl (store values) data).lookup k.name
        = if k ∈ keys then some (Latin1.decode (values k).bytes) else data.lookup k.name := by
  induction keys generalizing data with
  | nil => rfl
  | cons l keys ih =>
    rw [List.foldl_cons, ih, store]
    by_cases hmem : k ∈ keys
    . rw [if_pos hmem, if_pos (List.mem_cons_of_mem l hmem)]
    . rw [if_neg hmem]
      by_cases hkl : k = l
      . rw [if_pos (hkl ▸ List.mem_cons_self), hkl, Finmap.lookup_insert]
      . have hname : k.name ≠ l.name := fun heq => hkl (Key.name_inj heq)
        have hnot : k ∉ l :: keys := by
          rw [List.mem_cons, not_or]
          exact ⟨hkl, hmem⟩
        rw [if_neg hnot, Finmap.lookup_insert_of_ne _ hname]

theorem getItem_rawOf (told : Told) (k : Key) {key : String} (h : key.toList = k.name)
    : (rawOf told.values).getItem key = .ok (told.value k) := by
  rw [RawQueryResponse.getItem, h, rawOf, lookup_foldl_store, if_pos k.mem_all, told.decode_values]

theorem parseResponse_stat (told : Told) {packet : Buffer} (h : packet.unreadView = told.stat)
    : ∃ rest, parseResponse packet = .ok
        (rawOf told.values, told.players.map fun name => Latin1.decode name.bytes) rest := by
  have hsplit : packet.unreadView = (Latin1.encode "splitnum".toList ++ [0x00, 0x80, 0x00])
      ++ (pairs told.values told.order.keys
        ++ 0 :: (PlayerSection.recorded told.players).encode) := by
    rw [h, Told.stat, List.append_assoc]
    rfl
  rcases consumes_read_bytes _ packet _ hsplit with ⟨b, hpadding, hview⟩
  have hpadding : Buffer.read ("splitnum".length + 3) packet = .ok _ b := hpadding
  rcases readData_of_pairs ∅ told.order.nodup told.hostname_not_last hview with ⟨c, hdata, hc⟩
  rcases @parseFrom_of_section _ (told.order.keys.foldl (store told.values) ∅) _ hc with
    ⟨rest, hrun⟩
  refine ⟨rest, ?_⟩
  have hparse : parseResponse packet = parseFrom ∅ b := by
    rw [parseResponse, Reader.bind_of_ok hpadding]
    rfl
  have hfrom : parseFrom ∅ b = parseFrom (told.order.keys.foldl (store told.values) ∅) c := by
    simp only [parseFrom, bind, EStateM.bind, hdata]
  rw [hparse, hfrom, hrun, foldl_store_order]

def responseOf (told : Told) : QueryResponse where
  raw := rawOf told.values
  motd := {
    parsed := Motd.parseAsStr told.hostname.chars false
    raw := .str told.hostname.chars
    bedrock := false
  }
  map_name := told.map.chars
  players := {
    online := told.numplayers.toNat
    max := told.maxplayers.toNat
    list := told.players.map fun name => Latin1.decode name.bytes
  }
  software := {
    version := told.version.chars
    brand := told.brand.chars
    plugins := told.plugins.map Word.chars
  }
  ip := told.hostip.chars
  port := told.hostport.toNat
  game_type := told.gametype.chars
  game_id := told.game_id.chars

theorem intBase10_toDigits {n : Nat} (h : n < 10 ^ 10)
    : intBase10 (Nat.toDigits 10 n) = .ok (n : Int) := by
  have hlength := (Nat.length_toDigits_le_iff (b := 10) (k := 10) (by decide) (by decide)).mpr h
  have hfew : ¬ maxStrDigits < (Nat.toDigits 10 n).length := by
    rw [maxStrDigits]
    omega
  rw [intBase10_of_nat? (Numeral.nat?_toDigits n), if_neg hfew]

theorem build_rawOf (told : Told)
    : QueryResponse.build (rawOf told.values)
        (told.players.map fun name => Latin1.decode name.bytes) = .ok (responseOf told) := by
  have hnumplayers : intBase10 (told.value .numplayers) = .ok (told.numplayers.toNat : Int) :=
    intBase10_toDigits (Nat.lt_of_lt_of_le told.numplayers.toNat_lt (by decide))
  have hmaxplayers : intBase10 (told.value .maxplayers) = .ok (told.maxplayers.toNat : Int) :=
    intBase10_toDigits (Nat.lt_of_lt_of_le told.maxplayers.toNat_lt (by decide))
  have hhostport : intBase10 (told.value .hostport) = .ok (told.hostport.toNat : Int) :=
    intBase10_toDigits (Nat.lt_of_lt_of_le told.hostport.toNat_lt (by decide))
  have hplayers : QueryPlayers.build (rawOf told.values)
      (told.players.map fun name => Latin1.decode name.bytes) = .ok (responseOf told).players := by
    rw [QueryPlayers.build, getItem_rawOf told .numplayers rfl, getItem_rawOf told .maxplayers rfl,
      ok_bind, hnumplayers, ok_bind, ok_bind, hmaxplayers]
    rfl
  rw [QueryResponse.build, getItem_rawOf told .hostname rfl, getItem_rawOf told .map rfl, hplayers,
    getItem_rawOf told .version rfl, getItem_rawOf told .plugins rfl,
    getItem_rawOf told .hostip rfl, getItem_rawOf told .hostport rfl,
    getItem_rawOf told .gametype rfl, getItem_rawOf told .game_id rfl]
  simp only [ok_bind, hhostport]
  have hsoftware : QuerySoftware.build (told.value .version) (told.value .plugins)
      = (responseOf told).software :=
    QuerySoftware.build_pluginsLine told.version.chars told.brand told.plugins
  rw [hsoftware]
  rfl

theorem parseStat_info (info : Info) : parseStat info.gs4 = .ok (responseOf info.toTold) := by
  have hheader : ((0 : UInt8) :: sessionBytes 0).length = 5 := rfl
  rcases packetOf_append hheader info.stat with ⟨packet, hpacket, hview⟩
  rcases parseResponse_stat info.toTold hview with ⟨rest, hrun⟩
  rw [List.cons_append] at hpacket
  have hstat : info.gs4.stat = info.stat := rfl
  rw [parseStat, parseQuery, Gs4.statReply, hstat, hpacket, ok_bind, onPacket, hrun]
  exact build_rawOf info.toTold

end QueryClient

end Python

end McStatus
