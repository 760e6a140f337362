import McStatus.Rust.Query.Lemmas.KeyValue
import McStatus.Rust.Query.Lemmas.Names

/-!
This module compares the players `parse_response` returns with the player section that was sent.
The NUL behind the marker is read as an empty name, which ends the list.
-/

namespace McStatus

open Fallible
open Query

namespace Rust

namespace QueryClient

theorem keyValueStep_ne_error (body : List UInt8) (state : RawQueryResponse × Nat)
    (e : McStatusError)
    : keyValueStep body state ≠ .error (.error e) := by
  rcases state with ⟨raw, pos⟩
  have hspec := keyValueStep_spec body raw pos
  intro h
  rw [h] at hspec
  generalize body.drop pos = s at hspec
  cases hspec

theorem parseFrom_ok_iff (body : List UInt8) (raw : RawQueryResponse) (pos : Nat)
    : (∃ out, parseFrom body raw pos = .ok out) ↔ ¬ CutShort (body.drop pos) := by
  rw [← parseFrom_panic_iff body raw pos]
  constructor
  . rintro ⟨out, hout⟩ hpanic
    simp [hout] at hpanic
  . intro hnot
    have hkeys : ∀ e, readKeyValues body raw pos = .error e → e = .panic := by
      intro e
      refine Loop.run_error (fun e => e = Failure.panic) ?_
      rintro s (e | -) hstep
      . exact absurd hstep (keyValueStep_ne_error body s e)
      . rfl
    cases hrun : readKeyValues body raw pos with
    | error e =>
      rw [hkeys e hrun] at hrun
      simp [parseFrom, hrun] at hnot
    | ok state =>
      have hparse : parseFrom body raw pos
          = readPlayers body state.2 >>= fun players => .ok (state.1, players) := by
        simp [parseFrom, hrun]
      by_cases hend : EndsInMarker (body.drop state.2)
      . rw [← readPlayers_panic_iff] at hend
        simp [hparse, hend] at hnot
      . rcases readPlayers_ok hend with ⟨players, hplayers⟩
        exact ⟨_, by rw [hparse, hplayers]; rfl⟩

theorem readPlayerNames_of_nul {body r : List UInt8} {pos : Nat} (h : body.drop pos = 0 :: r)
    : readPlayerNames body pos = .ok [] := by
  have hlt : pos < body.length := by
    have hlen := congrArg List.length h
    simp only [List.length_drop, List.length_cons] at hlen
    omega
  apply Loop.run_break
  rw [playerStep_of_lt hlt, h]
  rfl

def NoMarker (body : List UInt8) (start stop : Nat) : Prop :=
  ∀ q, start ≤ q → q < stop → body[q]? ≠ some 0x01

theorem noMarker_of_drop {body rest : List UInt8} {pos : Nat} (mid : List UInt8)
    (h : body.drop pos = mid ++ rest) (hmid : 0x01 ∉ mid)
    : NoMarker body pos (pos + mid.length) := by
  intro q hle hlt hbyte
  have hq : body[q]? = (body.drop pos)[q - pos]? := by
    rw [List.getElem?_drop]
    congr 1
    omega
  rw [hq, h, List.getElem?_append_left (by omega)] at hbyte
  exact hmid (List.mem_of_getElem? hbyte)

theorem encode_recorded (names : List Name)
    : (PlayerSection.recorded names).encode
        = (0x01 :: marker.encode) ++ 0 :: (encodeNames names ++ [0]) := by
  simp [PlayerSection.encode, PlayerSection.recorded]

/--
From a marker in the player section no names are read, or fewer bytes than were sent: behind the
marker that opens the section there is a NUL more, and any other marker lies in a name.
-/
theorem texts_of_short {front pre r : List UInt8} {names : List Name} {texts : List (List UInt8)}
    (hsection : front ++ (PlayerSection.recorded names).encode = pre ++ 0x01 :: r)
    (hmarker : nulText r = Latin1.encode "player_".toList)
    (hshort : (r.drop 8).length < (PlayerSection.recorded names).encode.length)
    (h : Spells (r.drop 8) texts)
    : texts = [] ∨ wireLength (texts.map Latin1.decode) < (encodeNames names).length := by
  have hopens : (0x01 :: marker.encode).length = 9 := by decide
  have hlength : (PlayerSection.recorded names).encode.length
      = 9 + 1 + (encodeNames names).length + 1 := by
    rw [encode_recorded, List.length_append, hopens, List.length_cons, List.length_append,
      List.length_singleton]
    omega
  have hlen := congrArg List.length hsection
  rw [List.length_append, List.length_append, List.length_cons] at hlen
  have hseven : 7 ≤ r.length := by
    have hle := length_nulText_le r
    rw [hmarker] at hle
    exact hle
  have hopen : ∀ i < 8, r[i]? ≠ some 0x01 := by
    intro i hi hbyte
    rcases nulText_cases r with heq | ⟨r', heq⟩
    . rw [hmarker] at heq
      rw [heq] at hbyte
      exact absurd (List.mem_of_getElem? hbyte) (by decide)
    . have hfit : (Latin1.encode "player_".toList ++ [0]).length = 8 := by decide
      rw [hmarker] at heq
      rw [heq, ← List.singleton_append, ← List.append_assoc,
        List.getElem?_append_left (by omega)] at hbyte
      exact absurd (List.mem_of_getElem? hbyte) (by decide)
  rw [List.length_drop] at hshort
  -- the marker does not stand in front of the section
  have hge : front.length ≤ pre.length := by
    apply Nat.le_of_not_lt
    intro hlt
    have hbyte : (pre ++ 0x01 :: r)[front.length]? = some 0x01 := by
      rw [← hsection, List.getElem?_append_right (Nat.le_refl _), Nat.sub_self, encode_recorded]
      rfl
    have hindex : front.length - pre.length = front.length - pre.length - 1 + 1 := by omega
    rw [List.getElem?_append_right (Nat.le_of_lt hlt), hindex, List.getElem?_cons_succ] at hbyte
    exact hopen _ (by omega) hbyte
  cases Nat.eq_or_lt_of_le hge with
  | inl heq =>
    left
    have hr := (List.append_inj hsection heq).2
    rw [encode_recorded, List.cons_append, List.cons.injEq] at hr
    have hdrop : r.drop 8 = 0 :: (encodeNames names ++ [0]) := by
      rw [← hr.2]
      exact List.drop_left' (by decide)
    rw [hdrop] at h
    exact h.unique Spells.stop
  | inr hlt =>
    right
    have hinner : front.length + 9 ≤ pre.length := by
      apply Nat.le_of_not_lt
      intro hlt'
      have hbyte : (front ++ (PlayerSection.recorded names).encode)[pre.length]? = some 0x01 := by
        rw [hsection, List.getElem?_append_right (Nat.le_refl _), Nat.sub_self]
        rfl
      have hindex : pre.length - front.length = pre.length - front.length - 1 + 1 := by omega
      rw [List.getElem?_append_right hge, encode_recorded, hindex, List.cons_append,
        List.getElem?_cons_succ, List.getElem?_append_left (by simp [marker, Latin1.encode]; omega)]
        at hbyte
      exact absurd (List.mem_of_getElem? hbyte) (by decide)
    have hbound := h.length_le
    rw [List.length_drop] at hbound
    have hwire : wireLength (texts.map Latin1.decode)
        = (texts.map fun text => text.length + 1).sum := by
      simp [wireLength, Function.comp_def]
    omega

theorem parseFrom_recorded {body : List UInt8} {raw raw' : RawQueryResponse} {pos start : Nat}
    {names : List Name} {players : List (List Char)}
    (hbody : body.drop start = (PlayerSection.recorded names).encode)
    (hno : NoMarker body pos start) (h : parseFrom body raw pos = .ok (raw', players))
    : players = [] ∨ wireLength players < (encodeNames names).length := by
  rcases parseFrom_lists h with ⟨t, texts, hat, hspells, rfl⟩ | ⟨-, rfl⟩
  . rcases hat.exists_eq with ⟨pre, r, hsplit, hmarker, rfl⟩
    have hfront : body.take start ++ (PlayerSection.recorded names).encode
        = (body.take pos ++ pre) ++ 0x01 :: r := by
      rw [← hbody, List.take_append_drop, List.append_assoc, ← hsplit, List.take_append_drop]
    have hlength := congrArg List.length hsplit
    have hsection := congrArg List.length hbody
    rw [List.length_drop, List.length_append, List.length_cons] at hlength
    rw [List.length_drop] at hsection
    have hbyte : body[pos + pre.length]? = some 0x01 := by
      rw [← List.getElem?_drop, hsplit, List.getElem?_append_right (Nat.le_refl _), Nat.sub_self]
      rfl
    have hge : start ≤ pos + pre.length := by
      apply Nat.le_of_not_lt
      intro hlt
      exact hno _ (Nat.le_add_right pos _) hlt hbyte
    have hpos : 0 < (PlayerSection.recorded names).encode.length := by
      rw [encode_recorded, List.length_append]
      exact Nat.add_pos_left (by decide) _
    rw [List.map_eq_nil_iff]
    apply texts_of_short hfront hmarker _ hspells
    rw [List.length_drop]
    omega
  . exact Or.inl rfl

theorem not_mem_pairs {values : Values} {keys : List Key} (h : ∀ k, 0x01 ∉ (values k).bytes)
    : 0x01 ∉ pairs values keys := by
  have hkey : ∀ k : Key, 0x01 ∉ k.text.bytes := by
    intro k
    cases k <;> decide
  induction keys with
  | nil => simp
  | cons k keys ih => simp [pair, Text.encode, h k, hkey k, ih]

theorem MotdEnds.length_ge {value : Text} {motd tail r : List UInt8} (h : MotdEnds motd tail)
    (heq : value.bytes ++ 0 :: 0 :: r = motd ++ tail) : value.bytes.length ≤ motd.length := by
  have hnul : ∀ {t : List UInt8}, tail = 0 :: t → value.bytes.length ≤ motd.length := by
    rintro t rfl
    apply Nat.le_of_not_lt
    intro hlt
    have hbyte : (motd ++ 0 :: t)[motd.length]? = some 0 := by simp
    rw [← heq, List.getElem?_append_left hlt] at hbyte
    exact value.nulFree (List.mem_of_getElem? hbyte)
  cases h with
  | key hmark _ =>
    rcases hmark.exists_cons with ⟨t, ht⟩
    exact hnul ht
  | doubleNull => exact hnul rfl
  | last =>
    have hlen := congrArg List.length heq
    simp only [List.length_append, List.length_cons, List.length_nil] at hlen
    omega
  | nil => simp at heq

theorem parseFrom_toHostname {values : Values} {order : Order} {players : PlayerSection}
    {body : List UInt8} {pos : Nat} (hascii : ∀ k, k ≠ .hostname → (values k).Ascii)
    (hlast : order.keys.getLast? = some .hostname)
    (h : body.drop pos = encodeBody values order players)
    : ∃ raw pos', parseFrom body {} pos = parseFrom body raw pos'
        ∧ body.drop pos'
            =
          Key.hostname.text.encode ++ ((values .hostname).encode ++ 0 :: players.encode) := by
  rcases Order.eq_append_of_getLast hlast with ⟨keys, hkeys, hnodup, hinit⟩
  rw [encodeBody, hkeys, pairs_append, List.append_assoc] at h
  rcases parseFrom_pairs {} (fun k _ => hascii k) hnodup hinit h
    with ⟨pos', hparse, hdrop⟩
  refine ⟨_, pos', hparse, ?_⟩
  simpa only [pairs_cons, pairs_nil, pair, List.append_nil, List.append_assoc] using hdrop

theorem parseFrom_toSection {values : Values} {order : Order} {players : PlayerSection}
    {body : List UInt8} {pos : Nat} (hascii : ∀ k, k ≠ .hostname → (values k).Ascii)
    (h : body.drop pos = encodeBody values order players)
    : ∃ raw pos' start, parseFrom body {} pos = parseFrom body raw pos'
        ∧ body.drop start = players.encode ∧ NoMarker body pos' start := by
  by_cases hlast : order.keys.getLast? = some .hostname
  . rcases parseFrom_toHostname hascii hlast h with ⟨raw, pos', hparse, hdrop⟩
    have hle := lt_of_drop_encode hdrop
    have hvalue := drop_encode hdrop
    rcases readHostname_spec raw hle
      with ⟨motd, tail, hsplit, hends, hread⟩
    have hstep := keyValueStep_of_key raw hdrop
    rw [if_pos rfl, hread, ok_bind] at hstep
    have hbytes : (values .hostname).encode ++ 0 :: players.encode
        = (values .hostname).bytes ++ 0 :: 0 :: players.encode := by
      simp [Text.encode]
    rw [hbytes] at hvalue
    have hge := hends.length_ge (hvalue.symm.trans hsplit)
    have hskip := le_skipByte body 0x00 (pos' + Key.hostname.text.encode.length + motd.length)
    have hnuls : body.drop (pos' + Key.hostname.text.encode.length
        + (values .hostname).bytes.length) = [0, 0] ++ players.encode := by
      rw [← List.drop_drop, hvalue, List.drop_left]
      rfl
    refine ⟨_, _, pos' + Key.hostname.text.encode.length + (values .hostname).bytes.length + 2,
      hparse.trans (parseFrom_continue hstep), ?_, ?_⟩
    . rw [← List.drop_drop, hnuls]
      rfl
    . intro q hle' hlt
      exact noMarker_of_drop _ hnuls (by decide) q (by omega) hlt
  . rcases parseFrom_pairs {} (fun k _ => hascii k) order.nodup hlast h
      with ⟨pos', hparse, hdrop⟩
    refine ⟨_, pos', pos' + 1, hparse, ?_, ?_⟩
    . rw [← List.drop_drop, hdrop]
      rfl
    . exact noMarker_of_drop [0] hdrop (by decide)

/-- The cursor comes to a marker in front of the player section, and reads names from `t` on. -/
def MarkedInPairs (values : Values) (order : Order) (names : List Name) (t : List UInt8) : Prop :=
  NamesAt (encodeBody values order (.recorded names)) t
    ∧ (PlayerSection.recorded names).encode.length ≤ t.length

theorem encodeBody_recorded (values : Values) (order : Order) (names : List Name)
    : encodeBody values order (.recorded names)
        = (pairs values order.keys ++ [0]) ++ (PlayerSection.recorded names).encode := by
  rw [encodeBody, List.append_assoc]
  rfl

theorem decode_texts_inj {names : List Name} {texts : List (List UInt8)}
    : (names.map fun name => Latin1.decode name.bytes) = texts.map Latin1.decode
        ↔ texts = names.map (·.bytes) := by
  have hmap : (names.map fun name => Latin1.decode name.bytes)
      = (names.map (·.bytes)).map Latin1.decode := by
    rw [List.map_map]
    rfl
  rw [hmap]
  constructor
  . intro h
    exact (List.map_injective_iff.mpr (fun _ _ => Latin1.decode_inj) h).symm
  . rintro rfl
    rfl

/--
From the wire form the tests of the Python client record, the players come out right when there are
none, unless a marker is found in the pairs. Then it takes names that are spelled there.
-/
theorem parseResponse_recorded_iff (header : Vector UInt8 9) (order : Order) (values : Values)
    (names : List Name)
    : (∃ raw, parseResponse (encodePacket header (encodeBody values order (.recorded names)))
          = .ok (raw, names.map fun name => Latin1.decode name.bytes))
        ↔
      ¬ CutShort (encodeBody values order (.recorded names))
        ∧ ((names = [] ∧ ¬ ∃ t, MarkedInPairs values order names t)
          ∨ ∃ t, MarkedInPairs values order names t ∧ Spells t (names.map (·.bytes))) := by
  have hbody : 2 ≤ (encodeBody values order (.recorded names)).length := by
    simp [encodeBody, PlayerSection.encode]
    omega
  rcases parseResponse_encodePacket header hbody with ⟨packet, pos, hparse, hdrop⟩
  have hshort : ∀ {t texts}, NamesAt (encodeBody values order (.recorded names)) t →
      ¬ MarkedInPairs values order names t → Spells t texts →
      texts = [] ∨ wireLength (texts.map Latin1.decode) < (encodeNames names).length := by
    intro t texts hat hnot hspells
    rcases hat.exists_eq with ⟨pre, r, hsplit, hmarker, rfl⟩
    rw [encodeBody_recorded] at hsplit
    exact texts_of_short hsplit hmarker (Nat.lt_of_not_le fun hle => hnot ⟨hat, hle⟩) hspells
  rw [hparse, ← hdrop, ← parseFrom_ok_iff _ {}]
  constructor
  . rintro ⟨raw, hok⟩
    refine ⟨⟨_, hok⟩, ?_⟩
    have hlists := parseFrom_lists hok
    rw [hdrop] at hlists
    rcases hlists with ⟨t, texts, hat, hspells, heq⟩ | ⟨hnone, heq⟩
    . by_cases hmarked : MarkedInPairs values order names t
      . exact Or.inr ⟨t, hmarked, decode_texts_inj.mp heq ▸ hspells⟩
      . left
        have hnames : names = [] := by
          rcases hshort hat hmarked hspells with rfl | hlt
          . simpa using heq
          . rw [← heq, wireLength_decode] at hlt
            omega
        refine ⟨hnames, ?_⟩
        rintro ⟨t', hmarked'⟩
        exact hmarked (hat.unique hmarked'.1 ▸ hmarked')
    . left
      refine ⟨by simpa using heq, ?_⟩
      rintro ⟨t, hmarked⟩
      exact hnone ⟨t, hmarked.1⟩
  . rintro ⟨⟨⟨raw, players⟩, hok⟩, hcases⟩
    refine ⟨raw, ?_⟩
    rw [hok]
    congr 2
    have hlists := parseFrom_lists hok
    rw [hdrop] at hlists
    rcases hcases with ⟨rfl, hnone⟩ | ⟨t, hmarked, hspells⟩
    . rcases hlists with ⟨t, texts, hat, hspells, rfl⟩ | ⟨-, rfl⟩
      . rcases hshort hat (fun hmarked => hnone ⟨t, hmarked⟩) hspells with rfl | hlt
        . rfl
        . simp at hlt
      . rfl
    . rcases hlists with ⟨t', texts, hat, hspells', rfl⟩ | ⟨hnone, -⟩
      . rw [hat.unique hmarked.1] at hspells'
        exact (decode_texts_inj.mpr (hspells'.unique hspells)).symm
      . exact absurd ⟨t, hmarked.1⟩ hnone

/--
The six bytes move the cursor into another value, and there is a marker there. The key behind it and
its value are taken for names.
-/
example : (parseResponse (encodePacket (Vector.replicate 9 0)
    (encodeBody
      (fun k => match k with
        | .map => { bytes := List.replicate 6 0xE9, nulFree := by decide }
        | .hostip => { bytes := 0x01 :: Latin1.encode "player_".toList, nulFree := by decide }
        | .version => { bytes := Latin1.encode "1.8".toList, nulFree := by decide }
        | _ => Text.empty)
      {
        keys := [.hostname, .gametype, .game_id, .plugins, .numplayers, .maxplayers, .hostport,
          .map, .hostip, .version]
        perm := by decide
      }
      (.recorded [])))).map (·.2) = .ok ["version".toList, "1.8".toList] := by
  decide +kernel

theorem parseResponse_recorded_inStep {header : Vector UInt8 9} {order : Order} {values : Values}
    {names : List Name}
    (h : (∀ k, k ≠ .hostname → (values k).Ascii) ∨ ∀ k, 0x01 ∉ (values k).bytes)
    : (∃ raw, parseResponse (encodePacket header (encodeBody values order (.recorded names)))
          = .ok (raw, names.map fun name => Latin1.decode name.bytes))
        ↔
      names = [] ∧ ¬ CutShort (encodeBody values order (.recorded names)) := by
  have hbody : 2 ≤ (encodeBody values order (.recorded names)).length := by
    simp [encodeBody, PlayerSection.encode]
    omega
  rcases parseResponse_encodePacket header hbody with ⟨packet, pos, hparse, hdrop⟩
  have hsection : ∃ raw pos' start, parseFrom packet {} pos = parseFrom packet raw pos'
      ∧ packet.drop start = (PlayerSection.recorded names).encode ∧ NoMarker packet pos' start := by
    cases h with
    | inl hascii => exact parseFrom_toSection hascii hdrop
    | inr hno =>
      have hsplit := hdrop.trans (encodeBody_recorded values order names)
      refine ⟨{}, pos, pos + (pairs values order.keys ++ [0]).length, rfl, ?_, ?_⟩
      . rw [← List.drop_drop, hsplit, List.drop_left]
      . exact noMarker_of_drop _ hsplit (by simp [not_mem_pairs hno])
  rcases hsection with ⟨raw, pos', start, hrun, hstart, hno⟩
  rw [hparse, ← hdrop, ← parseFrom_ok_iff _ {}, hrun]
  constructor
  . rintro ⟨raw', hok⟩
    refine ⟨?_, _, hok⟩
    rcases parseFrom_recorded hstart hno hok with hnil | hlt
    . simpa using hnil
    . rw [wireLength_decode] at hlt
      omega
  . rintro ⟨rfl, ⟨raw', players⟩, hok⟩
    rcases parseFrom_recorded hstart hno hok with rfl | hlt
    . exact ⟨raw', hok⟩
    . simp at hlt

theorem not_keyMark_recorded (j : Nat)
    : ¬ KeyMark ((0 :: 0 :: (PlayerSection.recorded []).encode).drop j) := by
  cases Nat.lt_or_ge j 13 with
  | inl hlt =>
    have hnone : ∀ i < 13, ¬ ∃ k ∈ knownKeys,
        keyMark k <+: (0 :: 0 :: (PlayerSection.recorded []).encode).drop i := by
      decide +kernel
    exact hnone j hlt
  | inr hge =>
    intro hmark
    rw [List.drop_of_length_le (Nat.le_trans (by decide) hge)] at hmark
    rcases hmark.exists_cons with ⟨r, hr⟩
    simp at hr

theorem not_cutShort_recorded {values : Values} {order : Order}
    (hascii : ∀ k, k ≠ .hostname → (values k).Ascii)
    : ¬ CutShort (encodeBody values order (.recorded [])) := by
  have hend : ∃ raw pos', parseFrom (encodeBody values order (.recorded [])) {} 0
        = parseFrom (encodeBody values order (.recorded [])) raw pos'
      ∧ (encodeBody values order (.recorded [])).drop pos'
        = 0 :: (PlayerSection.recorded []).encode := by
    by_cases hlast : order.keys.getLast? = some .hostname
    . rcases parseFrom_toHostname hascii hlast List.drop_zero with ⟨raw, pos', hparse, hdrop⟩
      have hstep :=
        @keyValueStep_of_motd _ _ raw _ _ (motdEnds_of_doubleNull not_keyMark_recorded) hdrop
      exact ⟨_, _, hparse.trans (parseFrom_continue hstep), drop_encode (drop_encode hdrop)⟩
    . rcases parseFrom_pairs {} (fun k _ => hascii k) order.nodup hlast List.drop_zero
        with ⟨pos', hparse, hdrop⟩
      exact ⟨_, pos', hparse, hdrop⟩
  rcases hend with ⟨raw, pos', hparse, hdrop⟩
  generalize encodeBody values order (.recorded []) = body at hparse hdrop ⊢
  have hplayers : ¬ EndsInMarker (body.drop (skipByte body 0x00 (pos' + 1))) := by
    rw [drop_skipByte, EndsInMarker.dropByte_iff, ← List.drop_drop, hdrop]
    exact not_endsInMarker_encode _
  rcases readPlayers_ok hplayers with ⟨players, hread⟩
  rw [← List.drop_zero (l := body), ← parseFrom_ok_iff body {} 0]
  refine ⟨(raw, players), ?_⟩
  rw [hparse, parseFrom_break (keyValueStep_of_end hdrop), hread]
  rfl

theorem parseResponse_recorded_ascii {header : Vector UInt8 9} {order : Order} {values : Values}
    {names : List Name} (hascii : ∀ k, k ≠ .hostname → (values k).Ascii)
    : (∃ raw, parseResponse (encodePacket header (encodeBody values order (.recorded names)))
          = .ok (raw, names.map fun name => Latin1.decode name.bytes))
        ↔
      names = [] := by
  rw [parseResponse_recorded_inStep (Or.inl hascii)]
  constructor
  . exact And.left
  . rintro rfl
    exact ⟨rfl, not_cutShort_recorded hascii⟩

def silent : Values :=
  fun _ => Text.empty

def steve : Name where
  bytes := Latin1.encode "Steve".toList
  nulFree := by decide
  nonempty := by decide

theorem parseResponse_recorded_steve
    : (parseResponse (encodePacket (Vector.replicate 9 0)
          (encodeBody silent { keys := Key.all, perm := .refl _ }
            (.recorded [steve])))).map (·.2)
          = .ok []
        ∧ ¬ ∀ (header : Vector UInt8 9) (order : Order) (values : Values) (names : List Name),
            ∃ raw, parseResponse (encodePacket header (encodeBody values order (.recorded names)))
              = .ok (raw, names.map fun name => Latin1.decode name.bytes) := by
  have hlost : (parseResponse (encodePacket (Vector.replicate 9 0)
      (encodeBody silent { keys := Key.all, perm := .refl _ }
        (.recorded [steve])))).map (·.2) = .ok [] := by
    decide +kernel
  refine ⟨hlost, fun h => ?_⟩
  rcases h (Vector.replicate 9 0) { keys := Key.all, perm := .refl _ } silent [steve]
    with ⟨raw, hparse⟩
  rw [hparse] at hlost
  simp [Except.map] at hlost

end QueryClient

end Rust

end McStatus
