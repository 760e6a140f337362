import McStatus.Query.Wire
import McStatus.Rust.Query.Lemmas.Safety

/-!
This module shows what the key/value loop of `parse_response` reads from the pairs of a full stat
response. As long as the values are ASCII the cursor stays in step with the pairs. A value with
another byte moves it too far, and the key behind that value is lost.
-/

namespace McStatus

open Fallible
open Query

namespace Rust

namespace QueryClient

theorem key_ne_hostname {k : Key} (h : k ≠ .hostname) : k.name ≠ "hostname".toList := by
  intro hname
  exact h (Key.name_inj hname)

theorem Key.mem_knownKeys {k : Key} (h : k ≠ .hostname) : k.name ∈ knownKeys := by
  cases k <;> first | contradiction | decide

theorem assign_name (raw : RawQueryResponse) (k : Key) (value : List Char)
    : assign raw k.name value
        =
      match k with
      | .hostname => raw
      | .gametype => { raw with gametype := some value }
      | .game_id => { raw with game_id := some value }
      | .version => { raw with version := some value }
      | .plugins => { raw with plugins := some value }
      | .map => { raw with map := some value }
      | .numplayers => { raw with numplayers := parseU32 value }
      | .maxplayers => { raw with maxplayers := parseU32 value }
      | .hostport => { raw with hostport := parseU16 value }
      | .hostip => { raw with hostip := some value } := by
  have h1 : k.name = "numplayers".toList ↔ k = .numplayers := k.name_eq_iff .numplayers
  have h2 : k.name = "maxplayers".toList ↔ k = .maxplayers := k.name_eq_iff .maxplayers
  have h3 : k.name = "hostport".toList ↔ k = .hostport := k.name_eq_iff .hostport
  have h4 : k.name = "hostip".toList ↔ k = .hostip := k.name_eq_iff .hostip
  have h5 : k.name = "gametype".toList ↔ k = .gametype := k.name_eq_iff .gametype
  have h6 : k.name = "game_id".toList ↔ k = .game_id := k.name_eq_iff .game_id
  have h7 : k.name = "map".toList ↔ k = .map := k.name_eq_iff .map
  have h8 : k.name = "version".toList ↔ k = .version := k.name_eq_iff .version
  have h9 : k.name = "plugins".toList ↔ k = .plugins := k.name_eq_iff .plugins
  simp only [assign, h1, h2, h3, h4, h5, h6, h7, h8, h9]
  cases k <;> rfl

/-- The packet around a body: a header of nine bytes, `splitnum` and its padding. -/
def encodePacket (header : Vector UInt8 9) (body : List UInt8) : List UInt8 :=
  header.toList ++ (Latin1.encode "splitnum".toList ++ ([0x00, 0x80, 0x00] ++ body))

theorem keyValueSection_encodePacket (header : Vector UInt8 9) (body : List UInt8)
    : keyValueSection (encodePacket header body) = body := by
  have hdrop : (encodePacket header body).drop 9
      = Latin1.encode "splitnum".toList ++ 0 :: (0x80 :: 0x00 :: body) := by
    have hlen : header.toList.length = 9 := by simp
    rw [encodePacket, List.drop_append_of_le_length (by omega), List.drop_of_length_le (by omega)]
    rfl
  rw [keyValueSection, hdrop, nulText_append (by decide)]
  rfl

theorem parseResponse_encodePacket (header : Vector UInt8 9) {body : List UInt8}
    (h : 2 ≤ body.length)
    : ∃ packet pos, parseResponse (encodePacket header body) = parseFrom packet {} pos
        ∧ packet.drop pos = body := by
  have hlen : 22 ≤ (encodePacket header body).length := by
    simp only [encodePacket, List.length_append, Vector.length_toList, List.length_cons,
      List.length_nil]
    have : (Latin1.encode "splitnum".toList).length = 8 := by decide
    omega
  rcases parseResponse_of_le hlen with ⟨pos, hparse, hdrop⟩
  exact ⟨_, pos, hparse, hdrop.trans (keyValueSection_encodePacket header body)⟩

section Pair

variable {body rest : List UInt8} {raw : RawQueryResponse} {pos : Nat} {k : Key} {value : Text}

theorem lt_of_drop_encode {t : Text} (h : body.drop pos = t.encode ++ rest)
    : pos + t.encode.length ≤ body.length := by
  have hlen := congrArg List.length h
  simp only [List.length_drop, List.length_append, Text.length_encode] at hlen ⊢
  omega

theorem drop_encode {t : Text} (h : body.drop pos = t.encode ++ rest)
    : body.drop (pos + t.encode.length) = rest := by
  rw [← List.drop_drop, h, List.drop_left]

theorem keyValueStep_of_key (raw : RawQueryResponse) (h : body.drop pos = k.text.encode ++ rest)
    : keyValueStep body (raw, pos)
        =
      if k = .hostname then
        readHostname body raw (pos + k.text.encode.length) >>= fun state => .ok (.inl state)
      else
        .ok (.inl (assign raw k.name (Latin1.decode (nulText rest)),
          pos + k.text.encode.length + advance (nulText rest))) := by
  have hle := lt_of_drop_encode h
  have hlt : pos < body.length := by
    rw [Text.length_encode] at hle
    omega
  have hkey : nulText (body.drop pos) = k.text.bytes := by
    rw [h, k.text.nulText_encode]
  have hslice : sliceFrom body (pos + k.text.encode.length) = .ok rest := by
    rw [sliceFrom_of_le hle, drop_encode h]
  rw [keyValueStep_of_lt hlt]
  simp only [hkey, k.text_nonempty, ↓reduceIte, k.decode_text, Text.advance_of_ascii k.ascii_text,
    hslice, ok_bind]
  by_cases hk : k = .hostname
  . simp only [hk, ↓reduceIte]
    rfl
  . simp only [hk, key_ne_hostname hk, ↓reduceIte]

theorem keyValueStep_of_pair (hk : k ≠ .hostname)
    (h : body.drop pos = k.text.encode ++ (value.encode ++ rest))
    : keyValueStep body (raw, pos)
        =
      .ok (.inl (assign raw k.name (Latin1.decode value.bytes),
        pos + k.text.encode.length + advance value.bytes)) := by
  rw [keyValueStep_of_key raw h, if_neg hk, value.nulText_encode]

theorem head_of_lt {t : List UInt8} {j : Nat} {r : List UInt8} (hj : j < value.bytes.length)
    : (value.bytes ++ t).drop j ≠ 0 :: r := by
  intro hr
  have hhead : (value.bytes ++ t)[j]? = some 0 := by
    have := congrArg List.head? hr
    simpa [List.head?_drop] using this
  rw [List.getElem?_append_left hj] at hhead
  exact value.nulFree (List.mem_of_getElem? hhead)

theorem motdEnds_of_key {next : Key} (hnext : next ≠ .hostname)
    : MotdEnds value.bytes (0 :: (next.text.encode ++ rest)) := by
  apply MotdEnds.key
  . refine ⟨next.name, Key.mem_knownKeys hnext, rest, ?_⟩
    have henc : Utf8.encode next.name = next.text.bytes := by cases next <;> decide
    simp [keyMark_eq, henc, Text.encode]
  . intro j hj hmark
    rcases hmark.exists_cons with ⟨r, hr⟩
    exact head_of_lt hj hr

theorem motdEnds_of_doubleNull (hnone : ∀ j, ¬ KeyMark ((0 :: 0 :: rest).drop j))
    : MotdEnds value.bytes (0 :: 0 :: rest) := by
  apply MotdEnds.doubleNull
  . intro j hmark
    cases Nat.lt_or_ge j value.bytes.length with
    | inl hlt =>
      rcases hmark.exists_cons with ⟨r, hr⟩
      exact head_of_lt hlt hr
    | inr hge =>
      rw [List.drop_append, List.drop_of_length_le hge, List.nil_append] at hmark
      exact hnone _ hmark
  . rintro j hj ⟨r, hr⟩
    exact head_of_lt hj hr.symm

theorem keyValueStep_of_motd (hends : MotdEnds value.bytes (0 :: rest))
    (h : body.drop pos = Key.hostname.text.encode ++ (value.encode ++ rest))
    : keyValueStep body (raw, pos)
        =
      .ok (.inl (if value.bytes = [] then raw else
          { raw with hostname := some ((Utf8.decode? value.bytes).getD []) },
        pos + Key.hostname.text.encode.length + value.encode.length)) := by
  have hdrop := drop_encode h
  rcases readHostname_spec raw (lt_of_drop_encode h) with ⟨motd, tail, hsplit, hends', hread⟩
  have hvalue : value.encode ++ rest = value.bytes ++ 0 :: rest := by
    simp [Text.encode]
  rw [hdrop, hvalue] at hsplit
  rcases hends.unique hends' hsplit with ⟨rfl, rfl⟩
  have hskip : skipByte body 0x00 (pos + Key.hostname.text.encode.length + value.bytes.length)
      = pos + Key.hostname.text.encode.length + value.encode.length := by
    have hnul : body[pos + Key.hostname.text.encode.length + value.bytes.length]? = some 0x00 := by
      have : body.drop (pos + Key.hostname.text.encode.length + value.bytes.length)
          = 0 :: rest := by
        rw [← List.drop_drop, hdrop, hvalue, List.drop_left]
      have := congrArg List.head? this
      simpa [List.head?_drop] using this
    rw [skipByte, if_pos hnul, value.length_encode]
    omega
  rw [keyValueStep_of_key raw h, if_pos rfl, hread, ok_bind, hskip]

theorem keyValueStep_of_end (h : body.drop pos = 0 :: rest)
    : keyValueStep body (raw, pos) = .ok (.inr (raw, skipByte body 0x00 (pos + 1))) := by
  have hlt : pos < body.length := by
    have hlen := congrArg List.length h
    simp only [List.length_drop, List.length_cons] at hlen
    omega
  rw [keyValueStep_of_lt hlt, h]
  rfl

end Pair

def store (values : Values) (raw : RawQueryResponse) (k : Key) : RawQueryResponse :=
  if k = .hostname then
    if (values k).bytes = [] then raw else
      { raw with hostname := some ((Utf8.decode? (values k).bytes).getD []) }
  else
    assign raw k.name (Latin1.decode (values k).bytes)

theorem parseFrom_pairs {values : Values} {body rest : List UInt8} {pos : Nat} {keys : List Key}
    (raw : RawQueryResponse) (hascii : ∀ k ∈ keys, k ≠ .hostname → (values k).Ascii)
    (hnodup : keys.Nodup) (hlast : keys.getLast? ≠ some .hostname)
    (h : body.drop pos = pairs values keys ++ rest)
    : ∃ pos', parseFrom body raw pos = parseFrom body (keys.foldl (store values) raw) pos'
        ∧ body.drop pos' = rest := by
  induction keys generalizing raw pos with
  | nil => exact ⟨pos, rfl, by simpa using h⟩
  | cons k keys ih =>
    rw [List.nodup_cons] at hnodup
    have hstep : keyValueStep body (raw, pos) = .ok (.inl (store values raw k,
        pos + k.text.encode.length + (values k).encode.length)) := by
      rw [pairs_cons, pair] at h
      by_cases hk : k = .hostname
      . subst hk
        cases keys with
        | nil => simp at hlast
        | cons next keys =>
          have hnext : next ≠ .hostname := by
            rintro rfl
            simp at hnodup
          simp only [pairs_cons, pair, List.append_assoc] at h
          rw [keyValueStep_of_motd (motdEnds_of_key hnext) h]
          simp [store]
      . simp only [List.append_assoc] at h
        rw [keyValueStep_of_pair hk h,
          Text.advance_of_ascii (hascii k List.mem_cons_self hk)]
        simp [store, hk]
    have hdrop : body.drop (pos + k.text.encode.length + (values k).encode.length)
        = pairs values keys ++ rest := by
      simp only [pairs_cons, pair, List.append_assoc] at h
      exact drop_encode (drop_encode h)
    have hlast' : keys.getLast? ≠ some .hostname := by
      cases keys with
      | nil => simp
      | cons next keys => simpa using hlast
    rw [parseFrom_continue hstep]
    exact ih _ (fun l hl => hascii l (List.mem_cons_of_mem k hl)) hnodup.2 hlast' hdrop

theorem not_endsInMarker_encode (players : PlayerSection) : ¬ EndsInMarker players.encode := by
  rw [PlayerSection.encode]
  induction players.lead with
  | zero =>
    intro h
    cases h
  | succ n ih =>
    intro h
    rw [List.replicate_succ, List.cons_append] at h
    cases h with
    | nul h => exact ih h

theorem parseFrom_encodeBody {values : Values} {order : Order} {players : PlayerSection}
    {body : List UInt8} {pos : Nat} (hascii : ∀ k, k ≠ .hostname → (values k).Ascii)
    (hlast : order.keys.getLast? ≠ some .hostname)
    (h : body.drop pos = encodeBody values order players)
    : ∃ pos', body.drop pos' = dropByte 0x00 players.encode
        ∧ parseFrom body {} pos
            =
          readPlayers body pos' >>= fun names =>
            .ok (order.keys.foldl (store values) {}, names) := by
  rcases parseFrom_pairs {} (fun k _ => hascii k) order.nodup hlast h with ⟨pos', hparse, hdrop⟩
  refine ⟨skipByte body 0x00 (pos' + 1), ?_, ?_⟩
  . rw [drop_skipByte, ← List.drop_drop, hdrop]
    rfl
  . rw [hparse, parseFrom_break (keyValueStep_of_end hdrop)]

end QueryClient

end Rust

end McStatus
