import McStatus.Rust.Decimal
import McStatus.Rust.Query.Lemmas.KeyValue

/-!
This module contains the round trip of the key/value section: the values for which `parse_response`
reads back what was sent, whatever the order of the keys, are the ASCII ones.
-/

namespace McStatus

open Fallible
open Query

namespace Rust

namespace QueryClient

def textOf {size : Nat} (number : Numeral.Decimal size) : Text :=
  .ofChars number.digits (sendable_of_isDigit fun _ => number.isDigit)

theorem ascii_textOf {size : Nat} (number : Numeral.Decimal size) : (textOf number).Ascii :=
  Text.ascii_ofChars _

theorem decode_textOf {size : Nat} (number : Numeral.Decimal size)
    : Latin1.decode (textOf number).bytes = number.digits :=
  Text.decode_ofChars _

/-- What a server reports: text, and numbers in the range of the fields they are parsed into. -/
structure Stat where
  hostname : Text
  gametype : Text
  game_id : Text
  version : Text
  plugins : Text
  map : Text
  numplayers : Numeral.Decimal UInt32.size
  maxplayers : Numeral.Decimal UInt32.size
  hostport : Numeral.Decimal UInt16.size
  hostip : Text

namespace Stat

def values (stat : Stat) (k : Key) : Text :=
  match k with
  | .hostname => stat.hostname
  | .gametype => stat.gametype
  | .game_id => stat.game_id
  | .version => stat.version
  | .plugins => stat.plugins
  | .map => stat.map
  | .numplayers => textOf stat.numplayers
  | .maxplayers => textOf stat.maxplayers
  | .hostport => textOf stat.hostport
  | .hostip => stat.hostip

def rawOf (stat : Stat) (keys : List Key) : RawQueryResponse where
  hostname :=
    if .hostname ∈ keys ∧ stat.hostname.bytes ≠ [] then some (Latin1.decode stat.hostname.bytes)
    else none
  gametype := if .gametype ∈ keys then some (Latin1.decode stat.gametype.bytes) else none
  game_id := if .game_id ∈ keys then some (Latin1.decode stat.game_id.bytes) else none
  version := if .version ∈ keys then some (Latin1.decode stat.version.bytes) else none
  plugins := if .plugins ∈ keys then some (Latin1.decode stat.plugins.bytes) else none
  map := if .map ∈ keys then some (Latin1.decode stat.map.bytes) else none
  numplayers := if .numplayers ∈ keys then some (UInt32.ofNat stat.numplayers.value) else none
  maxplayers := if .maxplayers ∈ keys then some (UInt32.ofNat stat.maxplayers.value) else none
  hostport := if .hostport ∈ keys then some (UInt16.ofNat stat.hostport.value) else none
  hostip := if .hostip ∈ keys then some (Latin1.decode stat.hostip.bytes) else none

/-- The response with everything that was sent. An empty `hostname` counts as none. -/
def raw (stat : Stat) : RawQueryResponse where
  hostname :=
    if stat.hostname.bytes = [] then none else some (Latin1.decode stat.hostname.bytes)
  gametype := some (Latin1.decode stat.gametype.bytes)
  game_id := some (Latin1.decode stat.game_id.bytes)
  version := some (Latin1.decode stat.version.bytes)
  plugins := some (Latin1.decode stat.plugins.bytes)
  map := some (Latin1.decode stat.map.bytes)
  numplayers := some (UInt32.ofNat stat.numplayers.value)
  maxplayers := some (UInt32.ofNat stat.maxplayers.value)
  hostport := some (UInt16.ofNat stat.hostport.value)
  hostip := some (Latin1.decode stat.hostip.bytes)

theorem store_rawOf {stat : Stat} {keys : List Key} {k : Key} (hascii : stat.hostname.Ascii)
    : store stat.values (stat.rawOf keys) k = stat.rawOf (k :: keys) := by
  cases k with
  | hostname =>
    have hutf8 := Latin1.utf8_getD_eq_decode_iff.mpr hascii
    by_cases hempty : stat.hostname.bytes = []
    . simp [store, values, rawOf, hempty]
    . simp [store, values, rawOf, hempty, hutf8]
  | numplayers => simp [store, assign_name, values, decode_textOf, parseU32_digits, rawOf]
  | maxplayers => simp [store, assign_name, values, decode_textOf, parseU32_digits, rawOf]
  | hostport => simp [store, assign_name, values, decode_textOf, parseU16_digits, rawOf]
  | _ => simp [store, assign_name, values, rawOf]

theorem foldl_store {stat : Stat} (keys done : List Key) (hascii : stat.hostname.Ascii)
    : keys.foldl (store stat.values) (stat.rawOf done) = stat.rawOf (keys.reverse ++ done) := by
  induction keys generalizing done with
  | nil => rfl
  | cons k keys ih =>
    rw [List.foldl_cons, store_rawOf hascii, ih, List.reverse_cons, List.append_assoc]
    rfl

theorem foldl_store_order (stat : Stat) (order : Order) (hascii : stat.hostname.Ascii)
    : order.keys.foldl (store stat.values) {} = stat.raw := by
  have hempty : stat.rawOf [] = {} := by simp [rawOf]
  have hmem : ∀ k, k ∈ order.keys.reverse ++ [] := by simp [order.mem_keys]
  rw [← hempty, stat.foldl_store order.keys [] hascii]
  simp only [rawOf, raw, hmem, ↓reduceIte, true_and, ne_eq, ite_not]

end Stat

section LostKey

def NoNumplayers (s : List UInt8) : Prop :=
  ∀ j r, s.drop j = Key.numplayers.text.encode ++ r → parseU32 (Latin1.decode (nulText r)) = none

theorem NoNumplayers.drop {s : List UInt8} (h : NoNumplayers s) (n : Nat)
    : NoNumplayers (s.drop n) := by
  intro j r hdrop
  rw [List.drop_drop] at hdrop
  exact h _ r hdrop

theorem NoNumplayers.encode {t : Text} {s : List UInt8} (h : NoNumplayers s)
    (hnext : Key.numplayers.text.bytes <:+ t.bytes → parseU32 (Latin1.decode (nulText s)) = none)
    : NoNumplayers (t.encode ++ s) := by
  intro j r hdrop
  cases Nat.lt_or_ge t.bytes.length j with
  | inl hlt =>
    apply h (j - t.encode.length) r
    have hnil : t.encode.drop j = [] := List.drop_of_length_le (by rw [t.length_encode]; omega)
    rw [← hdrop, List.drop_append, hnil, List.nil_append]
  | inr hge =>
    have hsplit : t.bytes.drop j ++ 0 :: s = Key.numplayers.text.bytes ++ 0 :: r := by
      have hleft : (t.encode ++ s).drop j = t.bytes.drop j ++ 0 :: s := by
        simp [Text.encode, List.drop_append_of_le_length hge]
      rw [← hleft, hdrop]
      simp [Text.encode]
    have hfree : 0 ∉ t.bytes.drop j := fun hmem => t.nulFree (List.mem_of_mem_drop hmem)
    have htext := congrArg nulText hsplit
    rw [nulText_append hfree, nulText_append Key.numplayers.text.nulFree] at htext
    rw [htext] at hsplit
    have hrest : s = r := by simpa using hsplit
    rw [← hrest]
    exact hnext (htext ▸ List.drop_suffix j t.bytes)

theorem NoNumplayers.tail {s : List UInt8} (h : NoNumplayers s)
    : NoNumplayers ((Key.numplayers.text.encode ++ s).drop 1) := by
  let rest : Text := { bytes := Key.numplayers.text.bytes.tail, nulFree := by decide }
  have hrest : NoNumplayers (rest.encode ++ s) :=
    h.encode fun hsuffix => absurd hsuffix (by decide)
  exact hrest

theorem noNumplayers_of_not_mem {s : List UInt8} (h : 'n'.toUInt8 ∉ s) : NoNumplayers s := by
  intro j r hdrop
  have hmem : 'n'.toUInt8 ∈ s.drop j := by
    rw [hdrop]
    exact List.mem_append_left r (by decide)
  exact absurd (List.mem_of_mem_drop hmem) h

def noPlayers : PlayerSection where
  lead := 0
  gap := 0
  names := []

theorem noNumplayers_pairs (values : Values) {keys : List Key} (h : .numplayers ∉ keys)
    : NoNumplayers (pairs values keys ++ 0 :: noPlayers.encode)
        ∧ parseU32 (Latin1.decode (nulText (pairs values keys ++ 0 :: noPlayers.encode)))
          = none := by
  induction keys with
  | nil =>
    rw [pairs_nil, List.nil_append]
    constructor
    . exact noNumplayers_of_not_mem (by decide)
    . decide
  | cons k keys ih =>
    rw [List.mem_cons, not_or] at h
    have hsuffix : ¬ Key.numplayers.text.bytes <:+ k.text.bytes := by
      have hk := h.1
      revert hk
      cases k <;> decide
    have hname : parseU32 k.name = none := by cases k <;> decide
    rcases ih h.2 with ⟨htail, hnext⟩
    simp only [pairs_cons, pair, List.append_assoc]
    constructor
    . apply NoNumplayers.encode
      . exact htail.encode fun _ => hnext
      . intro hmem
        exact absurd hmem hsuffix
    . rw [k.text.nulText_encode, k.decode_text]
      exact hname

theorem assign_numplayers {raw : RawQueryResponse} {key value : List Char}
    (h : key = "numplayers".toList → parseU32 value = none) (hraw : raw.numplayers = none)
    : (assign raw key value).numplayers = none := by
  unfold assign
  split
  . next heq => exact h heq
  . repeat' split
    all_goals exact hraw

theorem keyValueStep_numplayers {body : List UInt8} {raw : RawQueryResponse} {pos : Nat}
    {next : (RawQueryResponse × Nat) ⊕ (RawQueryResponse × Nat)}
    (hno : NoNumplayers (body.drop pos)) (hraw : raw.numplayers = none)
    (h : keyValueStep body (raw, pos) = .ok next)
    : (next.elim id id).1.numplayers = none := by
  have hspec := keyValueStep_spec body raw pos
  rw [h] at hspec
  generalize body.drop pos = s at hno hspec
  cases hspec with
  | nil => exact hraw
  | done => exact hraw
  | hostname =>
    dsimp only [Sum.elim_inl, id]
    split <;> exact hraw
  | pair hkey _ hfit hrest =>
    refine assign_numplayers (fun hname => ?_) hraw
    have hkey : nulText s = Key.numplayers.text.bytes := by
      apply Latin1.decode_inj
      rw [hname, Key.decode_text]
      rfl
    have hadvance := Text.advance_of_ascii Key.numplayers.ascii_text
    rw [hkey, hadvance] at hfit hrest
    rcases nulText_cases s with hall | ⟨r, hr⟩
    . -- without a NUL behind it the key leaves nothing to read a value from
      rw [hall, hkey, Text.length_encode] at hfit
      omega
    . have henc : s = Key.numplayers.text.encode ++ r := by
        rw [hr, hkey]
        simp [Text.encode]
      rw [henc, List.drop_left] at hrest
      exact hrest ▸ hno 0 r henc

theorem parseFrom_numplayers {body : List UInt8} {raw raw' : RawQueryResponse} {pos : Nat}
    {players : List (List Char)} (hno : NoNumplayers (body.drop pos)) (hraw : raw.numplayers = none)
    (h : parseFrom body raw pos = .ok (raw', players)) : raw'.numplayers = none := by
  have hrun : ∀ out, readKeyValues body raw pos = .ok out → out.1.numplayers = none := by
    intro out
    refine Loop.run_ok
      (fun state : RawQueryResponse × Nat =>
        state.1.numplayers = none ∧ NoNumplayers (body.drop state.2))
      (fun state : RawQueryResponse × Nat => state.1.numplayers = none) ?_ ?_ ⟨hraw, hno⟩
    . rintro ⟨raw, pos⟩ state ⟨hraw, hno⟩ hstep
      exact keyValueStep_numplayers hno hraw hstep
    . rintro ⟨raw, pos⟩ ⟨raw', pos'⟩ ⟨hraw, hno⟩ hstep
      refine ⟨keyValueStep_numplayers hno hraw hstep, ?_⟩
      have hlt := keyValueStep_lt hstep
      have hpos : pos + (pos' - pos) = pos' := by omega
      have := hno.drop (pos' - pos)
      rwa [List.drop_drop, hpos] at this
  simp only [parseFrom, bind_eq_ok] at h
  rcases h with ⟨out, hout, names, -, h⟩
  simp only [pure_eq_ok, Except.ok.injEq, Prod.mk.injEq] at h
  rw [← h.1]
  exact hrun out hout

end LostKey

def lossOrder (k : Key) (h : k ≠ .numplayers) : Order where
  keys := k :: .numplayers :: Key.all.filter fun l => l ≠ k ∧ l ≠ .numplayers
  perm := by
    revert h
    cases k <;> decide

theorem parseResponse_lossOrder {stat : Stat} {k : Key} (hk : k ≠ .hostname)
    (hne : k ≠ .numplayers) (hascii : ¬ (stat.values k).Ascii)
    {out : RawQueryResponse × List (List Char)}
    (h : parseResponse (encodePacket (Vector.replicate 9 0)
      (encodeBody stat.values (lossOrder k hne) noPlayers)) = .ok out)
    : out.1.numplayers = none := by
  have hbody : 2 ≤ (encodeBody stat.values (lossOrder k hne) noPlayers).length := by
    simp [encodeBody, PlayerSection.encode]
    omega
  rcases parseResponse_encodePacket _ hbody with ⟨packet, pos, hparse, hdrop⟩
  rw [hparse] at h
  generalize hrest : Key.all.filter (fun l => l ≠ k ∧ l ≠ .numplayers) = rest at *
  have hsplit : packet.drop pos = k.text.encode ++ ((stat.values k).encode
      ++ (Key.numplayers.text.encode ++ ((textOf stat.numplayers).encode
        ++ (pairs stat.values rest ++ 0 :: noPlayers.encode)))) := by
    rw [hdrop, encodeBody, ← hrest]
    simp [lossOrder, pair, Stat.values]
  have hafter := drop_encode (drop_encode hsplit)
  have hadvance : (stat.values k).encode.length < advance (stat.values k).bytes := by
    have hlt := length_lt_advance (stat.values k).bytes
    have hne : advance (stat.values k).bytes ≠ (stat.values k).bytes.length + 1 :=
      fun heq => hascii (advance_eq_iff.mp heq)
    rw [Text.length_encode]
    omega
  have hmem : Key.numplayers ∉ rest := by simp [← hrest]
  rcases noNumplayers_pairs stat.values hmem with ⟨hpairs, hnext⟩
  rw [parseFrom_continue (keyValueStep_of_pair hk hsplit)] at h
  refine parseFrom_numplayers ?_ (assign_numplayers ?_ rfl) h
  . have hlost := (hpairs.encode (t := textOf stat.numplayers) fun _ => hnext).tail.drop
      (advance (stat.values k).bytes - (stat.values k).encode.length - 1)
    rw [← hafter, List.drop_drop, List.drop_drop] at hlost
    have hpos : pos + k.text.encode.length + (stat.values k).encode.length
        + (1 + (advance (stat.values k).bytes - (stat.values k).encode.length - 1))
        = pos + k.text.encode.length + advance (stat.values k).bytes := by omega
    rwa [hpos] at hlost
  . intro hname
    exact absurd (Key.name_inj hname) hne

theorem foldl_store_hostname {values : Values} {keys : List Key} {raw : RawQueryResponse}
    (h : .hostname ∉ keys) : (keys.foldl (store values) raw).hostname = raw.hostname := by
  induction keys generalizing raw with
  | nil => rfl
  | cons k keys ih =>
    rw [List.mem_cons, not_or] at h
    rw [List.foldl_cons, ih h.2, store, if_neg (Ne.symm h.1), assign_name]
    cases k <;> rfl

theorem parseResponse_hostname {stat : Stat} {names : List (List Char)}
    (hascii : ∀ k, k ≠ .hostname → (stat.values k).Ascii) (hhost : ¬ stat.hostname.Ascii)
    : parseResponse (encodePacket (Vector.replicate 9 0)
          (encodeBody stat.values { keys := Key.all, perm := .refl _ } noPlayers))
        ≠
      .ok (stat.raw, names) := by
  intro h
  have hbody :
      2 ≤ (encodeBody stat.values { keys := Key.all, perm := .refl _ } noPlayers).length := by
    simp [encodeBody, PlayerSection.encode]
    omega
  rcases parseResponse_encodePacket _ hbody with ⟨packet, pos, hparse, hdrop⟩
  rcases parseFrom_encodeBody hascii (by decide) hdrop with ⟨pos', -, hrun⟩
  rw [hparse, hrun] at h
  simp only [bind_eq_ok, Except.ok.injEq, Prod.mk.injEq] at h
  rcases h with ⟨_, -, hraw, -⟩
  have hne : stat.hostname.bytes ≠ [] := by
    intro hnil
    exact hhost (by simp [Text.Ascii, hnil])
  have hread := congrArg RawQueryResponse.hostname hraw
  rw [Key.all, List.foldl_cons, foldl_store_hostname (by decide)] at hread
  simp only [store, Stat.values, Stat.raw, hne, ↓reduceIte, Option.some.injEq] at hread
  exact hhost (Latin1.utf8_getD_eq_decode_iff.mp hread)

theorem parseResponse_encodeBody {stat : Stat} (hascii : ∀ k, (stat.values k).Ascii)
    (header : Vector UInt8 9) {order : Order} (players : PlayerSection)
    (hlast : order.keys.getLast? ≠ some .hostname)
    : ∃ names, parseResponse (encodePacket header (encodeBody stat.values order players))
        = .ok (stat.raw, names) := by
  have hbody : 2 ≤ (encodeBody stat.values order players).length := by
    simp [encodeBody, PlayerSection.encode]
    omega
  rcases parseResponse_encodePacket header hbody with ⟨packet, pos, hparse, hdrop⟩
  rcases parseFrom_encodeBody (fun k _ => hascii k) hlast hdrop with ⟨pos', hplayers, hrun⟩
  have hnot : ¬ EndsInMarker (packet.drop pos') := by
    rw [hplayers, EndsInMarker.dropByte_iff]
    exact not_endsInMarker_encode players
  rcases readPlayers_ok hnot with ⟨names, hnames⟩
  refine ⟨names, ?_⟩
  rw [hparse, hrun, hnames, ok_bind, stat.foldl_store_order order (hascii .hostname)]

/--
The key/value section is read back, in every order of the keys and with every player section, for
exactly the values that are ASCII.
-/
theorem parseResponse_encodeBody_iff (stat : Stat)
    : (∀ (header : Vector UInt8 9) (order : Order) (players : PlayerSection),
          order.keys.getLast? ≠ some .hostname →
          ∃ names, parseResponse (encodePacket header (encodeBody stat.values order players))
            = .ok (stat.raw, names))
        ↔
      ∀ k, (stat.values k).Ascii := by
  constructor
  . intro h
    -- the order that sends `numplayers` behind a value shows that the value is ASCII
    have hascii : ∀ k, k ≠ .hostname → (stat.values k).Ascii := by
      intro k hk
      apply Classical.byContradiction
      intro hnot
      have hne : k ≠ .numplayers := by
        rintro rfl
        exact hnot (ascii_textOf _)
      have hlast : (lossOrder k hne).keys.getLast? ≠ some .hostname := by
        revert hk hne
        cases k <;> decide
      rcases h (Vector.replicate 9 0) (lossOrder k hne) noPlayers hlast with ⟨names, hparse⟩
      have := parseResponse_lossOrder hk hne hnot hparse
      simp [Stat.raw] at this
    intro k
    apply Classical.byContradiction
    intro hnot
    have hk : k = .hostname := Classical.byContradiction fun hk => hnot (hascii k hk)
    subst hk
    rcases h (Vector.replicate 9 0) { keys := Key.all, perm := .refl _ } noPlayers (by decide)
      with ⟨names, hparse⟩
    exact parseResponse_hostname hascii hnot hparse
  . intro hascii header order players hlast
    exact parseResponse_encodeBody hascii header players hlast

def accentedMap : Stat where
  hostname := { bytes := Latin1.encode "A Minecraft Server".toList, nulFree := by decide }
  gametype := { bytes := Latin1.encode "SMP".toList, nulFree := by decide }
  game_id := { bytes := Latin1.encode "MINECRAFT".toList, nulFree := by decide }
  version := { bytes := Latin1.encode "1.8".toList, nulFree := by decide }
  plugins := Text.empty
  map := { bytes := [0xE9], nulFree := by decide }
  numplayers := .ofNat 3 (by decide)
  maxplayers := .ofNat 20 (by decide)
  hostport := .ofNat 25565 (by decide)
  hostip := { bytes := Latin1.encode "192.168.56.1".toList, nulFree := by decide }

/-- The `numplayers` behind that map is lost, so the round trip does not hold of every response. -/
theorem parseResponse_accentedMap
    : (parseResponse (encodePacket (Vector.replicate 9 0)
          (encodeBody accentedMap.values { keys := Key.all, perm := .refl _ } noPlayers))).map
            (·.1.numplayers)
          = .ok none
        ∧ ¬ ∀ (stat : Stat) (header : Vector UInt8 9) (order : Order) (players : PlayerSection),
            order.keys.getLast? ≠ some .hostname →
            ∃ names, parseResponse (encodePacket header (encodeBody stat.values order players))
              = .ok (stat.raw, names) := by
  have hlost : (parseResponse (encodePacket (Vector.replicate 9 0)
      (encodeBody accentedMap.values { keys := Key.all, perm := .refl _ } noPlayers))).map
        (·.1.numplayers) = .ok none := by
    decide +kernel
  refine ⟨hlost, fun h => ?_⟩
  rcases h accentedMap (Vector.replicate 9 0) { keys := Key.all, perm := .refl _ } noPlayers
    (by decide) with ⟨names, hparse⟩
  rw [hparse] at hlost
  simp [Except.map, Stat.raw] at hlost

end QueryClient

end Rust

end McStatus
