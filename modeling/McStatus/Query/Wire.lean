import Mathlib.Data.List.Nodup
import McStatus.Library.NulText
import McStatus.Library.Numeral

/-!
This module contains the full stat response of the query protocol, as a server writes it: the ten
keys and their values as NUL-terminated texts, an empty key, and the player section. Both parsers
of the repository are compared with it.
-/

namespace McStatus

namespace Query

structure Text where
  bytes : List UInt8
  nulFree : 0 ∉ bytes
  deriving DecidableEq, Repr

structure Name extends Text where
  nonempty : bytes ≠ []
  deriving DecidableEq, Repr

def Text.empty : Text where
  bytes := []
  nulFree := List.not_mem_nil

def Text.Ascii (t : Text) : Prop :=
  ∀ b ∈ t.bytes, b < 0x80

instance (t : Text) : Decidable t.Ascii :=
  List.decidableBAll (fun b => b < 0x80) t.bytes

def Text.encode (t : Text) : List UInt8 :=
  t.bytes ++ [0]

/-- Characters that are sent as one byte each, with a NUL behind them. -/
abbrev Sendable (s : List Char) : Prop :=
  ∀ c ∈ s, 1 ≤ c.toNat ∧ c.toNat < 0x80

theorem fits_of_sendable {s : List Char} (h : Sendable s) : Latin1.Fits s :=
  fun c hc => Nat.lt_trans (h c hc).2 (by decide)

theorem sendable_of_isDigit {s : List Char} (h : ∀ c ∈ s, c.isDigit = true) : Sendable s := by
  intro c hc
  have := Numeral.toNat_of_isDigit (h c hc)
  omega

def Text.ofChars (s : List Char) (h : Sendable s) : Text where
  bytes := Latin1.encode s
  nulFree := Latin1.zero_not_mem_encode (fits_of_sendable h) fun c hc => (h c hc).1

theorem Text.decode_ofChars {s : List Char} (h : Sendable s)
    : Latin1.decode (Text.ofChars s h).bytes = s :=
  Latin1.decode_encode (fits_of_sendable h)

theorem Text.ascii_ofChars {s : List Char} (h : Sendable s) : (Text.ofChars s h).Ascii := by
  intro b hb
  rcases List.mem_map.mp hb with ⟨c, hc, rfl⟩
  have := (h c hc).2
  rw [UInt8.lt_iff_toNat_lt]
  show c.toNat % 256 < 128
  omega

@[simp]
theorem Text.length_encode (t : Text) : t.encode.length = t.bytes.length + 1 := by
  simp [Text.encode]

theorem Text.nulText_encode (t : Text) (r : List UInt8) : nulText (t.encode ++ r) = t.bytes := by
  simpa [Text.encode] using nulText_append t.nulFree r

theorem Text.advance_of_ascii {t : Text} (h : t.Ascii) : advance t.bytes = t.encode.length := by
  rw [t.length_encode]
  exact advance_eq_iff.mpr h

inductive Key where
  | hostname
  | gametype
  | game_id
  | version
  | plugins
  | map
  | numplayers
  | maxplayers
  | hostport
  | hostip
  deriving DecidableEq, Repr

namespace Key

def all : List Key :=
  [hostname, gametype, game_id, version, plugins, map, numplayers, maxplayers, hostport, hostip]

def name (k : Key) : List Char :=
  match k with
  | hostname => "hostname".toList
  | gametype => "gametype".toList
  | game_id => "game_id".toList
  | version => "version".toList
  | plugins => "plugins".toList
  | map => "map".toList
  | numplayers => "numplayers".toList
  | maxplayers => "maxplayers".toList
  | hostport => "hostport".toList
  | hostip => "hostip".toList

def text (k : Key) : Text where
  bytes := Latin1.encode k.name
  nulFree := by cases k <;> decide

theorem mem_all (k : Key) : k ∈ all := by
  cases k <;> decide

theorem name_inj {k l : Key} (h : k.name = l.name) : k = l := by
  revert h
  cases k <;> cases l <;> decide

theorem name_eq_iff (k l : Key) : k.name = l.name ↔ k = l :=
  ⟨name_inj, fun h => h ▸ rfl⟩

theorem text_nonempty (k : Key) : k.text.bytes ≠ [] := by
  cases k <;> decide

theorem ascii_text (k : Key) : k.text.Ascii := by
  cases k <;> decide

@[simp]
theorem decode_text (k : Key) : Latin1.decode k.text.bytes = k.name := by
  apply Latin1.decode_encode
  cases k <;> decide

end Key

structure Order where
  keys : List Key
  perm : keys.Perm Key.all
  deriving DecidableEq, Repr

theorem Order.mem_keys (order : Order) (k : Key) : k ∈ order.keys :=
  order.perm.mem_iff.mpr k.mem_all

theorem Order.nodup (order : Order) : order.keys.Nodup :=
  order.perm.nodup_iff.mpr (by decide)

theorem Order.eq_append_of_getLast {order : Order} {k : Key} (h : order.keys.getLast? = some k)
    : ∃ keys, order.keys = keys ++ [k] ∧ keys.Nodup ∧ keys.getLast? ≠ some k := by
  rcases List.getLast?_eq_some_iff.mp h with ⟨keys, hkeys⟩
  have hnodup := order.nodup
  rw [hkeys] at hnodup
  refine ⟨keys, hkeys, hnodup.of_append_left, fun hlast => ?_⟩
  rw [List.nodup_append] at hnodup
  exact hnodup.2.2 _ (List.mem_of_getLast? hlast) _ (by simp) rfl

abbrev Values := Key → Text

def pair (values : Values) (k : Key) : List UInt8 :=
  k.text.encode ++ (values k).encode

def pairs (values : Values) (keys : List Key) : List UInt8 :=
  keys.flatMap (pair values)

@[simp]
theorem pairs_nil (values : Values) : pairs values [] = [] := rfl

@[simp]
theorem pairs_cons (values : Values) (k : Key) (keys : List Key)
    : pairs values (k :: keys) = pair values k ++ pairs values keys := by
  simp [pairs]

theorem pairs_append (values : Values) (keys keys' : List Key)
    : pairs values (keys ++ keys') = pairs values keys ++ pairs values keys' := by
  simp [pairs]

def encodeNames (names : List Name) : List UInt8 :=
  names.flatMap (·.encode)

@[simp]
theorem encodeNames_nil : encodeNames [] = [] := rfl

@[simp]
theorem encodeNames_cons (name : Name) (names : List Name)
    : encodeNames (name :: names) = name.encode ++ encodeNames names := by
  simp [encodeNames]

def wireLength (names : List (List Char)) : Nat :=
  (names.map fun name => name.length + 1).sum

theorem wireLength_decode (names : List Name)
    : wireLength (names.map fun name => Latin1.decode name.bytes) = (encodeNames names).length := by
  induction names with
  | nil => rfl
  | cons name names ih =>
    simp only [wireLength, List.map_cons, List.sum_cons, Latin1.length_decode, encodeNames_cons,
      List.length_append, Text.length_encode] at ih ⊢
    rw [ih]

def marker : Text where
  bytes := Latin1.encode "player_".toList
  nulFree := by decide

/--
A player section. Servers differ in how many NULs stand in front of the marker and behind it.
-/
structure PlayerSection where
  lead : Nat
  gap : Nat
  names : List Name
  deriving DecidableEq, Repr

def PlayerSection.encode (players : PlayerSection) : List UInt8 :=
  List.replicate players.lead 0 ++ 0x01 :: (marker.encode
    ++ (List.replicate players.gap 0 ++ (encodeNames players.names ++ [0])))

/-- The player section the tests of the Python client record: one NUL behind the marker. -/
def PlayerSection.recorded (names : List Name) : PlayerSection where
  lead := 0
  gap := 1
  names := names

def encodeBody (values : Values) (order : Order) (players : PlayerSection) : List UInt8 :=
  pairs values order.keys ++ 0 :: players.encode

end Query

end McStatus
