import McStatus.Python.Io.Lemmas.Read
import McStatus.Python.Query.Impl
import McStatus.Query.Wire

/-!
This module contains the round trip of the Python query parser. It reads back every response,
except when `hostname` is the last key: nothing but a known key marks the end of the MOTD.
-/

namespace McStatus

open Reader
open Query

namespace Python

namespace QueryClient

open BaseSyncReader

theorem mem_knownKeys {k : Key} (h : k ≠ .hostname) : k.name ∈ knownKeys := by
  cases k <;> first | contradiction | decide

section Search

theorem searchMotd_of_nulFree {t : List UInt8} (h : 0 ∉ t) (s : List UInt8)
    : searchMotd (t ++ s) = (searchMotd s).map (t ++ ·) := by
  induction t with
  | nil => simp
  | cons b t ih =>
    rw [List.mem_cons, not_or] at h
    have hb : ¬ (b = 0 ∧ StartsWithKey (t ++ s)) := fun hb => h.1 hb.1.symm
    rw [List.cons_append, searchMotd, if_neg hb, ih h.2, Option.map_map]
    rfl

theorem searchMotd_of_key {s : List UInt8} (h : StartsWithKey s)
    : searchMotd (0 :: s) = some [] := by
  simp [searchMotd, h]

theorem searchMotd_of_not_key {s : List UInt8} (h : ¬ StartsWithKey s)
    : searchMotd (0 :: s) = (searchMotd s).map (0 :: ·) := by
  simp [searchMotd, h]

theorem startsWithKey_text {k : Key} (h : k ≠ .hostname) (rest : List UInt8)
    : StartsWithKey (k.text.encode ++ rest) := by
  refine ⟨k.name, mem_knownKeys h, ?_⟩
  simp [Text.encode, Key.text]

theorem searchMotd_eq_some {s motd : List UInt8} (h : searchMotd s = some motd)
    : ∃ rest, s = motd ++ 0 :: rest := by
  induction s generalizing motd with
  | nil => simp [searchMotd] at h
  | cons b s ih =>
    rw [searchMotd] at h
    split at h
    . next hb =>
      rw [Option.some.injEq] at h
      exact ⟨s, by rw [← h, hb.1, List.nil_append]⟩
    . rw [Option.map_eq_some_iff] at h
      rcases h with ⟨motd', hmotd, rfl⟩
      rcases ih hmotd with ⟨rest, rfl⟩
      exact ⟨rest, rfl⟩

theorem not_startsWithKey_cons {b : UInt8} {rest : List UInt8} (h : b = 0 ∨ b = 1)
    : ¬ StartsWithKey (b :: rest) := by
  rintro ⟨k, hk, hpart⟩
  have hhead : ∀ k ∈ knownKeys, ∃ c r, Latin1.encode k = c :: r ∧ c ≠ 0 ∧ c ≠ 1 := by
    intro k hk
    simp only [knownKeys, List.mem_cons, List.not_mem_nil, or_false] at hk
    rcases hk with rfl | rfl | rfl | rfl | rfl | rfl | rfl | rfl | rfl
    all_goals exact ⟨_, _, rfl, by decide, by decide⟩
  rcases hhead k hk with ⟨c, r, henc, h0, h1⟩
  rw [henc, List.cons_prefix_cons] at hpart
  rcases h with rfl | rfl
  . exact h0 hpart.1
  . exact h1 hpart.1

theorem startsWithKey_name {name : Name} {rest : List UInt8}
    : StartsWithKey (name.encode ++ rest) ↔ StartsWithKey name.bytes := by
  constructor
  . rintro ⟨k, hk, hpart⟩
    refine ⟨k, hk, ?_⟩
    have hkeys : ∀ k ∈ knownKeys, 0 ∉ Latin1.encode k := by decide
    have hfree := hkeys k hk
    rw [Text.encode, List.append_assoc] at hpart
    rcases List.prefix_or_prefix_of_prefix hpart (List.prefix_append _ _) with hle | hle
    . exact hle
    . rcases hle with ⟨t, ht⟩
      cases t with
      | nil => rw [← ht, List.append_nil]
      | cons b t =>
        rw [← ht, List.prefix_append_right_inj] at hpart
        have hb : b = 0 := by
          rw [List.singleton_append, List.cons_prefix_cons] at hpart
          exact hpart.1
        rw [← ht, hb] at hfree
        simp at hfree
  . rintro ⟨k, hk, hpart⟩
    rw [Text.encode, List.append_assoc]
    exact ⟨k, hk, hpart.trans (List.prefix_append _ _)⟩

theorem searchMotd_names {names : List Name} (h : ∀ name ∈ names, ¬ StartsWithKey name.bytes)
    : searchMotd (0 :: (encodeNames names ++ [0])) = none := by
  induction names with
  | nil => decide
  | cons name names ih =>
    have hname : ¬ StartsWithKey (name.encode ++ (encodeNames names ++ [0])) := by
      rw [startsWithKey_name]
      exact h name List.mem_cons_self
    have hrest := ih fun name hname => h name (List.mem_cons_of_mem _ hname)
    rw [encodeNames_cons, List.append_assoc, searchMotd_of_not_key hname, Text.encode,
      List.append_assoc, searchMotd_of_nulFree name.nulFree]
    simp [hrest]

theorem searchMotd_names_isSome {names : List Name} {name : Name} (hmem : name ∈ names)
    (h : StartsWithKey name.bytes) : (searchMotd (0 :: (encodeNames names ++ [0]))).isSome := by
  induction names with
  | nil => simp at hmem
  | cons first names ih =>
    rw [encodeNames_cons, List.append_assoc]
    by_cases hfirst : StartsWithKey (first.encode ++ (encodeNames names ++ [0]))
    . simp [searchMotd_of_key hfirst]
    . have hne : name ≠ first := by
        rintro rfl
        rw [startsWithKey_name] at hfirst
        exact hfirst h
      have hrest := ih (by simpa [hne] using hmem)
      rw [searchMotd_of_not_key hfirst, Text.encode, List.append_assoc,
        searchMotd_of_nulFree first.nulFree]
      simpa using hrest

theorem recorded_encode (names : List Name)
    : (PlayerSection.recorded names).encode
        = (0x01 :: marker.encode) ++ 0 :: (encodeNames names ++ [0]) := by
  simp [PlayerSection.encode, PlayerSection.recorded]

theorem searchMotd_section (value : Text) (names : List Name)
    : searchMotd (value.bytes ++ 0 :: 0 :: (PlayerSection.recorded names).encode)
        =
      (searchMotd (0 :: (encodeNames names ++ [0]))).map
        ((value.bytes ++ 0 :: 0 :: 0x01 :: marker.encode) ++ ·) := by
  have hmarker : 0 ∉ 0x01 :: marker.bytes := by decide
  have hsplit : (PlayerSection.recorded names).encode
      = (0x01 :: marker.bytes) ++ 0 :: 0 :: (encodeNames names ++ [0]) := by
    rw [recorded_encode]
    simp [Text.encode]
  rw [searchMotd_of_nulFree value.nulFree,
    searchMotd_of_not_key (not_startsWithKey_cons (Or.inl rfl)), hsplit]
  rw [List.cons_append, searchMotd_of_not_key (not_startsWithKey_cons (Or.inr rfl)),
    ← List.cons_append, searchMotd_of_nulFree hmarker,
    searchMotd_of_not_key (not_startsWithKey_cons (Or.inl rfl))]
  simp only [Option.map_map]
  congr 1
  funext motd
  simp [Text.encode]

end Search

section InStep

variable {values : Values} {data : RawQueryResponse} {rest : List UInt8} {b : Buffer}

theorem consumes_text (t : Text)
    : Consumes Buffer.unreadView (readAscii : Py Buffer (List Char)) t.encode
        (Latin1.decode t.bytes) :=
  consumes_readAscii t.nulFree

theorem consumes_key (k : Key)
    : Consumes Buffer.unreadView (readAscii : Py Buffer (List Char)) k.text.encode k.name := by
  rw [← k.decode_text]
  exact consumes_text k.text

theorem consumes_read_bytes (input : List UInt8)
    : Consumes Buffer.unreadView (Buffer.read input.length) input input :=
  LawfulReader.consumes_read input

theorem dataStep_of_pair {k : Key} (hk : k ≠ .hostname)
    (h : b.unreadView = k.text.encode ++ ((values k).encode ++ rest))
    : ∃ b', dataStep data b
          = .ok (.inl (data.insert k.name (Latin1.decode (values k).bytes))) b'
        ∧ b'.unreadView = rest := by
  rcases consumes_key k b _ h with ⟨c, hkey, hview⟩
  rcases consumes_text (values k) c rest hview with ⟨b', hvalue, hrest⟩
  have hname : k.name ≠ "hostname".toList := fun heq => hk (Key.name_inj heq)
  have hlen : k.name.length ≠ 0 := by
    cases k <;> decide
  refine ⟨b', ?_, hrest⟩
  rw [dataStep, bind_of_ok hkey, if_neg hname, if_neg hlen, bind_of_ok hvalue, pure_apply]

theorem dataStep_of_hostname {motd : List UInt8} {nul : UInt8}
    (h : b.unreadView = Key.hostname.text.encode ++ (motd ++ nul :: rest))
    (hsearch : (searchMotd (motd ++ nul :: rest)).getD [] = motd)
    : ∃ b', dataStep data b
          = .ok (.inl (data.insert Key.hostname.name (Latin1.decode motd))) b'
        ∧ b'.unreadView = rest := by
  rcases consumes_key .hostname b _ h with ⟨c, hkey, hview⟩
  rcases consumes_read_bytes motd c _ hview with ⟨c', hvalue, hview'⟩
  rcases consumes_read_bytes [nul] c' rest (by simpa using hview') with ⟨b', hnul, hrest⟩
  have hnul : Buffer.read 1 c' = .ok [nul] b' := hnul
  refine ⟨b', ?_, hrest⟩
  have hname : Key.hostname.name = "hostname".toList := rfl
  have hget : (get : Py Buffer Buffer) c = .ok c c := rfl
  rw [dataStep, bind_of_ok hkey, if_pos hname, bind_of_ok hget, hview, hsearch,
    bind_of_ok hvalue, bind_of_ok hnul, pure_apply]

theorem dataStep_of_end {nul : UInt8} (h : b.unreadView = 0 :: nul :: rest)
    : ∃ b', dataStep data b = .ok (.inr data) b' ∧ b'.unreadView = rest := by
  rcases consumes_text { bytes := [], nulFree := by simp } b (nul :: rest) h with ⟨c, hkey, hview⟩
  rcases consumes_read_bytes [nul] c rest hview with ⟨b', hnul, hrest⟩
  have hnul : Buffer.read 1 c = .ok [nul] b' := hnul
  have hname : Latin1.decode [] ≠ "hostname".toList := by decide
  have hempty : (Latin1.decode []).length = 0 := rfl
  refine ⟨b', ?_, hrest⟩
  rw [dataStep, bind_of_ok hkey, if_neg hname, if_pos hempty, bind_of_ok hnul, pure_apply]

def store (values : Values) (data : RawQueryResponse) (k : Key) : RawQueryResponse :=
  data.insert k.name (Latin1.decode (values k).bytes)

theorem readData_of_pairs {keys : List Key} (data : RawQueryResponse) (hnodup : keys.Nodup)
    (hlast : keys.getLast? ≠ some .hostname) (h : b.unreadView = pairs values keys ++ rest)
    : ∃ b', readData data b = readData (keys.foldl (store values) data) b'
        ∧ b'.unreadView = rest := by
  induction keys generalizing data b with
  | nil => exact ⟨b, rfl, by simpa using h⟩
  | cons k keys ih =>
    rw [List.nodup_cons] at hnodup
    have hlast' : keys.getLast? ≠ some .hostname := by
      cases keys with
      | nil => simp
      | cons next keys => simpa using hlast
    have hstep : ∃ b', dataStep data b = .ok (.inl (store values data k)) b'
        ∧ b'.unreadView = pairs values keys ++ rest := by
      simp only [pairs_cons, pair, List.append_assoc] at h
      by_cases hk : k = .hostname
      . subst hk
        cases keys with
        | nil => simp at hlast
        | cons next keys =>
          have hnext : next ≠ .hostname := by
            rintro rfl
            simp at hnodup
          have hkey : StartsWithKey (pairs values (next :: keys) ++ rest) := by
            simp only [pairs_cons, pair, List.append_assoc]
            exact startsWithKey_text hnext _
          have hvalue : (values .hostname).encode ++ (pairs values (next :: keys) ++ rest)
              = (values .hostname).bytes ++ 0 :: (pairs values (next :: keys) ++ rest) := by
            simp [Text.encode]
          rw [hvalue] at h
          refine dataStep_of_hostname h ?_
          rw [searchMotd_of_nulFree (values .hostname).nulFree, searchMotd_of_key hkey]
          simp
      . exact dataStep_of_pair hk h
    rcases hstep with ⟨c, hstep, hview⟩
    rcases ih (store values data k) hnodup.2 hlast' hview with ⟨b', hrun, hrest⟩
    exact ⟨b', (loop_continue hstep).trans hrun, hrest⟩

theorem consumes_playersStep (t : Text) (players : List (List Char))
    : Consumes Buffer.unreadView (playersStep players) (t.encode ++ [])
        (if t.bytes = [] then .inr players else .inl (players ++ [Latin1.decode t.bytes])) := by
  refine Consumes.bind (consumes_text t) ?_
  simp only [List.length_eq_zero_iff, Latin1.decode_eq_nil]
  split
  . exact Consumes.pure _
  . exact Consumes.pure _

theorem consumes_readPlayers (names : List Name) (players : List (List Char))
    : Consumes Buffer.unreadView (readPlayers players) (encodeNames names ++ [0])
        (players ++ names.map fun name => Latin1.decode name.bytes) := by
  induction names generalizing players with
  | nil =>
    have hstep := consumes_playersStep { bytes := [], nulFree := by simp } players
    simp only [↓reduceIte, List.append_nil] at hstep
    rw [List.map_nil, List.append_nil]
    exact hstep.loop_break
  | cons name names ih =>
    have hstep := consumes_playersStep name.toText players
    simp only [name.nonempty, ↓reduceIte, List.append_nil] at hstep
    rw [encodeNames_cons, List.append_assoc, List.map_cons, List.append_cons players]
    exact hstep.loop_continue (ih (players ++ [Latin1.decode name.bytes]))

end InStep

section OutOfStep

theorem remaining_of_read {b b' : Buffer} {n : Nat} {bytes : List UInt8}
    (h : Buffer.read n b = .ok bytes b') : b.remaining = n + b'.remaining := by
  have hread := @LawfulReader.length_of_read Buffer _ b b' n bytes h
  have hlen := congrArg List.length hread.2
  rw [List.length_append] at hlen
  have hb : b.remaining = (LawfulReader.view b).length := b.length_unreadView.symm
  have hb' : b'.remaining = (LawfulReader.view b').length := b'.length_unreadView.symm
  omega

theorem remaining_of_readAscii {b b' : Buffer} {text : List Char}
    (h : readAscii b = .ok text b') : b.remaining = text.length + 1 + b'.remaining := by
  rcases bind_eq_ok.mp h with ⟨result, c, hloop, hpure⟩
  rw [pure_apply, EStateM.Result.ok.injEq] at hpure
  have hrun : b.remaining = result.length + c.remaining ∧ result ≠ [] := by
    refine loop_ok (fun result c => b.remaining = result.length + c.remaining)
      (fun result c => b.remaining = result.length + c.remaining ∧ result ≠ []) ?_ ?_
      (by simp) hloop
    . intro result c result' c' hI hstep
      unfold readAsciiStep at hstep
      split at hstep
      . rcases bind_eq_ok.mp hstep with ⟨_, _, -, hpure⟩
        simp at hpure
      . next hdone =>
        rw [pure_apply, EStateM.Result.ok.injEq, Sum.inr.injEq] at hstep
        rw [← hstep.1, ← hstep.2]
        refine ⟨hI, ?_⟩
        rintro rfl
        simp at hdone
    . intro result c result' c' hI hstep
      unfold readAsciiStep at hstep
      split at hstep
      . rcases bind_eq_ok.mp hstep with ⟨byte, d, hread, hpure⟩
        rw [pure_apply, EStateM.Result.ok.injEq, Sum.inl.injEq] at hpure
        rw [← hpure.1, ← hpure.2, List.length_append]
        have hone := @LawfulReader.length_of_read Buffer _ c d 1 byte hread
        have hbyte : byte.length = 1 := by omega
        have hread : Buffer.read (1 : Nat) c = .ok byte d := hread
        have := remaining_of_read hread
        omega
      . simp at hstep
  rw [← hpure.1, ← hpure.2]
  have := List.length_pos_of_ne_nil hrun.2
  simp only [Latin1.length_decode, List.length_dropLast]
  omega

theorem remaining_of_readPlayers {b b' : Buffer} {players : List (List Char)}
    (h : readPlayers [] b = .ok players b')
    : b.remaining = wireLength players + 1 + b'.remaining := by
  refine loop_ok (fun players c => b.remaining = wireLength players + c.remaining)
    (fun players c => b.remaining = wireLength players + 1 + c.remaining) ?_ ?_
    (by simp [wireLength]) h
  . intro players c players' c' hI hstep
    rcases bind_eq_ok.mp hstep with ⟨player, d, hplayer, hstep⟩
    have hlen := remaining_of_readAscii hplayer
    split at hstep
    . rw [pure_apply, EStateM.Result.ok.injEq, Sum.inr.injEq] at hstep
      rw [← hstep.1, ← hstep.2]
      omega
    . simp at hstep
  . intro players c players' c' hI hstep
    rcases bind_eq_ok.mp hstep with ⟨player, d, hplayer, hstep⟩
    have hlen := remaining_of_readAscii hplayer
    split at hstep
    . simp at hstep
    . rw [pure_apply, EStateM.Result.ok.injEq, Sum.inl.injEq] at hstep
      rw [← hstep.1, ← hstep.2, hI, hlen]
      simp only [wireLength, List.map_append, List.map_cons, List.map_nil, List.sum_append,
        List.sum_cons, List.sum_nil]
      omega

theorem remaining_of_readData {b b' : Buffer} {data data' : RawQueryResponse}
    (h : readData data b = .ok data' b') : b'.remaining + 2 ≤ b.remaining := by
  refine loop_ok (fun _ c => c.remaining ≤ b.remaining)
    (fun _ c => c.remaining + 2 ≤ b.remaining) ?_ ?_ (Nat.le_refl _) h
  . intro data c data' c' hI hstep
    rcases bind_eq_ok.mp hstep with ⟨key, d, hkey, hstep⟩
    have hlen := remaining_of_readAscii hkey
    split at hstep
    . rcases bind_eq_ok.mp hstep with ⟨_, _, -, hstep⟩
      rcases bind_eq_ok.mp hstep with ⟨_, _, -, hstep⟩
      rcases bind_eq_ok.mp hstep with ⟨_, _, -, hstep⟩
      simp at hstep
    . split at hstep
      . rcases bind_eq_ok.mp hstep with ⟨nul, d', hnul, hstep⟩
        rw [pure_apply, EStateM.Result.ok.injEq, Sum.inr.injEq] at hstep
        have hnul : Buffer.read (1 : Nat) d = .ok nul d' := hnul
        have := remaining_of_read hnul
        rw [← hstep.2]
        omega
      . rcases bind_eq_ok.mp hstep with ⟨_, _, -, hstep⟩
        simp at hstep
  . intro data c data' c' hI hstep
    have := dataStep_lt hstep
    omega

def parseFrom (data : RawQueryResponse) : Py Buffer (RawQueryResponse × List (List Char)) := do
  let data ← readData data
  let _ ← Buffer.read ("player_".length + 2)
  let players_list ← readPlayers []
  return (data, players_list)

theorem wireLength_le_of_parseFrom {b b' : Buffer} {data data' : RawQueryResponse}
    {players : List (List Char)} (h : parseFrom data b = .ok (data', players) b')
    : wireLength players + 12 ≤ b.remaining := by
  rcases bind_eq_ok.mp h with ⟨_, c, hdata, h⟩
  rcases bind_eq_ok.mp h with ⟨marker, c', hmarker, h⟩
  rcases bind_eq_ok.mp h with ⟨_, c'', hplayers, h⟩
  rw [pure_apply, EStateM.Result.ok.injEq, Prod.mk.injEq] at h
  have h1 := remaining_of_readData hdata
  have hmarker : Buffer.read (9 : Nat) c = .ok marker c' := hmarker
  have h2 := remaining_of_read hmarker
  have h3 := remaining_of_readPlayers hplayers
  rw [h.1.2] at h3
  omega

theorem parseFrom_of_break {b c : Buffer} {data data' : RawQueryResponse}
    (h : dataStep data b = .ok (.inr data') c)
    : parseFrom data b = (do
        let _ ← Buffer.read ("player_".length + 2)
        let players_list ← readPlayers []
        return (data', players_list)) c := by
  have hread : readData data b = .ok data' c := loop_break h
  rw [parseFrom, bind_of_ok hread]

theorem parseFrom_of_continue {b c : Buffer} {data data' : RawQueryResponse}
    (h : dataStep data b = .ok (.inl data') c) : parseFrom data b = parseFrom data' c := by
  have hread : readData data b = readData data' c := loop_continue h
  simp only [parseFrom, bind, EStateM.bind, hread]

theorem parseFrom_of_throw {b c : Buffer} {data : RawQueryResponse} {e : Exception}
    (h : dataStep data b = .error e c) : parseFrom data b = .error e c := by
  have hread : readData data b = .error e c := loop_throw h
  rw [parseFrom, bind_of_error hread]

theorem dataStep_of_text {b b' : Buffer} {t : Text} {rest : List UInt8} {data : RawQueryResponse}
    {next : RawQueryResponse ⊕ RawQueryResponse} (ht : t.bytes ≠ [])
    (h : b.unreadView = t.encode ++ rest) (hstep : dataStep data b = .ok next b')
    : (∃ data', next = .inl data') ∧ b'.remaining < rest.length := by
  rcases consumes_text t b rest h with ⟨c, hkey, hview⟩
  have hrest : c.remaining = rest.length := by
    rw [← c.length_unreadView, hview]
  rw [dataStep, bind_of_ok hkey] at hstep
  split at hstep
  . rcases bind_eq_ok.mp hstep with ⟨view, d, hget, hstep⟩
    rw [get_apply, EStateM.Result.ok.injEq] at hget
    rcases bind_eq_ok.mp hstep with ⟨value, d', hvalue, hstep⟩
    rcases bind_eq_ok.mp hstep with ⟨nul, d'', hnul, hstep⟩
    rw [pure_apply, EStateM.Result.ok.injEq] at hstep
    have h1 := Buffer.remaining_le_of_read hvalue
    have h2 := Buffer.remaining_lt_of_read hnul
    rw [← hget.2] at h1
    rw [← hstep.1, ← hstep.2]
    exact ⟨⟨_, rfl⟩, by omega⟩
  . split at hstep
    . next hempty =>
      rw [List.length_eq_zero_iff, Latin1.decode_eq_nil] at hempty
      exact absurd hempty ht
    . rcases bind_eq_ok.mp hstep with ⟨value, d, hvalue, hstep⟩
      rw [pure_apply, EStateM.Result.ok.injEq] at hstep
      have := readAscii_remaining_lt hvalue
      rw [← hstep.1, ← hstep.2]
      exact ⟨⟨_, rfl⟩, by omega⟩

end OutOfStep

def rawOf (values : Values) : RawQueryResponse :=
  Key.all.foldl (store values) ∅

theorem store_comm (values : Values) (data : RawQueryResponse) (k l : Key)
    : store values (store values data k) l = store values (store values data l) k := by
  by_cases hkl : k = l
  . rw [hkl]
  . have hname : k.name ≠ l.name := fun heq => hkl (Key.name_inj heq)
    exact Finmap.insert_insert_of_ne data hname

theorem foldl_store_order (values : Values) (order : Order)
    : order.keys.foldl (store values) ∅ = rawOf values :=
  order.perm.foldl_eq' (fun k _ l _ data => store_comm values data k l) ∅

theorem lookup_rawOf_hostname (values : Values)
    : (rawOf values).lookup Key.hostname.name
        = some (Latin1.decode (values .hostname).bytes) := by
  have hother : ∀ (keys : List Key) (data : RawQueryResponse), .hostname ∉ keys →
      (keys.foldl (store values) data).lookup Key.hostname.name
        = data.lookup Key.hostname.name := by
    intro keys
    induction keys with
    | nil =>
      intro data _
      rfl
    | cons k keys ih =>
      intro data h
      rw [List.mem_cons, not_or] at h
      have hname : Key.hostname.name ≠ k.name := fun heq => h.1 (Key.name_inj heq)
      rw [List.foldl_cons, ih _ h.2, store, Finmap.lookup_insert_of_ne _ hname]
  rw [rawOf, Key.all, List.foldl_cons, hother _ _ (by decide), store, Finmap.lookup_insert]

theorem parseFrom_of_section {b : Buffer} {data : RawQueryResponse} {names : List Name}
    (h : b.unreadView = 0 :: (PlayerSection.recorded names).encode)
    : ∃ b', parseFrom data b = .ok (data, names.map fun name => Latin1.decode name.bytes) b' := by
  rw [recorded_encode, List.cons_append] at h
  rcases @dataStep_of_end data _ _ _ h with ⟨c, hstep, hview⟩
  have hsplit : c.unreadView = (marker.encode ++ [0]) ++ (encodeNames names ++ [0] ++ []) := by
    rw [hview]
    simp
  rcases consumes_read_bytes (marker.encode ++ [0]) c _ hsplit with ⟨d, hmarker, hview'⟩
  have hmarker : Buffer.read ("player_".length + 2) c = .ok (marker.encode ++ [0]) d := hmarker
  rcases consumes_readPlayers names [] d [] hview' with ⟨b', hplayers, -⟩
  refine ⟨b', ?_⟩
  rw [parseFrom_of_break hstep, bind_of_ok hmarker, bind_of_ok hplayers, pure_apply]
  rfl

section LastHostname

variable {b b' : Buffer} {data data' : RawQueryResponse} {t : Text} {names : List Name}

theorem length_encode_recorded (names : List Name)
    : (PlayerSection.recorded names).encode.length = (encodeNames names).length + 11 := by
  have : marker.encode.length = 8 := by decide
  rw [recorded_encode]
  simp only [List.length_append, List.length_cons, List.length_nil]
  omega

theorem parseFrom_of_cutNames {motd : List UInt8}
    (hsearch : searchMotd (0 :: (encodeNames names ++ [0])) = some motd)
    (h : b.unreadView = Key.hostname.text.encode
      ++ (t.bytes ++ 0 :: 0 :: (PlayerSection.recorded names).encode))
    : parseFrom data b ≠ .ok (data', names.map fun name => Latin1.decode name.bytes) b' := by
  intro hrun
  have hsection := searchMotd_section t names
  rcases searchMotd_eq_some hsearch with ⟨rest, hrest⟩
  rw [hsearch, Option.map_some] at hsection
  have hview : t.bytes ++ 0 :: 0 :: (PlayerSection.recorded names).encode
      = (t.bytes ++ 0 :: 0 :: 0x01 :: marker.encode ++ motd) ++ 0 :: rest := by
    rw [recorded_encode, List.append_assoc _ motd, ← hrest]
    simp
  rw [hview] at h hsection
  rcases @dataStep_of_hostname data _ _ _ _ h (by rw [hsection]; rfl) with ⟨c, hstep, hc⟩
  rw [parseFrom_of_continue hstep] at hrun
  have hbound := wireLength_le_of_parseFrom hrun
  have hlen := congrArg List.length hrest
  rw [wireLength_decode, ← c.length_unreadView, hc] at hbound
  simp only [List.length_cons, List.length_append, List.length_nil] at hlen
  omega

theorem hostname_of_parseFrom (hsearch : searchMotd (0 :: (encodeNames names ++ [0])) = none)
    (h : b.unreadView = Key.hostname.text.encode
      ++ (t.bytes ++ 0 :: 0 :: (PlayerSection.recorded names).encode))
    (hrun : parseFrom data b = .ok (data', names.map fun name => Latin1.decode name.bytes) b')
    : t.bytes = [] ∨ data'.lookup Key.hostname.name = some [] := by
  have hlength := length_encode_recorded names
  have hsection := searchMotd_section t names
  rw [hsearch, Option.map_none] at hsection
  rcases t with ⟨bytes, hfree⟩
  dsimp only at h hsection ⊢
  cases bytes with
  | nil => exact Or.inl rfl
  | cons byte bytes =>
    right
    rw [List.cons_append] at h hsection
    have hsearch' : (searchMotd ([] ++ byte :: (bytes
        ++ 0 :: 0 :: (PlayerSection.recorded names).encode))).getD [] = [] := by
      rw [List.nil_append, hsection]
      rfl
    rcases dataStep_of_hostname h hsearch' with ⟨c, hstep, hc⟩
    rw [parseFrom_of_continue hstep] at hrun
    cases bytes with
    | nil =>
      rcases dataStep_of_end hc with ⟨d, hend, -⟩
      rw [parseFrom_of_break hend] at hrun
      rcases bind_eq_ok.mp hrun with ⟨_, _, -, hrun⟩
      rcases bind_eq_ok.mp hrun with ⟨_, _, -, hrun⟩
      rw [pure_apply, EStateM.Result.ok.injEq, Prod.mk.injEq] at hrun
      rw [← hrun.1.1, Finmap.lookup_insert]
      rfl
    | cons byte' bytes =>
      -- that key takes bytes which the names need
      have hfree' : 0 ∉ byte' :: bytes := fun hmem => hfree (List.mem_cons_of_mem _ hmem)
      have hc : c.unreadView = Text.encode { bytes := byte' :: bytes, nulFree := hfree' }
          ++ 0 :: (PlayerSection.recorded names).encode := by
        rw [hc]
        simp [Text.encode]
      have hne : byte' :: bytes ≠ [] := by simp
      cases hnext : dataStep (Finmap.insert Key.hostname.name (Latin1.decode []) data) c with
      | error e d =>
        rw [parseFrom_of_throw hnext] at hrun
        simp at hrun
      | ok next d =>
        rcases dataStep_of_text hne hc hnext with ⟨⟨data', rfl⟩, hlt⟩
        rw [parseFrom_of_continue hnext] at hrun
        have hbound := wireLength_le_of_parseFrom hrun
        rw [wireLength_decode] at hbound
        rw [List.length_cons] at hlt
        omega

theorem parseFrom_of_emptyHostname (hnames : ∀ name ∈ names, ¬ StartsWithKey name.bytes)
    (h : b.unreadView = Key.hostname.text.encode
      ++ 0 :: 0 :: (PlayerSection.recorded names).encode)
    : ∃ b', parseFrom data b
        = .ok (data.insert Key.hostname.name [], names.map fun name => Latin1.decode name.bytes)
          b' := by
  have hsection := searchMotd_section { bytes := [], nulFree := by simp } names
  rw [searchMotd_names hnames, Option.map_none, List.nil_append] at hsection
  rcases @dataStep_of_hostname data _ _ [] 0 h (by rw [List.nil_append, hsection]; rfl)
    with ⟨c, hstep, hc⟩
  rcases parseFrom_of_section hc with ⟨b', hrun⟩
  exact ⟨b', (parseFrom_of_continue hstep).trans hrun⟩

end LastHostname

/--
With `hostname` last the MOTD comes out empty and loses its first byte, or it runs on into the
names. The response is read back only when there is nothing to lose.
-/
theorem parseFrom_of_hostname_iff {b : Buffer} {keys : List Key} {values : Values}
    {names : List Name}
    (hraw : rawOf values = store values (keys.foldl (store values) ∅) .hostname)
    (h : b.unreadView = Key.hostname.text.encode
      ++ ((values .hostname).bytes ++ 0 :: 0 :: (PlayerSection.recorded names).encode))
    : (∃ b', parseFrom (keys.foldl (store values) ∅) b
          = .ok (rawOf values, names.map fun name => Latin1.decode name.bytes) b')
        ↔
      (values .hostname).bytes = [] ∧ ∀ name ∈ names, ¬ StartsWithKey name.bytes := by
  constructor
  . rintro ⟨b', hrun⟩
    cases hsearch : searchMotd (0 :: (encodeNames names ++ [0])) with
    | some motd => exact absurd hrun (parseFrom_of_cutNames hsearch h)
    | none =>
      constructor
      . rcases hostname_of_parseFrom hsearch h hrun with hempty | hlookup
        . exact hempty
        . rw [lookup_rawOf_hostname, Option.some.injEq] at hlookup
          exact Latin1.decode_eq_nil.mp hlookup
      . intro name hmem hkey
        have := searchMotd_names_isSome hmem hkey
        simp [hsearch] at this
  . rintro ⟨hempty, hnames⟩
    rw [hempty, List.nil_append] at h
    rw [hraw, store, hempty]
    exact parseFrom_of_emptyHostname hnames h

/--
The Python parser reads back every response whose last key is not `hostname`, and of the others
those with an empty MOTD and no player whose name starts with a known key.
-/
theorem parseResponse_stat_iff (padding : Vector UInt8 11) (order : Order) (values : Values)
    (names : List Name)
    : (∃ b, parseResponse
            (Buffer.ofBytes (padding.toList ++ encodeBody values order (.recorded names)))
          = .ok (rawOf values, names.map fun name => Latin1.decode name.bytes) b)
        ↔
      order.keys.getLast? ≠ some .hostname
        ∨ ((values .hostname).bytes = [] ∧ ∀ name ∈ names, ¬ StartsWithKey name.bytes) := by
  rcases consumes_read_bytes padding.toList
    (Buffer.ofBytes (padding.toList ++ encodeBody values order (.recorded names)))
    (encodeBody values order (.recorded names)) rfl with ⟨b, hread, hview⟩
  have hparse : parseResponse
      (Buffer.ofBytes (padding.toList ++ encodeBody values order (.recorded names)))
      = parseFrom ∅ b := by
    have hlen : ((padding.toList.length : Nat) : Int) = "splitnum".length + 3 := by
      rw [Vector.length_toList]
      rfl
    rw [hlen] at hread
    rw [parseResponse, bind_of_ok hread]
    rfl
  rw [hparse]
  by_cases hlast : order.keys.getLast? = some .hostname
  . rcases Order.eq_append_of_getLast hlast with ⟨keys, hkeys, hnodup, hinit⟩
    rw [encodeBody, hkeys, pairs_append, List.append_assoc] at hview
    rcases readData_of_pairs ∅ hnodup hinit hview with ⟨c, hdata, hc⟩
    have hrun : parseFrom ∅ b = parseFrom (keys.foldl (store values) ∅) c := by
      simp only [parseFrom, bind, EStateM.bind, hdata]
    have hraw : rawOf values = store values (keys.foldl (store values) ∅) .hostname := by
      rw [← foldl_store_order values order, hkeys, List.foldl_append]
      rfl
    rw [hrun, parseFrom_of_hostname_iff hraw (by simpa [pair, Text.encode] using hc)]
    simp [hlast]
  . simp only [ne_eq, hlast, not_false_eq_true, true_or, iff_true]
    rcases readData_of_pairs ∅ order.nodup hlast hview with ⟨c, hdata, hc⟩
    have hrun : parseFrom ∅ b = parseFrom (order.keys.foldl (store values) ∅) c := by
      simp only [parseFrom, bind, EStateM.bind, hdata]
    rw [hrun, foldl_store_order]
    exact parseFrom_of_section hc

def motdLast : Order where
  keys := [.gametype, .game_id, .version, .plugins, .map, .numplayers, .maxplayers, .hostport,
    .hostip, .hostname]
  perm := by decide

def named : Values := fun k =>
  if k = .hostname then { bytes := Latin1.encode "A Server".toList, nulFree := by decide }
  else Text.empty

/-- The MOTD is lost, so the round trip does not hold of every response. -/
theorem parseResponse_motdLast
    : ¬ (∃ b, parseResponse (Buffer.ofBytes (List.replicate 11 0
          ++ encodeBody named motdLast (.recorded [])))
        = .ok (rawOf named, []) b)
      ∧ ¬ ∀ (padding : Vector UInt8 11) (order : Order) (values : Values) (names : List Name),
          ∃ b, parseResponse
              (Buffer.ofBytes (padding.toList ++ encodeBody values order (.recorded names)))
            = .ok (rawOf values, names.map fun name => Latin1.decode name.bytes) b := by
  have hlost : ¬ (∃ b, parseResponse (Buffer.ofBytes (List.replicate 11 0
      ++ encodeBody named motdLast (.recorded []))) = .ok (rawOf named, []) b) := by
    rintro ⟨b, h⟩
    have hread : (match parseResponse (Buffer.ofBytes (List.replicate 11 0
        ++ encodeBody named motdLast (.recorded []))) with
        | .ok (raw, _) _ => raw.lookup "hostname".toList
        | .error _ _ => none) ≠ (rawOf named).lookup "hostname".toList := by
      decide +kernel
    rw [h] at hread
    exact hread rfl
  refine ⟨hlost, fun h => ?_⟩
  exact hlost (h (Vector.replicate 11 0) motdLast named [])

end QueryClient

end Python

end McStatus
