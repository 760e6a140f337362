import Mathlib.Data.Finmap
import McStatus.Python.Io.Buffer

/-!
This module contains the query response parser of `mcstatus/_protocol/query_client.py`.
-/

namespace McStatus

open Reader

namespace Python

/-- The `dict` of a response. Dicts are equal when they map the same keys to the same values. -/
abbrev RawQueryResponse := Finmap fun _ : List Char => List Char

namespace QueryClient

open BaseSyncReader

/-- The alternatives of the regular expression that finds the end of the MOTD. -/
def knownKeys : List (List Char) :=
  ["hostip".toList, "hostport".toList, "game_id".toList, "gametype".toList, "map".toList,
    "maxplayers".toList, "numplayers".toList, "plugins".toList, "version".toList]

def StartsWithKey (view : List UInt8) : Prop :=
  ∃ k ∈ knownKeys, Latin1.encode k <+: view

instance (view : List UInt8) : Decidable (StartsWithKey view) :=
  inferInstanceAs (Decidable (∃ k ∈ knownKeys, Latin1.encode k <+: view))

/-- `re.search(rb"(.*?)\x00(hostip|...|version)", view, flags=re.DOTALL)` and its first group. -/
def searchMotd (view : List UInt8) : Option (List UInt8) :=
  match view with
  | [] => none
  | b :: rest =>
    if b = 0x00 ∧ StartsWithKey rest then
      some []
    else
      (searchMotd rest).map (b :: ·)

def dataStep (data : RawQueryResponse) : Py Buffer (RawQueryResponse ⊕ RawQueryResponse) := do
  let key ← readAscii
  if key = "hostname".toList then
    let view := (← get).unreadView
    let motd := (searchMotd view).getD []
    let value ← Buffer.read motd.length
    let _ ← Buffer.read 1
    return .inl (data.insert key (Latin1.decode value))
  else if key.length = 0 then
    let _ ← Buffer.read 1
    return .inr data
  else
    let value ← readAscii
    return .inl (data.insert key value)

theorem readAscii_remaining_lt {b b' : Buffer} {text : List Char}
    (h : readAscii b = .ok text b') : b'.remaining < b.remaining :=
  readAscii_lt h

theorem dataStep_lt {data data' : RawQueryResponse} {b b' : Buffer}
    (h : dataStep data b = .ok (.inl data') b') : b'.remaining < b.remaining := by
  rcases bind_eq_ok.mp h with ⟨key, c, hkey, h⟩
  have hlt := readAscii_remaining_lt hkey
  split at h
  . rcases bind_eq_ok.mp h with ⟨view, c', hget, h⟩
    rw [get_apply, EStateM.Result.ok.injEq] at hget
    rcases bind_eq_ok.mp h with ⟨value, d, hvalue, h⟩
    rcases bind_eq_ok.mp h with ⟨nul, d', hnul, h⟩
    have h1 := Buffer.remaining_le_of_read hvalue
    have h2 := Buffer.remaining_le_of_read hnul
    rw [pure_apply, EStateM.Result.ok.injEq] at h
    rw [← hget.2] at h1
    rw [← h.2]
    omega
  . split at h
    . rcases bind_eq_ok.mp h with ⟨nul, d', hnul, h⟩
      simp at h
    . rcases bind_eq_ok.mp h with ⟨value, d, hvalue, h⟩
      have h1 := readAscii_remaining_lt hvalue
      rw [pure_apply, EStateM.Result.ok.injEq] at h
      rw [← h.2]
      omega

def readData (data : RawQueryResponse) : Py Buffer RawQueryResponse :=
  loop Buffer.remaining dataStep (fun _ _ _ _ h => dataStep_lt h) data

def playersStep (players_list : List (List Char))
    : Py Buffer (List (List Char) ⊕ List (List Char)) := do
  let player ← readAscii
  if player.length = 0 then
    return .inr players_list
  else
    return .inl (players_list ++ [player])

theorem playersStep_lt {players players' : List (List Char)} {b b' : Buffer}
    (h : playersStep players b = .ok (.inl players') b') : b'.remaining < b.remaining := by
  rcases bind_eq_ok.mp h with ⟨player, c, hplayer, h⟩
  have hlt := readAscii_remaining_lt hplayer
  split at h
  . simp at h
  . rw [pure_apply, EStateM.Result.ok.injEq] at h
    exact h.2 ▸ hlt

def readPlayers (players_list : List (List Char)) : Py Buffer (List (List Char)) :=
  loop Buffer.remaining playersStep (fun _ _ _ _ h => playersStep_lt h) players_list

def parseResponse : Py Buffer (RawQueryResponse × List (List Char)) := do
  let _ ← Buffer.read ("splitnum".length + 3)
  let data ← readData ∅
  let _ ← Buffer.read ("player_".length + 2)
  let players_list ← readPlayers []
  return (data, players_list)

end QueryClient

end Python

end McStatus
