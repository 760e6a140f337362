import McStatus.Rust.Basic

/-!
This module contains the GS4 query response parser of `src/protocol/query.rs`. The loops of
`parse_response` run over a body and a cursor, with the checks on the cursor where the code has
them, so a read out of range is a panic here too.
-/

namespace McStatus

open Fallible

namespace Rust

structure RawQueryResponse where
  hostname : Option (List Char) := none
  gametype : Option (List Char) := none
  game_id : Option (List Char) := none
  version : Option (List Char) := none
  plugins : Option (List Char) := none
  map : Option (List Char) := none
  numplayers : Option UInt32 := none
  maxplayers : Option UInt32 := none
  hostport : Option UInt16 := none
  hostip : Option (List Char) := none
  players : List (List Char) := []
  software : Option (List Char) := none
  deriving DecidableEq, Repr

namespace QueryClient

def readNullTerminatedIso (data : List UInt8) : Exec (List Char) :=
  let stop := data.findIdx (· == 0)
  pure (Latin1.decode (data.take stop))

/-- `find_subsequence`: the windows of the needle's length, and the first one equal to it. -/
def findSubsequence (haystack needle : List UInt8) : Option Nat :=
  (windows haystack).findIdx? (· == needle)
where
  windows (haystack : List UInt8) : List (List UInt8) :=
    (List.range (haystack.length + 1 - needle.length)).map fun i =>
      (haystack.drop i).take needle.length

def knownKeys : List (List Char) :=
  ["hostip".toList, "hostport".toList, "game_id".toList, "gametype".toList, "map".toList,
    "maxplayers".toList, "numplayers".toList, "plugins".toList, "version".toList]

/-- `while pos < body.len() && body[pos] != 0x00 { pos += 1; }` -/
def skipToNull (body : List UInt8) (pos : Nat) : Nat :=
  if h : pos < body.length then
    if body[pos] ≠ 0x00 then skipToNull body (pos + 1) else pos
  else
    pos
termination_by body.length - pos

/-- `if pos < body.len() && body[pos] == byte { pos += 1; }` -/
def skipByte (body : List UInt8) (byte : UInt8) (pos : Nat) : Nat :=
  if body[pos]? = some byte then pos + 1 else pos

/-- The match on a key other than `hostname`: unknown keys are skipped. -/
def assign (raw : RawQueryResponse) (key value : List Char) : RawQueryResponse :=
  if key = "numplayers".toList then { raw with numplayers := parseU32 value }
  else if key = "maxplayers".toList then { raw with maxplayers := parseU32 value }
  else if key = "hostport".toList then { raw with hostport := parseU16 value }
  else if key = "hostip".toList then { raw with hostip := some value }
  else if key = "gametype".toList then { raw with gametype := some value }
  else if key = "game_id".toList then { raw with game_id := some value }
  else if key = "map".toList then { raw with map := some value }
  else if key = "version".toList then { raw with version := some value }
  else if key = "plugins".toList then { raw with plugins := some value }
  else raw

/-- `found_key_idx`: where the first `\0{key}\0` of a known key starts in `rest`. -/
def foundKeyIdx (rest : List UInt8) : Option Nat :=
  knownKeys.foldl
    (fun found k =>
      match findSubsequence rest (Utf8.encode ('\x00' :: k ++ ['\x00'])) with
      | some idx => if found.all (idx < ·) then some idx else found
      | none => found)
    none

/-- The fallback for the end of the MOTD: `e` moves on until a double null or the last byte. -/
def readUntilDoubleNull (body : List UInt8) (e : Nat) : Nat :=
  if e < body.length - 1 ∧ ¬ (body[e]? = some 0x00 ∧ body[e + 1]? = some 0x00) then
    readUntilDoubleNull body (e + 1)
  else
    e
termination_by body.length - e

def motdEnd (body : List UInt8) (pos : Nat) : Exec Nat := do
  let rest ← sliceFrom body pos
  match foundKeyIdx rest with
  | some idx => return pos + idx
  | none => return readUntilDoubleNull body pos

/-- The branch of the key/value loop that reads the MOTD, with the cursor after its key. -/
def readHostname (body : List UInt8) (raw : RawQueryResponse) (pos : Nat)
    : Exec (RawQueryResponse × Nat) := do
  let stop ← motdEnd body pos
  if stop > pos then
    let bytes ← slice body pos stop
    let hostname := (Utf8.decode? bytes).getD []
    return ({ raw with hostname := some hostname }, skipByte body 0x00 stop)
  else
    return (raw, skipByte body 0x00 stop)

def keyValueStep (body : List UInt8) (state : RawQueryResponse × Nat)
    : Exec ((RawQueryResponse × Nat) ⊕ (RawQueryResponse × Nat)) :=
  let (raw, pos) := state
  if pos ≥ body.length then
    return .inr (raw, pos)
  else do
    let key ← readNullTerminatedIso (← sliceFrom body pos)
    let pos := pos + (utf8Len key + 1)
    if key.isEmpty then
      return .inr (raw, skipByte body 0x00 pos)
    else if key = "hostname".toList then
      return .inl (← readHostname body raw pos)
    else
      let value ← readNullTerminatedIso (← sliceFrom body pos)
      return .inl (assign raw key value, pos + (utf8Len value + 1))

theorem le_readUntilDoubleNull (body : List UInt8) (e : Nat) : e ≤ readUntilDoubleNull body e := by
  unfold readUntilDoubleNull
  split
  . have := le_readUntilDoubleNull body (e + 1)
    omega
  . omega
termination_by body.length - e

theorem le_skipByte (body : List UInt8) (byte : UInt8) (pos : Nat)
    : pos ≤ skipByte body byte pos := by
  unfold skipByte
  split <;> omega

theorem le_of_motdEnd {body : List UInt8} {pos stop : Nat} (h : motdEnd body pos = .ok stop)
    : pos ≤ stop := by
  have hread := le_readUntilDoubleNull body pos
  simp only [motdEnd, bind_eq_ok] at h
  rcases h with ⟨rest, -, h⟩
  cases hfound : foundKeyIdx rest with
  | some idx =>
    simp only [hfound, pure_eq_ok, Except.ok.injEq] at h
    omega
  | none =>
    simp only [hfound, pure_eq_ok, Except.ok.injEq] at h
    omega

theorem le_of_readHostname {body : List UInt8} {raw raw' : RawQueryResponse} {pos pos' : Nat}
    (h : readHostname body raw pos = .ok (raw', pos')) : pos ≤ pos' := by
  simp only [readHostname, bind_eq_ok] at h
  rcases h with ⟨stop, hstop, h⟩
  have hle := le_of_motdEnd hstop
  have hskip := le_skipByte body 0x00 stop
  split at h
  . simp only [bind_eq_ok] at h
    rcases h with ⟨bytes, -, h⟩
    simp only [pure_eq_ok, Except.ok.injEq, Prod.mk.injEq] at h
    omega
  . simp only [pure_eq_ok, Except.ok.injEq, Prod.mk.injEq] at h
    omega

theorem keyValueStep_lt {body : List UInt8} {raw raw' : RawQueryResponse} {pos pos' : Nat}
    (h : keyValueStep body (raw, pos) = .ok (.inl (raw', pos')))
    : pos < pos' ∧ pos < body.length := by
  unfold keyValueStep at h
  simp only at h
  split at h
  . simp at h
  . simp only [bind_eq_ok] at h
    rcases h with ⟨rest, -, key, -, h⟩
    split at h
    . simp at h
    . split at h
      . simp only [bind_eq_ok] at h
        rcases h with ⟨⟨raw'', pos''⟩, hread, h⟩
        have := le_of_readHostname hread
        simp only [pure_eq_ok, Except.ok.injEq, Sum.inl.injEq, Prod.mk.injEq] at h
        omega
      . simp only [bind_eq_ok] at h
        rcases h with ⟨_, -, value, -, h⟩
        simp only [pure_eq_ok, Except.ok.injEq, Sum.inl.injEq, Prod.mk.injEq] at h
        omega

def readKeyValues (body : List UInt8) (raw : RawQueryResponse) (pos : Nat)
    : Exec (RawQueryResponse × Nat) :=
  Loop.run (fun state => body.length - state.2) (keyValueStep body)
    (by
      intro s s' h
      have := keyValueStep_lt h
      omega)
    (raw, pos)

def playerStep (body : List UInt8) (state : List (List Char) × Nat)
    : Exec ((List (List Char) × Nat) ⊕ List (List Char)) :=
  let (players, pos) := state
  if pos ≥ body.length then
    return .inr players
  else do
    let player ← readNullTerminatedIso (← sliceFrom body pos)
    let pos := pos + (utf8Len player + 1)
    if player.isEmpty then
      return .inr players
    else
      return .inl (players ++ [player], pos)

theorem playerStep_lt {body : List UInt8} {players players' : List (List Char)} {pos pos' : Nat}
    (h : playerStep body (players, pos) = .ok (.inl (players', pos')))
    : pos < pos' ∧ pos < body.length := by
  unfold playerStep at h
  simp only at h
  split at h
  . simp at h
  . simp only [bind_eq_ok] at h
    rcases h with ⟨rest, -, player, -, h⟩
    split at h
    . simp at h
    . simp only [pure_eq_ok, Except.ok.injEq, Sum.inl.injEq, Prod.mk.injEq] at h
      omega

/-- The loop over player names, from the byte after the marker. -/
def readPlayerNames (body : List UInt8) (pos : Nat) : Exec (List (List Char)) :=
  Loop.run (fun state => body.length - state.2) (playerStep body)
    (by
      intro s s' h
      have := playerStep_lt h
      omega)
    ([], pos)

def playersStep (body : List UInt8) (pos : Nat) : Exec (Nat ⊕ List (List Char)) :=
  if pos ≥ body.length then
    return .inr []
  else do
    let byte ← index body pos
    if byte = 0x00 then
      return .inl (pos + 1)
    else if byte = 0x01 then
      let pos := pos + 1
      let marker ← readNullTerminatedIso (← sliceFrom body pos)
      if marker = "player_".toList then
        return .inr (← readPlayerNames body (pos + (utf8Len marker + 1)))
      else
        afterMarker body pos
    else
      afterMarker body pos
where
  afterMarker (body : List UInt8) (pos : Nat) : Exec (Nat ⊕ List (List Char)) := do
    if (← index body pos) = 0x00 then
      return .inl (pos + 1)
    else
      return .inr []

theorem playersStep_lt {body : List UInt8} {pos pos' : Nat}
    (h : playersStep body pos = .ok (.inl pos')) : pos < pos' ∧ pos < body.length := by
  have hmarker : ∀ p, playersStep.afterMarker body p = .ok (.inl pos') → p < pos' := by
    intro p hp
    simp only [playersStep.afterMarker, bind_eq_ok] at hp
    rcases hp with ⟨byte, -, hp⟩
    split at hp
    . simp only [pure_eq_ok, Except.ok.injEq, Sum.inl.injEq] at hp
      omega
    . simp at hp
  unfold playersStep at h
  split at h
  . simp at h
  . simp only [bind_eq_ok] at h
    rcases h with ⟨byte, -, h⟩
    split at h
    . simp only [pure_eq_ok, Except.ok.injEq, Sum.inl.injEq] at h
      omega
    . split at h
      . simp only [bind_eq_ok] at h
        rcases h with ⟨rest, -, marker, -, h⟩
        split at h
        . simp only [bind_eq_ok] at h
          rcases h with ⟨_, -, h⟩
          simp at h
        . have := hmarker _ h
          omega
      . have := hmarker _ h
        omega

def readPlayers (body : List UInt8) (pos : Nat) : Exec (List (List Char)) :=
  Loop.run (fun pos => body.length - pos) (playersStep body)
    (by
      intro s s' h
      have := playersStep_lt h
      omega)
    pos

def parseResponse (data : List UInt8) : Exec (RawQueryResponse × List (List Char)) := do
  let offset := 1 + 4 + 4
  if data.length < offset + 13 then
    throw (.error (.protocol "Query response too short"))
  else
    let body ← sliceFrom data offset
    let pos := skipToNull body 0
    let pos := pos + 1
    let pos := skipByte body 0x80 pos
    let pos := skipByte body 0x00 pos
    let (raw, pos) ← readKeyValues body {} pos
    let players ← readPlayers body pos
    return (raw, players)

end QueryClient

end Rust

end McStatus
