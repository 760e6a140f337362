import McStatus.Rust.Query.Lemmas.Search

/-!
This module describes one iteration of each loop of `parse_response` by the bytes from the cursor
on. The loops are used through these lemmas only.
-/

namespace McStatus

open Fallible

namespace Rust

namespace QueryClient

@[simp]
theorem readNullTerminatedIso_eq (data : List UInt8)
    : readNullTerminatedIso data = .ok (Latin1.decode (nulText data)) := by
  simp only [readNullTerminatedIso, take_findIdx_eq_nulText]
  rfl

def dropByte (byte : UInt8) (s : List UInt8) : List UInt8 :=
  match s with
  | [] => []
  | b :: r => if b = byte then r else b :: r

theorem drop_skipByte (body : List UInt8) (byte : UInt8) (pos : Nat)
    : body.drop (skipByte body byte pos) = dropByte byte (body.drop pos) := by
  have hhead : body[pos]? = (body.drop pos).head? := by simp
  have htail : body.drop (pos + 1) = (body.drop pos).tail := by simp
  rw [skipByte, hhead]
  cases hs : body.drop pos with
  | nil => simp [hs, dropByte]
  | cons b r =>
    rw [hs] at htail
    simp only [List.head?_cons, Option.some.injEq, dropByte]
    split
    . simpa using htail
    . exact hs

theorem skipToNull_eq (body : List UInt8) (pos : Nat) (h : pos ≤ body.length)
    : skipToNull body pos = pos + (nulText (body.drop pos)).length := by
  unfold skipToNull
  split
  . next hlt =>
    rw [List.drop_eq_getElem_cons hlt]
    split
    . next hne =>
      rw [skipToNull_eq body (pos + 1) (by omega)]
      simp only [nulText, List.takeWhile_cons, bne_iff_ne, ne_eq, hne, not_false_eq_true,
        ↓reduceIte, List.length_cons]
      omega
    . next heq =>
      have heq : body[pos] = 0 := by simpa using heq
      simp [heq]
  . have : pos = body.length := by omega
    simp [this]
termination_by body.length - pos

theorem keyValueStep_of_le {body : List UInt8} {raw : RawQueryResponse} {pos : Nat}
    (h : body.length ≤ pos) : keyValueStep body (raw, pos) = .ok (.inr (raw, pos)) := by
  simp [keyValueStep, h]

theorem keyValueStep_of_lt {body : List UInt8} {raw : RawQueryResponse} {pos : Nat}
    (h : pos < body.length)
    : keyValueStep body (raw, pos)
        =
      let key := nulText (body.drop pos)
      let pos' := pos + advance key
      if key = [] then
        .ok (.inr (raw, skipByte body 0x00 pos'))
      else if Latin1.decode key = "hostname".toList then
        readHostname body raw pos' >>= fun state => .ok (.inl state)
      else
        sliceFrom body pos' >>= fun rest =>
          .ok (.inl (assign raw (Latin1.decode key) (Latin1.decode (nulText rest)),
            pos' + advance (nulText rest))) := by
  have hnot : ¬ (pos ≥ body.length) := by omega
  simp only [keyValueStep, hnot, ↓reduceIte, sliceFrom_of_le (Nat.le_of_lt h), ok_bind,
    readNullTerminatedIso_eq, List.isEmpty_iff, Latin1.decode_eq_nil, pure_eq_ok, advance]

theorem readHostname_spec {body : List UInt8} {pos : Nat} (raw : RawQueryResponse)
    (h : pos ≤ body.length)
    : ∃ motd tail, body.drop pos = motd ++ tail ∧ MotdEnds motd tail
        ∧ readHostname body raw pos
            =
          .ok (if motd = [] then raw else
                { raw with hostname := some ((Utf8.decode? motd).getD []) },
              skipByte body 0x00 (pos + motd.length)) := by
  rcases motdEnd_spec h with ⟨motd, tail, hstop, hsplit, hends⟩
  refine ⟨motd, tail, hsplit, hends, ?_⟩
  have hlen := congrArg List.length hsplit
  simp only [List.length_drop, List.length_append] at hlen
  simp only [readHostname, hstop, ok_bind]
  cases motd with
  | nil => simp
  | cons b r =>
    have hgt : pos + (b :: r).length > pos := by simp
    have hslice : slice body pos (pos + (b :: r).length) = .ok (b :: r) := by
      rw [slice_of_le (Nat.le_of_lt hgt) (by omega), hsplit]
      simp
    simp only [hgt, ↓reduceIte, hslice, ok_bind, pure_eq_ok, reduceCtorEq]

/--
One iteration over the pairs, by the bytes from the cursor on. A key that is cut off by the end of
the data leaves nothing to slice.
-/
inductive KeyValueStep (body : List UInt8) (raw : RawQueryResponse) (pos : Nat)
    : List UInt8 → Exec ((RawQueryResponse × Nat) ⊕ (RawQueryResponse × Nat)) → Prop where
  | nil : KeyValueStep body raw pos [] (.ok (.inr (raw, pos)))
  | done {r : List UInt8} :
      KeyValueStep body raw pos (0x00 :: r) (.ok (.inr (raw, skipByte body 0x00 (pos + 1))))
  | cutKey {s : List UInt8} :
      nulText s ≠ [] → s.length < advance (nulText s) → KeyValueStep body raw pos s (.error .panic)
  | hostname {s motd tail : List UInt8} :
      Latin1.decode (nulText s) = "hostname".toList → advance (nulText s) ≤ s.length →
      s.drop (advance (nulText s)) = motd ++ tail → MotdEnds motd tail →
      KeyValueStep body raw pos s
        (.ok (.inl (if motd = [] then raw else
            { raw with hostname := some ((Utf8.decode? motd).getD []) },
          skipByte body 0x00 (pos + advance (nulText s) + motd.length))))
  | pair {s rest : List UInt8} :
      nulText s ≠ [] → Latin1.decode (nulText s) ≠ "hostname".toList →
      advance (nulText s) ≤ s.length → s.drop (advance (nulText s)) = rest →
      KeyValueStep body raw pos s
        (.ok (.inl (assign raw (Latin1.decode (nulText s)) (Latin1.decode (nulText rest)),
          pos + advance (nulText s) + advance (nulText rest))))

theorem keyValueStep_spec (body : List UInt8) (raw : RawQueryResponse) (pos : Nat)
    : KeyValueStep body raw pos (body.drop pos) (keyValueStep body (raw, pos)) := by
  have hlen := @List.length_drop _ pos body
  have hdrop : ∀ n, (body.drop pos).drop n = body.drop (pos + n) := fun n => List.drop_drop
  cases Nat.lt_or_ge pos body.length with
  | inr hge =>
    rw [keyValueStep_of_le hge, List.drop_of_length_le hge]
    exact .nil
  | inl hlt =>
    rw [keyValueStep_of_lt hlt]
    dsimp only
    split
    . next hkey =>
      rcases nulText_eq_nil.mp hkey with hnil | ⟨r, hr⟩
      . rw [hnil, List.length_nil] at hlen
        omega
      . rw [hr]
        exact .done
    . next hkey =>
      cases Nat.lt_or_ge (body.drop pos).length (advance (nulText (body.drop pos))) with
      | inl hcut =>
        -- both branches slice behind the key, so both panic
        have hslice : sliceFrom body (pos + advance (nulText (body.drop pos))) = .error .panic :=
          sliceFrom_of_lt (by omega)
        have hpanic := @KeyValueStep.cutKey body raw pos _ hkey hcut
        split
        . simpa [readHostname, motdEnd, hslice] using hpanic
        . simpa [hslice] using hpanic
      | inr hfit =>
        have hle : pos + advance (nulText (body.drop pos)) ≤ body.length := by omega
        split
        . next hname =>
          rcases readHostname_spec raw hle with ⟨motd, tail, hsplit, hends, hread⟩
          rw [hread, ok_bind]
          exact .hostname hname hfit ((hdrop _).trans hsplit) hends
        . next hname =>
          rw [sliceFrom_of_le hle, ok_bind]
          exact .pair hkey hname hfit (hdrop _)

theorem playerStep_of_le {body : List UInt8} {players : List (List Char)} {pos : Nat}
    (h : body.length ≤ pos) : playerStep body (players, pos) = .ok (.inr players) := by
  simp [playerStep, h]

theorem playerStep_of_lt {body : List UInt8} {players : List (List Char)} {pos : Nat}
    (h : pos < body.length)
    : playerStep body (players, pos)
        =
      let player := nulText (body.drop pos)
      if player = [] then
        .ok (.inr players)
      else
        .ok (.inl (players ++ [Latin1.decode player], pos + advance player)) := by
  have hnot : ¬ (pos ≥ body.length) := by omega
  simp only [playerStep, hnot, ↓reduceIte, sliceFrom_of_le (Nat.le_of_lt h), ok_bind,
    readNullTerminatedIso_eq, List.isEmpty_iff, Latin1.decode_eq_nil, pure_eq_ok, advance]

theorem playerStep_ne_error (body : List UInt8) (state : List (List Char) × Nat) (e : Failure)
    : playerStep body state ≠ .error e := by
  rcases state with ⟨players, pos⟩
  intro h
  cases Nat.lt_or_ge pos body.length with
  | inl hlt =>
    rw [playerStep_of_lt hlt] at h
    dsimp only at h
    split at h <;> simp at h
  | inr hge => simp [playerStep_of_le hge] at h

theorem readPlayerNames_ok (body : List UInt8) (pos : Nat)
    : ∃ players, readPlayerNames body pos = .ok players := by
  refine Loop.run_induct (fun _ => True)
    (fun out : Exec (List (List Char)) => ∃ players, out = .ok players) ?_ ?_ ?_ _ trivial
  . intro s e _ h
    exact absurd h (playerStep_ne_error body s e)
  . intro s r _ _
    exact ⟨r, rfl⟩
  . intros
    trivial

theorem index_eq {body : List UInt8} {pos : Nat} {b : UInt8} {r : List UInt8}
    (h : body.drop pos = b :: r) : index body pos = .ok b := by
  have hhead : body[pos]? = (body.drop pos).head? := by simp
  simp [index, hhead, h]

theorem playersStep_of_le {body : List UInt8} {pos : Nat} (h : body.length ≤ pos)
    : playersStep body pos = .ok (.inr []) := by
  simp [playersStep, h]

theorem playersStep_of_cons {body : List UInt8} {pos : Nat} {b : UInt8} {r : List UInt8}
    (h : body.drop pos = b :: r)
    : playersStep body pos
        =
      if b = 0x00 then
        .ok (.inl (pos + 1))
      else if b = 0x01 then
        if nulText r = Latin1.encode "player_".toList then
          readPlayerNames body (pos + 9) >>= fun players => .ok (.inr players)
        else
          playersStep.afterMarker body (pos + 1)
      else
        .ok (.inr []) := by
  have hlen := congrArg List.length h
  simp only [List.length_drop, List.length_cons] at hlen
  have hnot : ¬ (pos ≥ body.length) := by omega
  have htail : body.drop (pos + 1) = r := by simpa using congrArg List.tail h
  have hslice : sliceFrom body (pos + 1) = .ok r := by
    rw [sliceFrom_of_le (by omega), htail]
  have hmarker : ∀ t, Latin1.decode t = "player_".toList ↔ t = Latin1.encode "player_".toList := by
    intro t
    exact Latin1.decode_eq_iff (by decide)
  have hreach : nulText r = Latin1.encode "player_".toList →
      utf8Len (Latin1.decode (nulText r)) = 7 := by
    intro heq
    rw [heq]
    decide
  simp only [playersStep, hnot, ↓reduceIte, index_eq h, ok_bind, hslice,
    readNullTerminatedIso_eq, hmarker, pure_eq_ok]
  split
  . rfl
  . split
    . split
      . next heq => rw [hreach heq]
      . rfl
    . next h0 _ => simp [playersStep.afterMarker, index_eq h, h0]

theorem afterMarker_of_cons {body : List UInt8} {pos : Nat} {b : UInt8} {r : List UInt8}
    (h : body.drop pos = b :: r)
    : playersStep.afterMarker body pos
        =
      if b = 0x00 then .ok (.inl (pos + 1)) else .ok (.inr []) := by
  simp [playersStep.afterMarker, index_eq h]

theorem afterMarker_of_le {body : List UInt8} {pos : Nat} (h : body.length ≤ pos)
    : playersStep.afterMarker body pos = .error .panic := by
  simp [playersStep.afterMarker, index, h]

/--
One iteration over the player section, by the bytes from the cursor on. A marker that is not
`player_` is skipped when it is empty.
-/
inductive PlayersStep (body : List UInt8) (pos : Nat)
    : List UInt8 → Exec (Nat ⊕ List (List Char)) → Prop where
  | nil : PlayersStep body pos [] (.ok (.inr []))
  | nul {r : List UInt8} : PlayersStep body pos (0x00 :: r) (.ok (.inl (pos + 1)))
  | other {b : UInt8} {r : List UInt8} :
      b ≠ 0x00 → b ≠ 0x01 → PlayersStep body pos (b :: r) (.ok (.inr []))
  | player {r : List UInt8} {players : List (List Char)} :
      nulText r = Latin1.encode "player_".toList → readPlayerNames body (pos + 9) = .ok players →
      PlayersStep body pos (0x01 :: r) (.ok (.inr players))
  | cutMarker : PlayersStep body pos [0x01] (.error .panic)
  | emptyMarker {r : List UInt8} : PlayersStep body pos (0x01 :: 0x00 :: r) (.ok (.inl (pos + 2)))
  | otherMarker {b : UInt8} {r : List UInt8} :
      b ≠ 0x00 → nulText (b :: r) ≠ Latin1.encode "player_".toList →
      PlayersStep body pos (0x01 :: b :: r) (.ok (.inr []))

theorem playersStep_spec (body : List UInt8) (pos : Nat)
    : PlayersStep body pos (body.drop pos) (playersStep body pos) := by
  cases hs : body.drop pos with
  | nil =>
    rw [playersStep_of_le (by simpa using hs)]
    exact .nil
  | cons b r =>
    have htail : body.drop (pos + 1) = r := by simpa using congrArg List.tail hs
    rw [playersStep_of_cons hs]
    split
    . next h0 =>
      subst h0
      exact .nul
    . next h0 =>
      split
      . next h1 =>
        subst h1
        split
        . next hplayer =>
          rcases readPlayerNames_ok body (pos + 9) with ⟨players, hplayers⟩
          rw [hplayers, ok_bind]
          exact .player hplayer hplayers
        . next hplayer =>
          cases r with
          | nil =>
            rw [afterMarker_of_le (by simpa using htail)]
            exact .cutMarker
          | cons c r =>
            rw [afterMarker_of_cons htail]
            split
            . next hc =>
              subst hc
              exact .emptyMarker
            . next hc => exact .otherMarker hc hplayer
      . next h1 => exact .other h0 h1

end QueryClient

end Rust

end McStatus
