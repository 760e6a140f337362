import McStatus.Rust.Query.Lemmas.Cursor

/-!
This module contains the responses on which `parse_response` panics: those where a key is cut off
by the end of the data, and those whose player section ends right after a 0x01 byte.
-/

namespace McStatus

open Fallible

namespace Rust

namespace QueryClient

theorem MotdEnds.length_le {motd tail motd' tail' : List UInt8} (h : MotdEnds motd tail)
    (h' : MotdEnds motd' tail') (heq : motd ++ tail = motd' ++ tail')
    : motd'.length ≤ motd.length := by
  apply Nat.le_of_not_lt
  intro hlt
  have hlen := congrArg List.length heq
  simp only [List.length_append] at hlen
  cases h with
  | key hmark _ =>
    have hat : KeyMark ((motd' ++ tail').drop motd.length) := by
      rw [← heq, List.drop_left]
      exact hmark
    cases h' with
    | key _ hfirst => exact hfirst _ hlt hat
    | doubleNull hnone _ => exact hnone _ hat
    | last hnone _ => exact hnone _ hat
    | nil => simp at hlt
  | doubleNull hkeys _ =>
    have hat : [0, 0] <+: (motd' ++ tail').drop motd.length := by
      rw [← heq, List.drop_left]
      exact ⟨_, rfl⟩
    cases h' with
    | key hmark _ =>
      apply hkeys motd'.length
      rw [heq, List.drop_left]
      exact hmark
    | doubleNull _ hfirst => exact hfirst _ hlt hat
    | last _ hfirst => exact hfirst _ hlt hat
    | nil => simp at hlt
  | last =>
    cases h' with
    | key hmark _ =>
      rcases hmark.exists_cons with ⟨r, rfl⟩
      simp only [List.length_cons, List.length_nil] at hlen
      omega
    | doubleNull =>
      simp only [List.length_cons, List.length_nil] at hlen
      omega
    | last =>
      simp only [List.length_cons, List.length_nil] at hlen
      omega
    | nil => simp at hlt
  | nil =>
    simp only [List.length_nil] at hlen hlt
    omega

theorem MotdEnds.unique {motd tail motd' tail' : List UInt8} (h : MotdEnds motd tail)
    (h' : MotdEnds motd' tail') (heq : motd ++ tail = motd' ++ tail')
    : motd = motd' ∧ tail = tail' := by
  apply List.append_inj heq
  have h1 := h.length_le h' heq
  have h2 := h'.length_le h heq.symm
  omega

/--
A player section that ends right after a 0x01 byte: apart from that byte it has NULs only, and
empty markers, which are a 0x01 byte and a NUL.
-/
inductive EndsInMarker : List UInt8 → Prop where
  | marker : EndsInMarker [0x01]
  | nul {s : List UInt8} : EndsInMarker s → EndsInMarker (0x00 :: s)
  | emptyMarker {s : List UInt8} : EndsInMarker s → EndsInMarker (0x01 :: 0x00 :: s)

/--
The bytes from a key on which make the parser run out of range. A text moves the cursor by its
UTF-8 length, so a key is cut short when fewer bytes than that and a NUL are left.
-/
inductive CutShort : List UInt8 → Prop where
  | key {s : List UInt8} :
      nulText s ≠ [] → s.length < advance (nulText s) → CutShort s
  | value {s rest : List UInt8} :
      nulText s ≠ [] → Latin1.decode (nulText s) ≠ "hostname".toList →
      rest = s.drop (advance (nulText s)) →
      CutShort (rest.drop (advance (nulText rest))) → CutShort s
  | motd {s motd tail : List UInt8} :
      Latin1.decode (nulText s) = "hostname".toList →
      s.drop (advance (nulText s)) = motd ++ tail → MotdEnds motd tail →
      CutShort (dropByte 0x00 tail) → CutShort s
  | players {s : List UInt8} : EndsInMarker s → CutShort (0x00 :: s)

theorem EndsInMarker.dropByte_iff {s : List UInt8}
    : EndsInMarker (dropByte 0x00 s) ↔ EndsInMarker s := by
  cases s with
  | nil => rfl
  | cons b r =>
    simp only [dropByte]
    split
    . next heq =>
      subst heq
      constructor
      . exact EndsInMarker.nul
      . intro h
        cases h
        assumption
    . rfl

theorem CutShort.iff_of_end {r : List UInt8} : CutShort (0x00 :: r) ↔ EndsInMarker r := by
  constructor
  . intro h
    cases h with
    | key hkey _ => simp at hkey
    | value hkey _ _ _ => simp at hkey
    | motd hkey _ _ _ => simp [Latin1.decode] at hkey
    | players hr => exact hr
  . exact CutShort.players

theorem CutShort.iff_of_pair {s : List UInt8} (hkey : nulText s ≠ [])
    (hname : Latin1.decode (nulText s) ≠ "hostname".toList)
    (hlen : advance (nulText s) ≤ s.length)
    : CutShort s
        ↔
      CutShort ((s.drop (advance (nulText s))).drop
        (advance (nulText (s.drop (advance (nulText s)))))) := by
  constructor
  . intro h
    cases h with
    | key _ hcut => omega
    | value _ _ hrest hcut => exact hrest ▸ hcut
    | motd hname' _ _ _ => exact absurd hname' hname
    | players _ => simp at hkey
  . exact CutShort.value hkey hname rfl

theorem CutShort.iff_of_hostname {s motd tail : List UInt8}
    (hname : Latin1.decode (nulText s) = "hostname".toList)
    (hlen : advance (nulText s) ≤ s.length)
    (hsplit : s.drop (advance (nulText s)) = motd ++ tail) (hends : MotdEnds motd tail)
    : CutShort s ↔ CutShort (dropByte 0x00 tail) := by
  constructor
  . intro h
    cases h with
    | key _ hcut => omega
    | value _ hname' _ _ => exact absurd hname hname'
    | motd _ hsplit' hends' hcut =>
      rw [(hends.unique hends' (hsplit.symm.trans hsplit')).2]
      exact hcut
    | players _ => simp [Latin1.decode] at hname
  . exact CutShort.motd hname hsplit hends

theorem CutShort.not_nil : ¬ CutShort [] := by
  intro h
  generalize hs : ([] : List UInt8) = s at h
  induction h with
  | key hkey _ => simp [← hs] at hkey
  | value hkey _ _ _ _ => simp [← hs] at hkey
  | motd hkey _ _ _ _ => simp [← hs, Latin1.decode] at hkey
  | players _ => simp at hs

theorem readPlayers_panic_iff (body : List UInt8) (pos : Nat)
    : readPlayers body pos = .error .panic ↔ EndsInMarker (body.drop pos) := by
  -- on the bytes left, with one case for each branch of an iteration
  induction hn : body.length - pos using Nat.strongRecOn generalizing pos with
  | ind n ih =>
    have hspec := playersStep_spec body pos
    have hlen := @List.length_drop _ pos body
    have htail := @List.tail_drop _ body pos
    have htail' := @List.tail_drop _ body (pos + 1)
    have hbreak : ∀ {players}, playersStep body pos = .ok (.inr players) →
        readPlayers body pos ≠ .error .panic := by
      intro players hstep
      have hrun : readPlayers body pos = .ok players := Loop.run_break hstep
      simp [hrun]
    generalize body.drop pos = s at hspec hlen htail ⊢
    generalize hstep : playersStep body pos = out at hspec
    cases hspec with
    | nil => exact iff_of_false (hbreak hstep) (by rintro ⟨⟩)
    | nul =>
      have hrun : readPlayers body pos = readPlayers body (pos + 1) := Loop.run_continue hstep
      rw [List.length_cons] at hlen
      rw [hrun, ih _ (by omega) (pos + 1) rfl, ← htail]
      exact ⟨.nul, by rintro ⟨⟩; assumption⟩
    | other h0 h1 =>
      refine iff_of_false (hbreak hstep) ?_
      intro h
      cases h <;> simp at h0 h1
    | player hplayer _ =>
      refine iff_of_false (hbreak hstep) ?_
      intro h
      cases h <;> simp [Latin1.encode] at hplayer
    | cutMarker =>
      have hrun : readPlayers body pos = .error .panic := Loop.run_throw hstep
      exact iff_of_true hrun .marker
    | emptyMarker =>
      have hrun : readPlayers body pos = readPlayers body (pos + 2) := Loop.run_continue hstep
      rw [List.length_cons] at hlen
      rw [hrun, ih _ (by omega) (pos + 2) rfl, ← htail', ← htail]
      exact ⟨.emptyMarker, by rintro ⟨⟩; assumption⟩
    | otherMarker hb _ =>
      refine iff_of_false (hbreak hstep) ?_
      intro h
      cases h
      simp at hb

theorem playersStep_ne_error (body : List UInt8) (pos : Nat) (e : McStatusError)
    : playersStep body pos ≠ .error (.error e) := by
  have hspec := playersStep_spec body pos
  intro h
  rw [h] at hspec
  generalize body.drop pos = s at hspec
  cases hspec

theorem readPlayers_ok {body : List UInt8} {pos : Nat} (h : ¬ EndsInMarker (body.drop pos))
    : ∃ players, readPlayers body pos = .ok players := by
  have hpanic : ∀ e, readPlayers body pos = .error e → e = .panic := by
    intro e
    refine Loop.run_error (fun e => e = Failure.panic) ?_
    rintro s (e | -) hstep
    . exact absurd hstep (playersStep_ne_error body s e)
    . rfl
  cases hrun : readPlayers body pos with
  | ok players => exact ⟨players, rfl⟩
  | error e =>
    rw [hpanic e hrun, readPlayers_panic_iff] at hrun
    exact absurd hrun h

def parseFrom (body : List UInt8) (raw : RawQueryResponse) (pos : Nat)
    : Exec (RawQueryResponse × List (List Char)) := do
  let (raw, pos) ← readKeyValues body raw pos
  let players ← readPlayers body pos
  return (raw, players)

theorem parseFrom_break {body : List UInt8} {raw raw' : RawQueryResponse} {pos pos' : Nat}
    (h : keyValueStep body (raw, pos) = .ok (.inr (raw', pos')))
    : parseFrom body raw pos = readPlayers body pos' >>= fun players => .ok (raw', players) := by
  have hrun : readKeyValues body raw pos = .ok (raw', pos') := Loop.run_break h
  simp [parseFrom, hrun]

theorem parseFrom_continue {body : List UInt8} {raw raw' : RawQueryResponse} {pos pos' : Nat}
    (h : keyValueStep body (raw, pos) = .ok (.inl (raw', pos')))
    : parseFrom body raw pos = parseFrom body raw' pos' := by
  have hrun : readKeyValues body raw pos = readKeyValues body raw' pos' := Loop.run_continue h
  simp [parseFrom, hrun]

theorem parseFrom_throw {body : List UInt8} {raw : RawQueryResponse} {pos : Nat} {e : Failure}
    (h : keyValueStep body (raw, pos) = .error e) : parseFrom body raw pos = .error e := by
  have hrun : readKeyValues body raw pos = .error e := Loop.run_throw h
  simp [parseFrom, hrun]

theorem parseFrom_panic_iff (body : List UInt8) (raw : RawQueryResponse) (pos : Nat)
    : parseFrom body raw pos = .error .panic ↔ CutShort (body.drop pos) := by
  -- on the bytes left: every key moves the cursor, whatever is stored for it
  induction hn : body.length - pos using Nat.strongRecOn generalizing raw pos with
  | ind n ih =>
    have hspec := keyValueStep_spec body raw pos
    have hlen := @List.length_drop _ pos body
    have hdrop : ∀ n, (body.drop pos).drop n = body.drop (pos + n) := fun n => List.drop_drop
    have hbreak : ∀ {pos'}, keyValueStep body (raw, pos) = .ok (.inr (raw, pos')) →
        (parseFrom body raw pos = .error .panic ↔ EndsInMarker (body.drop pos')) := by
      intro pos' hstep
      rw [parseFrom_break hstep, bind_eq_error, readPlayers_panic_iff]
      simp
    generalize hs : body.drop pos = s at hspec hlen hdrop ⊢
    generalize hstep : keyValueStep body (raw, pos) = out at hspec
    cases hspec with
    | nil =>
      rw [hbreak hstep, hs]
      exact iff_of_false (by rintro ⟨⟩) CutShort.not_nil
    | done =>
      rw [hbreak hstep, drop_skipByte, EndsInMarker.dropByte_iff, ← hdrop]
      exact CutShort.iff_of_end.symm
    | cutKey hkey hcut => exact iff_of_true (parseFrom_throw hstep) (CutShort.key hkey hcut)
    | @hostname _ motd tail hname hfit hsplit hends =>
      have hadvance := length_lt_advance (nulText s)
      have hskip := le_skipByte body 0x00 (pos + advance (nulText s) + motd.length)
      have hlt : pos < body.length := by omega
      rw [parseFrom_continue hstep, ih _ (by omega) _ _ rfl, drop_skipByte, ← List.drop_drop,
        ← hdrop, hsplit, List.drop_left]
      exact (CutShort.iff_of_hostname hname hfit hsplit hends).symm
    | pair hkey hname hfit hrest =>
      have hadvance := length_lt_advance (nulText s)
      have hlt : pos < body.length := by omega
      rw [parseFrom_continue hstep, ih _ (by omega) _ _ rfl, ← List.drop_drop, ← hdrop, ← hrest]
      exact (CutShort.iff_of_pair hkey hname hfit).symm

/-- The bytes from the first key on, behind the header, `splitnum` and its padding. -/
def keyValueSection (data : List UInt8) : List UInt8 :=
  let body := data.drop 9
  dropByte 0x00 (dropByte 0x80 (body.drop ((nulText body).length + 1)))

def Truncated (data : List UInt8) : Prop :=
  22 ≤ data.length ∧ CutShort (keyValueSection data)

theorem parseResponse_of_le {data : List UInt8} (h : 22 ≤ data.length)
    : ∃ pos, parseResponse data = parseFrom (data.drop 9) {} pos
        ∧ (data.drop 9).drop pos = keyValueSection data := by
  have hnot : ¬ (data.length < 1 + 4 + 4 + 13) := by omega
  refine ⟨skipByte (data.drop 9) 0x00 (skipByte (data.drop 9) 0x80
    (skipToNull (data.drop 9) 0 + 1)), ?_, ?_⟩
  . simp only [parseResponse, hnot, ↓reduceIte]
    rw [sliceFrom_of_le (by omega), ok_bind]
    rfl
  . rw [drop_skipByte, drop_skipByte, skipToNull_eq _ _ (by omega)]
    simp [keyValueSection]

theorem parseResponse_of_lt {data : List UInt8} (h : data.length < 22)
    : parseResponse data = .error (.error (.protocol "Query response too short")) := by
  simp [parseResponse, h]

theorem parseResponse_returns_iff (data : List UInt8)
    : ((∃ out, parseResponse data = .ok out) ∨ ∃ e, parseResponse data = .error (.error e))
        ↔
      ¬ Truncated data := by
  rw [returns_iff_ne_panic, ne_eq, not_iff_not, Truncated]
  cases Nat.lt_or_ge data.length 22 with
  | inl hlt =>
    have hnot : ¬ (22 ≤ data.length) := by omega
    simp [parseResponse_of_lt hlt, hnot]
  | inr hge =>
    rcases parseResponse_of_le hge with ⟨pos, hparse, hdrop⟩
    rw [hparse, parseFrom_panic_iff, hdrop]
    simp [hge]

/-- A `hostname` key without its NUL, and a player section that ends after a 0x01 byte. -/
theorem parseResponse_not_total
    : parseResponse
          (List.replicate 9 0 ++ Latin1.encode "splitnum".toList ++ [0x00, 0x80, 0x00]
            ++ Latin1.encode "hostname".toList)
          = .error .panic
        ∧ parseResponse
            (List.replicate 9 0 ++ Latin1.encode "splitnum".toList ++ [0x00, 0x80, 0x00]
              ++ [0x00, 0x01])
            = .error .panic
        ∧ ¬ ∀ data : List UInt8,
            (∃ out, parseResponse data = .ok out)
              ∨ ∃ e, parseResponse data = .error (.error e) := by
  have hkey : parseResponse
      (List.replicate 9 0 ++ Latin1.encode "splitnum".toList ++ [0x00, 0x80, 0x00]
        ++ Latin1.encode "hostname".toList) = .error .panic := by
    decide +kernel
  refine ⟨hkey, by decide +kernel, fun h => ?_⟩
  exact returns_iff_ne_panic.mp (h _) hkey

end QueryClient

end Rust

end McStatus
