import McStatus.Rust.Query.Lemmas.Safety

/-!
This module contains the bytes in which `parse_response` looks for the names of players: those
behind the first marker that the cursor comes to, wherever that stands.
-/

namespace McStatus

open Fallible

namespace Rust

namespace QueryClient

/-- Behind NULs and empty markers there is a marker, and `t` is what stands behind it. -/
inductive MarkedAt : List UInt8 → List UInt8 → Prop where
  | marker {r : List UInt8} :
      nulText r = Latin1.encode "player_".toList → MarkedAt (0x01 :: r) (r.drop 8)
  | nul {s t : List UInt8} : MarkedAt s t → MarkedAt (0x00 :: s) t
  | emptyMarker {s t : List UInt8} : MarkedAt s t → MarkedAt (0x01 :: 0x00 :: s) t

/-- From a key on, the cursor comes to a marker, and names are read from `t` on. -/
inductive NamesAt : List UInt8 → List UInt8 → Prop where
  | value {s rest t : List UInt8} :
      nulText s ≠ [] → Latin1.decode (nulText s) ≠ "hostname".toList →
      rest = s.drop (advance (nulText s)) →
      NamesAt (rest.drop (advance (nulText rest))) t → NamesAt s t
  | motd {s motd tail t : List UInt8} :
      Latin1.decode (nulText s) = "hostname".toList →
      s.drop (advance (nulText s)) = motd ++ tail → MotdEnds motd tail →
      NamesAt (dropByte 0x00 tail) t → NamesAt s t
  | players {s t : List UInt8} : MarkedAt s t → NamesAt (0x00 :: s) t

inductive Spells : List UInt8 → List (List UInt8) → Prop where
  | nil : Spells [] []
  | stop {s : List UInt8} : Spells (0x00 :: s) []
  | text {s : List UInt8} {texts : List (List UInt8)} :
      nulText s ≠ [] → Spells (s.drop (advance (nulText s))) texts → Spells s (nulText s :: texts)

section Marked

variable {s t t' : List UInt8}

theorem MarkedAt.exists_eq (h : MarkedAt s t)
    : ∃ pre r, s = pre ++ 0x01 :: r ∧ nulText r = Latin1.encode "player_".toList
        ∧ t = r.drop 8 := by
  induction h with
  | @marker r hmarker => exact ⟨[], r, rfl, hmarker, rfl⟩
  | nul _ ih =>
    rcases ih with ⟨pre, r, rfl, hmarker, rfl⟩
    exact ⟨0x00 :: pre, r, rfl, hmarker, rfl⟩
  | emptyMarker _ ih =>
    rcases ih with ⟨pre, r, rfl, hmarker, rfl⟩
    exact ⟨0x01 :: 0x00 :: pre, r, rfl, hmarker, rfl⟩

theorem MarkedAt.unique (h : MarkedAt s t) (h' : MarkedAt s t') : t = t' := by
  induction h with
  | marker hmarker =>
    cases h' with
    | marker _ => rfl
    | emptyMarker _ => simp [Latin1.encode] at hmarker
  | nul _ ih =>
    cases h' with
    | nul h' => exact ih h'
  | emptyMarker _ ih =>
    cases h' with
    | marker hmarker => simp [Latin1.encode] at hmarker
    | emptyMarker h' => exact ih h'

theorem MarkedAt.nul_iff : MarkedAt (0x00 :: s) t ↔ MarkedAt s t := by
  constructor
  . intro h
    cases h with
    | nul h => exact h
  . exact MarkedAt.nul

theorem MarkedAt.emptyMarker_iff : MarkedAt (0x01 :: 0x00 :: s) t ↔ MarkedAt s t := by
  constructor
  . intro h
    cases h with
    | marker hmarker => simp [Latin1.encode] at hmarker
    | emptyMarker h => exact h
  . exact MarkedAt.emptyMarker

theorem MarkedAt.dropByte_iff : MarkedAt (dropByte 0x00 s) t ↔ MarkedAt s t := by
  cases s with
  | nil => rfl
  | cons b r =>
    rw [dropByte]
    split
    . next heq =>
      subst heq
      exact MarkedAt.nul_iff.symm
    . rfl

end Marked

section Names

variable {s t t' : List UInt8}

theorem NamesAt.not_nil : ¬ NamesAt [] t := by
  intro h
  generalize hs : ([] : List UInt8) = s at h
  cases h with
  | value hkey _ _ _ => simp [← hs] at hkey
  | motd hkey _ _ _ => simp [← hs, Latin1.decode] at hkey
  | players _ => simp at hs

theorem NamesAt.iff_of_end : NamesAt (0x00 :: s) t ↔ MarkedAt s t := by
  constructor
  . intro h
    cases h with
    | value hkey _ _ _ => simp at hkey
    | motd hkey _ _ _ => simp [Latin1.decode] at hkey
    | players h => exact h
  . exact NamesAt.players

theorem NamesAt.iff_of_pair (hkey : nulText s ≠ [])
    (hname : Latin1.decode (nulText s) ≠ "hostname".toList)
    : NamesAt s t
        ↔
      NamesAt ((s.drop (advance (nulText s))).drop
        (advance (nulText (s.drop (advance (nulText s)))))) t := by
  constructor
  . intro h
    cases h with
    | value _ _ hrest h => exact hrest ▸ h
    | motd hname' _ _ _ => exact absurd hname' hname
    | players _ => simp at hkey
  . exact NamesAt.value hkey hname rfl

theorem NamesAt.iff_of_hostname {motd tail : List UInt8}
    (hname : Latin1.decode (nulText s) = "hostname".toList)
    (hsplit : s.drop (advance (nulText s)) = motd ++ tail) (hends : MotdEnds motd tail)
    : NamesAt s t ↔ NamesAt (dropByte 0x00 tail) t := by
  constructor
  . intro h
    cases h with
    | value _ hname' _ _ => exact absurd hname hname'
    | motd _ hsplit' hends' h =>
      rw [(hends.unique hends' (hsplit.symm.trans hsplit')).2]
      exact h
    | players _ => simp [Latin1.decode] at hname
  . exact NamesAt.motd hname hsplit hends

theorem NamesAt.unique (h : NamesAt s t) (h' : NamesAt s t') : t = t' := by
  induction h with
  | value hkey hname hrest _ ih =>
    subst hrest
    exact ih ((NamesAt.iff_of_pair hkey hname).mp h')
  | motd hname hsplit hends _ ih => exact ih ((NamesAt.iff_of_hostname hname hsplit hends).mp h')
  | players h => exact h.unique (NamesAt.iff_of_end.mp h')

theorem exists_of_suffix {s' : List UInt8} (hsuffix : s' <:+ s)
    (h : ∃ pre r, s' = pre ++ 0x01 :: r ∧ nulText r = Latin1.encode "player_".toList
      ∧ t = r.drop 8)
    : ∃ pre r, s = pre ++ 0x01 :: r ∧ nulText r = Latin1.encode "player_".toList
      ∧ t = r.drop 8 := by
  rcases hsuffix with ⟨front, rfl⟩
  rcases h with ⟨pre, r, rfl, hmarker, ht⟩
  exact ⟨front ++ pre, r, (List.append_assoc front pre _).symm, hmarker, ht⟩

theorem dropByte_suffix (byte : UInt8) (s : List UInt8) : dropByte byte s <:+ s := by
  cases s with
  | nil => exact List.suffix_rfl
  | cons b r =>
    rw [dropByte]
    split
    . exact List.suffix_cons b r
    . exact List.suffix_rfl

theorem NamesAt.exists_eq (h : NamesAt s t)
    : ∃ pre r, s = pre ++ 0x01 :: r ∧ nulText r = Latin1.encode "player_".toList
      ∧ t = r.drop 8 := by
  induction h with
  | @value s rest t _ _ hrest _ ih =>
    subst hrest
    exact exists_of_suffix ((List.drop_suffix _ _).trans (List.drop_suffix _ s)) ih
  | @motd s motd tail t _ hsplit _ _ ih =>
    apply exists_of_suffix _ ih
    apply (dropByte_suffix 0x00 tail).trans
    apply (List.suffix_append motd tail).trans
    rw [← hsplit]
    exact List.drop_suffix _ s
  | @players s t h => exact exists_of_suffix (List.suffix_cons 0x00 s) h.exists_eq

end Names

section Spells

variable {s : List UInt8} {texts texts' : List (List UInt8)}

theorem Spells.unique (h : Spells s texts) (h' : Spells s texts') : texts = texts' := by
  induction h generalizing texts' with
  | nil =>
    cases h' with
    | nil => rfl
    | text hne _ => simp at hne
  | stop =>
    cases h' with
    | stop => rfl
    | text hne _ => simp at hne
  | text hne _ ih =>
    cases h' with
    | nil => simp at hne
    | stop => simp at hne
    | text _ h' => rw [ih h']

theorem Spells.nil_iff : Spells [] texts ↔ texts = [] := by
  constructor
  . intro h
    cases h with
    | nil => rfl
    | text hne _ => simp at hne
  . rintro rfl
    exact Spells.nil

theorem Spells.length_le (h : Spells s texts)
    : (texts.map fun text => text.length + 1).sum ≤ s.length + 1 := by
  induction h with
  | nil => exact Nat.zero_le _
  | stop => exact Nat.zero_le _
  | @text s texts hne hrest ih =>
    have hadvance := length_lt_advance (nulText s)
    have hlength := length_nulText_le s
    rw [List.map_cons, List.sum_cons]
    cases Nat.lt_or_ge s.length (advance (nulText s)) with
    | inl hlt =>
      rw [List.drop_of_length_le (Nat.le_of_lt hlt), Spells.nil_iff] at hrest
      rw [hrest, List.map_nil, List.sum_nil]
      omega
    | inr hge =>
      rw [List.length_drop] at ih
      omega

theorem readPlayerNames_spells (body : List UInt8) (pos : Nat)
    : ∃ texts, Spells (body.drop pos) texts
        ∧ readPlayerNames body pos = .ok (texts.map Latin1.decode) := by
  rcases readPlayerNames_ok body pos with ⟨players, hplayers⟩
  have hspells : ∃ texts, Spells (body.drop pos) texts ∧ players = texts.map Latin1.decode := by
    -- what was read, in front of what the rest spells, is what all the bytes spell
    refine Loop.run_ok
      (fun state => ∃ texts, state.1 = texts.map Latin1.decode
        ∧ ∀ more, Spells (body.drop state.2) more → Spells (body.drop pos) (texts ++ more))
      (fun players => ∃ texts, Spells (body.drop pos) texts ∧ players = texts.map Latin1.decode)
      ?_ ?_ ⟨[], rfl, fun more h => h⟩ hplayers
    . rintro ⟨players, p⟩ players' ⟨texts, heq, hmore⟩ hstep
      have hend : players' = players → Spells (body.drop p) [] →
          ∃ texts, Spells (body.drop pos) texts ∧ players' = texts.map Latin1.decode := by
        intro hplayers' hnil
        have hall := hmore [] hnil
        rw [List.append_nil] at hall
        exact ⟨texts, hall, hplayers'.trans heq⟩
      cases Nat.lt_or_ge p body.length with
      | inr hge =>
        rw [playerStep_of_le hge, Except.ok.injEq, Sum.inr.injEq] at hstep
        apply hend hstep.symm
        rw [List.drop_of_length_le hge]
        exact Spells.nil
      | inl hlt =>
        rw [playerStep_of_lt hlt] at hstep
        dsimp only at hstep
        split at hstep
        . next hempty =>
          rw [Except.ok.injEq, Sum.inr.injEq] at hstep
          apply hend hstep.symm
          rcases nulText_eq_nil.mp hempty with hnil | ⟨r, hr⟩
          . rw [hnil]
            exact Spells.nil
          . rw [hr]
            exact Spells.stop
        . cases hstep
    . rintro ⟨players, p⟩ ⟨players', p'⟩ ⟨texts, heq, hmore⟩ hstep
      have hlt := (playerStep_lt hstep).2
      rw [playerStep_of_lt hlt] at hstep
      dsimp only at hstep heq hmore ⊢
      split at hstep
      . cases hstep
      . next hne =>
        rw [Except.ok.injEq, Sum.inl.injEq, Prod.mk.injEq] at hstep
        rcases hstep with ⟨rfl, rfl⟩
        refine ⟨texts ++ [nulText (body.drop p)], by simp [heq], fun more h => ?_⟩
        rw [List.append_assoc]
        apply hmore
        apply Spells.text hne
        rw [List.drop_drop]
        exact h
  rcases hspells with ⟨texts, hspells, rfl⟩
  exact ⟨texts, hspells, hplayers⟩

end Spells

/-- What the parser makes of bytes that it takes for names, or that it takes for none. -/
def Lists (At : List UInt8 → Prop) (players : List (List Char)) : Prop :=
  (∃ t texts, At t ∧ Spells t texts ∧ players = texts.map Latin1.decode)
    ∨ (¬ ∃ t, At t) ∧ players = []

theorem Lists.congr {At At' : List UInt8 → Prop} {players : List (List Char)}
    (h : ∀ t, At t ↔ At' t) : Lists At players ↔ Lists At' players := by
  have heq : At = At' := funext fun t => propext (h t)
  rw [heq]

theorem readPlayers_lists {body : List UInt8} {pos : Nat} {players : List (List Char)}
    (h : readPlayers body pos = .ok players) : Lists (MarkedAt (body.drop pos)) players := by
  -- on the bytes left, with one case for each branch of an iteration
  induction hn : body.length - pos using Nat.strongRecOn generalizing pos with
  | ind n ih =>
    have hspec := playersStep_spec body pos
    have hlen := @List.length_drop _ pos body
    have htail := @List.tail_drop _ body pos
    have htail' := @List.tail_drop _ body (pos + 1)
    have hdrop : (body.drop pos).drop 9 = body.drop (pos + 9) := List.drop_drop
    have hbreak : ∀ {players'}, playersStep body pos = .ok (.inr players') →
        players = players' := by
      intro players' hstep
      have hrun : readPlayers body pos = .ok players' := Loop.run_break hstep
      exact Except.ok.inj (h.symm.trans hrun)
    generalize body.drop pos = s at hspec hlen htail hdrop ⊢
    generalize hstep : playersStep body pos = out at hspec
    cases hspec with
    | nil =>
      refine Or.inr ⟨?_, hbreak hstep⟩
      rintro ⟨t, ht⟩
      cases ht
    | nul =>
      have hrun : readPlayers body pos = readPlayers body (pos + 1) := Loop.run_continue hstep
      rw [List.length_cons] at hlen
      have hrest := ih _ (by omega) (hrun.symm.trans h) rfl
      rw [← htail] at hrest
      exact (Lists.congr fun t => MarkedAt.nul_iff).mpr hrest
    | other h0 h1 =>
      refine Or.inr ⟨?_, hbreak hstep⟩
      rintro ⟨t, ht⟩
      cases ht <;> simp at h0 h1
    | @player r _ hplayer hnames =>
      rcases readPlayerNames_spells body (pos + 9) with ⟨texts, hspells, hread⟩
      rw [hread, Except.ok.injEq] at hnames
      rw [← hdrop] at hspells
      exact Or.inl ⟨_, texts, MarkedAt.marker hplayer, hspells, (hbreak hstep).trans hnames.symm⟩
    | cutMarker =>
      have hrun : readPlayers body pos = .error .panic := Loop.run_throw hstep
      rw [hrun] at h
      cases h
    | emptyMarker =>
      have hrun : readPlayers body pos = readPlayers body (pos + 2) := Loop.run_continue hstep
      rw [List.length_cons] at hlen
      have hrest := ih _ (by omega) (hrun.symm.trans h) rfl
      rw [← htail', ← htail] at hrest
      exact (Lists.congr fun t => MarkedAt.emptyMarker_iff).mpr hrest
    | otherMarker hb hmarker =>
      refine Or.inr ⟨?_, hbreak hstep⟩
      rintro ⟨t, ht⟩
      cases ht with
      | marker hplayer => exact hmarker hplayer
      | emptyMarker _ => exact hb rfl

theorem parseFrom_lists {body : List UInt8} {raw raw' : RawQueryResponse} {pos : Nat}
    {players : List (List Char)} (h : parseFrom body raw pos = .ok (raw', players))
    : Lists (NamesAt (body.drop pos)) players := by
  -- on the bytes left: every key moves the cursor, whatever is stored for it
  induction hn : body.length - pos using Nat.strongRecOn generalizing raw pos with
  | ind n ih =>
    have hspec := keyValueStep_spec body raw pos
    have hlen := @List.length_drop _ pos body
    have hdrop : ∀ n, (body.drop pos).drop n = body.drop (pos + n) := fun n => List.drop_drop
    have hbreak : ∀ {raw₁ pos'}, keyValueStep body (raw, pos) = .ok (.inr (raw₁, pos')) →
        Lists (MarkedAt (body.drop pos')) players := by
      intro raw₁ pos' hstep
      rw [parseFrom_break hstep] at h
      rcases bind_eq_ok.mp h with ⟨players', hread, heq⟩
      rw [Except.ok.injEq, Prod.mk.injEq] at heq
      exact heq.2 ▸ readPlayers_lists hread
    generalize hs : body.drop pos = s at hspec hlen hdrop ⊢
    generalize hstep : keyValueStep body (raw, pos) = out at hspec
    cases hspec with
    | nil =>
      have hrest := hbreak hstep
      rw [hs] at hrest
      refine (Lists.congr fun t => ?_).mpr hrest
      exact iff_of_false NamesAt.not_nil (by rintro ⟨⟩)
    | done =>
      have hrest := hbreak hstep
      rw [drop_skipByte, ← hdrop] at hrest
      exact (Lists.congr fun t => NamesAt.iff_of_end.trans MarkedAt.dropByte_iff.symm).mpr hrest
    | cutKey hkey hcut =>
      rw [parseFrom_throw hstep] at h
      cases h
    | @hostname _ motd tail hname hfit hsplit hends =>
      have hadvance := length_lt_advance (nulText s)
      have hskip := le_skipByte body 0x00 (pos + advance (nulText s) + motd.length)
      have hlt : pos < body.length := by omega
      rw [parseFrom_continue hstep] at h
      have hrest := ih _ (by omega) h rfl
      rw [drop_skipByte, ← List.drop_drop, ← hdrop, hsplit, List.drop_left] at hrest
      exact (Lists.congr fun t => NamesAt.iff_of_hostname hname hsplit hends).mpr hrest
    | pair hkey hname hfit hrest =>
      have hadvance := length_lt_advance (nulText s)
      have hlt : pos < body.length := by omega
      rw [parseFrom_continue hstep] at h
      have hnext := ih _ (by omega) h rfl
      rw [← List.drop_drop, ← hdrop, ← hrest] at hnext
      subst hrest
      exact (Lists.congr fun t => NamesAt.iff_of_pair hkey hname).mpr hnext

end QueryClient

end Rust

end McStatus
