import McStatus.Rust.Motd.Simplify

/-!
This module shows that `simplify` does not change what is displayed.
-/

namespace McStatus

namespace Rust

open Display

theorem shows_of_isFormatting {c : MotdComponent} (h : c.isFormatting = true)
    : display.shows c = [] := by
  cases c <;> first | rfl | simp [MotdComponent.isFormatting] at h

theorem shows_of_isColor {c : MotdComponent} (h : c.isColor = true) : display.shows c = [] := by
  cases c <;> first | rfl | simp [MotdComponent.isColor] at h

theorem shows_of_not_isText {c : MotdComponent} (h : c.isText = false)
    : display.shows c = [] := by
  cases c <;> first | rfl | simp [MotdComponent.isText] at h

theorem apply_of_isDouble {a b : MotdComponent} (h : isDouble a b = true) (s : Style)
    : display.apply (display.apply s a) b = display.apply s a ∧ display.shows b = [] := by
  cases a <;> cases b <;> simp only [isDouble, decide_eq_true_eq, Bool.false_eq_true] at h
  . subst h
    refine ⟨?_, rfl⟩
    rename_i f
    cases f <;> simp [display, Style.apply]
  . subst h
    exact ⟨rfl, rfl⟩
  . subst h
    exact ⟨rfl, rfl⟩

theorem same_of_isDoubleAt {components : ComponentList} {k : Nat} (hk : k + 1 < components.length)
    (h : isDoubleAt components (k + 1) = true)
    : display.Same components (components.eraseIdx (k + 1)) := by
  unfold isDoubleAt at h
  rw [Nat.add_sub_cancel, List.getElem?_eq_getElem hk,
    List.getElem?_eq_getElem (Nat.lt_of_succ_lt hk)] at h
  have hsame : ∀ rest, display.Same (components[k] :: components[k + 1] :: rest)
      (components[k] :: rest) := by
    intro rest s
    rcases apply_of_isDouble h s with ⟨happly, hshows⟩
    constructor
    . rw [render_cons, render_cons, render_cons, happly, hshows, List.map_nil, List.nil_append]
    . rw [final_cons, final_cons, final_cons, happly]
  have := Same.replace hk hsame
  rwa [List.set_getElem_self] at this

theorem removeDoubleItems_same (components : ComponentList)
    : display.Same components (removeDoubleItems components) := by
  rcases @sweep_induct _ _ (eraseIf_shrinks isDoubleAt) 1 components
    (fun i l => 1 ≤ i ∧ display.Same components l)
    (by
      intro i l l' ⟨hi, hsame⟩ hlt hedit
      rcases eraseIf_eq_some.mp hedit with ⟨hdouble, rfl⟩
      rcases Nat.exists_eq_add_of_le' hi with ⟨k, rfl⟩
      exact ⟨hi, hsame.trans (same_of_isDoubleAt hlt hdouble)⟩)
    (by
      intro i l ⟨hi, hsame⟩ _ _
      exact ⟨Nat.le_succ_of_le hi, hsame⟩)
    ⟨Nat.le_refl 1, Same.refl components⟩ with ⟨_, _, _, hsame⟩
  exact hsame

theorem foundColor_forgets {rest : ComponentList} (h : foundColor rest = true) (s s' : Style)
    : display.render s rest = display.render s' rest ∧ display.final s rest = display.final s' rest
    := by
  induction rest generalizing s s' with
  | nil => simp [foundColor] at h
  | cons c rest ih =>
    cases c with
    | text t => simp [foundColor] at h
    | translationTag id => simp [foundColor] at h
    | minecraftColor c => exact ⟨rfl, rfl⟩
    | webColor c => exact ⟨rfl, rfl⟩
    | formatting f =>
      rw [foundColor] at h
      rcases ih h (display.apply s (.formatting f)) (display.apply s' (.formatting f))
        with ⟨hrender, hfinal⟩
      constructor
      . rw [render_cons, render_cons, hrender]
        rfl
      . rw [final_cons, final_cons, hfinal]

theorem same_of_foundColor {c : MotdComponent} {rest : ComponentList} (hc : display.shows c = [])
    (h : foundColor rest = true) : display.Same (c :: rest) rest := by
  intro s
  rcases foundColor_forgets h (display.apply s c) s with ⟨hrender, hfinal⟩
  constructor
  . rw [render_cons, hc, List.map_nil, List.nil_append, hrender]
  . rw [final_cons, hfinal]

theorem lookAhead_iff (rest : ComponentList) (j : Nat)
    : ((lookAhead rest j).2 = true ∧ (lookAhead rest j).1 < j + rest.length)
        ↔ foundColor rest = true := by
  induction rest generalizing j with
  | nil => simp [lookAhead, foundColor]
  | cons c rest ih =>
    cases c with
    | formatting f =>
      rw [lookAhead, foundColor, ← ih (j + 1), List.length_cons]
      have : j + 1 + rest.length = j + (rest.length + 1) := by omega
      rw [this]
    | text t => simp [lookAhead, foundColor]
    | translationTag id => simp [lookAhead, foundColor]
    | minecraftColor c => simp [lookAhead, foundColor]
    | webColor c => simp [lookAhead, foundColor]

theorem isDoubleColorAt_eq {components : ComponentList} {i : Nat} (hi : i < components.length)
    : isDoubleColorAt components i
        = (components[i].isColor && foundColor (components.drop (i + 1))) := by
  have hiff := lookAhead_iff (components.drop (i + 1)) (i + 1)
  have hlen : i + 1 + (components.drop (i + 1)).length = components.length := by
    rw [List.length_drop]
    omega
  rw [hlen] at hiff
  unfold isDoubleColorAt
  rw [List.getElem?_eq_getElem hi, Bool.eq_iff_iff]
  simp only [Bool.and_eq_true, decide_eq_true_eq, hiff]

theorem isFormattingBeforeColorAt_eq {components : ComponentList} {i : Nat}
    (hi : i < components.length)
    : isFormattingBeforeColorAt components i
        = (components[i].isFormatting && foundColor (components.drop (i + 1))) := by
  unfold isFormattingBeforeColorAt
  rw [List.getElem?_eq_getElem hi]

theorem removeDoubleColors_same (components : ComponentList)
    : display.Same components (removeDoubleColors components) := by
  unfold removeDoubleColors
  apply sweep_preserves fun l => display.Same components l
  . intro i l l' hsame hlt hedit
    rcases eraseIf_eq_some.mp hedit with ⟨hremove, rfl⟩
    rw [isDoubleColorAt_eq hlt, Bool.and_eq_true] at hremove
    apply hsame.trans
    apply Same.eraseIdx hlt
    exact same_of_foundColor (shows_of_isColor hremove.1) hremove.2
  . exact Same.refl components

theorem removeFormattingBeforeColor_same (components : ComponentList)
    : display.Same components (removeFormattingBeforeColor components) := by
  unfold removeFormattingBeforeColor
  apply sweep_preserves fun l => display.Same components l
  . intro i l l' hsame hlt hedit
    rcases eraseIf_eq_some.mp hedit with ⟨hremove, rfl⟩
    rw [isFormattingBeforeColorAt_eq hlt, Bool.and_eq_true] at hremove
    apply hsame.trans
    apply Same.eraseIdx hlt
    exact same_of_foundColor (shows_of_isFormatting hremove.1) hremove.2
  . exact Same.refl components

/-- What the third pass is for: no color comes right after a formatting. -/
def NoFormattingBeforeColor (components : ComponentList) : Prop :=
  ∀ i c c', components[i]? = some c → components[i + 1]? = some c' →
    c.isFormatting = true → c'.isColor = false

theorem foundColor_append_formatting (front back : ComponentList) (f : Formatting)
    : foundColor (front ++ .formatting f :: back) = foundColor (front ++ back) := by
  induction front with
  | nil => rfl
  | cons c front ih => cases c <;> simp only [List.cons_append, foundColor, ih]

/-- Up to the index `i`, no formatting is followed by a color that makes it invisible. -/
def NoneFoundBefore (i : Nat) (components : ComponentList) : Prop :=
  ∀ k c, k < i → components[k]? = some c → c.isFormatting = true →
    foundColor (components.drop (k + 1)) = false

theorem NoneFoundBefore.eraseIdx {i : Nat} {components : ComponentList}
    (h : NoneFoundBefore i components) (hi : i < components.length)
    (hformatting : components[i].isFormatting = true)
    : NoneFoundBefore i (components.eraseIdx i) := by
  intro k c hk hc hcf
  have hget : (components.eraseIdx i)[k]? = components[k]? := List.getElem?_eraseIdx_of_lt hk
  rw [hget] at hc
  have hnone := h k c hk hc hcf
  have hsplit : components.drop (k + 1)
      = (components.take i).drop (k + 1) ++ components[i] :: components.drop (i + 1) := by
    conv => lhs; rw [← List.take_append_drop i components]
    rw [List.drop_append_of_le_length (by rw [List.length_take]; omega),
      ← List.drop_eq_getElem_cons hi]
  have hdrop : (components.eraseIdx i).drop (k + 1)
      = (components.take i).drop (k + 1) ++ components.drop (i + 1) := by
    rw [List.eraseIdx_eq_take_drop_succ,
      List.drop_append_of_le_length (by rw [List.length_take]; omega)]
  cases hci : components[i] with
  | formatting f =>
    rw [hsplit, hci, foundColor_append_formatting] at hnone
    rw [hdrop, hnone]
  | _ => simp [hci, MotdComponent.isFormatting] at hformatting

theorem NoneFoundBefore.succ {i : Nat} {components : ComponentList}
    (h : NoneFoundBefore i components) (hi : i < components.length)
    (hkeep : isFormattingBeforeColorAt components i = false)
    : NoneFoundBefore (i + 1) components := by
  intro k c hk hc hcf
  rcases Nat.lt_succ_iff_lt_or_eq.mp hk with hlt | rfl
  . exact h k c hlt hc hcf
  . rw [List.getElem?_eq_getElem hi, Option.some.injEq] at hc
    rw [isFormattingBeforeColorAt_eq hi, hc, hcf, Bool.true_and] at hkeep
    exact hkeep

theorem noFormattingBeforeColor_of_noneFoundBefore {i : Nat} {components : ComponentList}
    (h : NoneFoundBefore i components) (hi : components.length ≤ i)
    : NoFormattingBeforeColor components := by
  intro k c c' hc hc' hcf
  rcases List.getElem?_eq_some_iff.mp hc' with ⟨hlt, hget⟩
  have hnone := h k c (by omega) hc hcf
  rw [List.drop_eq_getElem_cons hlt, hget] at hnone
  cases c' <;> first | rfl | simp [foundColor] at hnone

theorem removeFormattingBeforeColor_noFormattingBeforeColor (components : ComponentList)
    : NoFormattingBeforeColor (removeFormattingBeforeColor components) := by
  rcases @sweep_induct _ _ (eraseIf_shrinks isFormattingBeforeColorAt) 0 components
    NoneFoundBefore
    (by
      intro i l l' hnone hlt hedit
      rcases eraseIf_eq_some.mp hedit with ⟨hremove, rfl⟩
      rw [isFormattingBeforeColorAt_eq hlt, Bool.and_eq_true] at hremove
      exact hnone.eraseIdx hlt hremove.1)
    (by
      intro i l hnone hlt hedit
      exact hnone.succ hlt (eraseIf_eq_none.mp hedit))
    (by
      intro k c hk
      exact absurd hk (Nat.not_lt_zero k)) with ⟨j, hj, hnone⟩
  exact noFormattingBeforeColor_of_noneFoundBefore hnone hj

theorem NoFormattingBeforeColor.suffix {l r : ComponentList} (h : NoFormattingBeforeColor l)
    (hsuffix : r <:+ l) : NoFormattingBeforeColor r := by
  rcases hsuffix with ⟨front, rfl⟩
  intro i c c' hc hc'
  apply h (front.length + i)
  . rw [List.getElem?_append_right (by omega), Nat.add_sub_cancel_left]
    exact hc
  . rw [List.getElem?_append_right (by omega), Nat.add_assoc, Nat.add_sub_cancel_left]
    exact hc'

theorem removeReset_of_noFormattingBeforeColor {components : ComponentList}
    (h : NoFormattingBeforeColor components) {i : Nat} (hi : 1 ≤ i)
    : removeReset components i = none := by
  rcases Nat.exists_eq_add_of_le' hi with ⟨k, rfl⟩
  unfold removeReset
  split
  . next c hreset hc =>
    have hcolor := h k _ c hreset hc rfl
    have hnot : ∀ active_color, reAppliesSame c active_color = false := by
      intro active_color
      cases c <;> first | rfl | simp [MotdComponent.isColor] at hcolor
    simp only [hnot, Bool.false_eq_true, ↓reduceIte]
  . rfl

theorem removeMeaninglessResetsAndColors_eq {components : ComponentList}
    (h : NoFormattingBeforeColor components)
    : removeMeaninglessResetsAndColors components
        = components.dropWhile (· = .formatting .reset) := by
  unfold removeMeaninglessResetsAndColors
  apply sweep_of_forall_none
  intro k hk _
  exact removeReset_of_noFormattingBeforeColor (h.suffix (List.dropWhile_suffix _)) hk

theorem render_dropWhile_reset (components : ComponentList)
    : display.render Style.plain (components.dropWhile (· = .formatting .reset))
        = display.render Style.plain components := by
  induction components with
  | nil => rfl
  | cons c components ih =>
    rw [List.dropWhile_cons]
    split
    . next hreset =>
      rw [decide_eq_true_eq] at hreset
      rw [ih, hreset]
      rfl
    . rfl

theorem render_removeEndNonText (components : ComponentList) (s : Style)
    : display.render s (removeEndNonText components) = display.render s components := by
  unfold removeEndNonText
  induction components using List.reverseRecOn with
  | nil => rfl
  | append_singleton components c ih =>
    rw [List.rdropWhile_concat]
    split
    . next hc =>
      rw [Bool.not_eq_true'] at hc
      rw [ih, render_append, render_cons, shows_of_not_isText hc, render_nil, List.map_nil,
        List.append_nil, List.append_nil]
    . rfl

theorem render_simplifyRound (components : ComponentList)
    : display.render Style.plain (simplifyRound components)
        = display.render Style.plain components := by
  unfold simplifyRound
  rw [render_removeEndNonText, removeMeaninglessResetsAndColors_eq
    (removeFormattingBeforeColor_noFormattingBeforeColor _), render_dropWhile_reset,
    ← (removeFormattingBeforeColor_same _ _).1, ← (removeDoubleColors_same _ _).1,
    ← (removeDoubleItems_same _ _).1]

theorem render_simplify_loop (components : ComponentList)
    : display.render Style.plain (simplify.loop components)
        = display.render Style.plain components := by
  induction hn : components.length using Nat.strongRecOn generalizing components with
  | ind n ih =>
    unfold simplify.loop
    split
    . exact render_simplifyRound components
    . next hne =>
      have hle := length_simplifyRound_le components
      rw [ih _ (by omega) _ rfl]
      exact render_simplifyRound components

theorem same_squash {components components' : ComponentList} {k : Nat}
    (hk : k + 1 < components.length) (h : squash components (k + 1) = some components')
    : display.Same components components' := by
  unfold squash at h
  rw [Nat.add_sub_cancel, List.getElem?_eq_getElem hk,
    List.getElem?_eq_getElem (Nat.lt_of_succ_lt hk)] at h
  split at h
  . next a b ha hb =>
    rw [Option.some.injEq] at ha hb h
    rw [← h]
    apply Same.replace hk
    intro rest s
    rw [ha, hb]
    constructor
    . rw [render_cons, render_cons, render_cons, ← List.append_assoc]
      simp [display, Style.apply]
    . rfl
  . simp at h

theorem squashNearbyStrings_same (components : ComponentList)
    : display.Same components (squashNearbyStrings components) := by
  rcases @sweep_induct _ _ squash_shrinks 1 components
    (fun i l => 1 ≤ i ∧ display.Same components l)
    (by
      intro i l l' ⟨hi, hsame⟩ hlt hedit
      rcases Nat.exists_eq_add_of_le' hi with ⟨k, rfl⟩
      exact ⟨hi, hsame.trans (same_squash hlt hedit)⟩)
    (by
      intro i l ⟨hi, hsame⟩ _ _
      exact ⟨Nat.le_succ_of_le hi, hsame⟩)
    ⟨Nat.le_refl 1, Same.refl components⟩ with ⟨_, _, _, hsame⟩
  exact hsame

theorem render_simplify (components : ComponentList)
    : display.render Style.plain (simplify components)
        = display.render Style.plain components := by
  unfold simplify
  rw [← (squashNearbyStrings_same _ _).1]
  exact render_simplify_loop components

end Rust

end McStatus
