import Mathlib.Logic.Function.Iterate
import McStatus.Rust.Motd.SimplifySound

/-!
This module shows that `simplify` ends in a normal form. When a round of the five passes takes
nothing out, none of them has anything left to do, and merging text does not change that.
-/

namespace McStatus

namespace Rust

theorem eq_take_append_cons {l : ComponentList} {i : Nat} (hi : i < l.length)
    : l = l.take i ++ l[i] :: l.drop (i + 1) := by
  rw [← List.drop_eq_getElem_cons hi, List.take_append_drop]

structure Stable (l : ComponentList) : Prop where
  isDouble_eq_false : ∀ front a b back, l = front ++ a :: b :: back → isDouble a b = false
  foundColor_eq_false : ∀ front c rest, l = front ++ c :: rest → c.isText = false →
    foundColor rest = false
  not_reset_first : ∀ rest, l ≠ .formatting .reset :: rest
  isText_last : ∀ front c, l = front ++ [c] → c.isText = true

theorem Stable.removeDoubleItems_eq {l : ComponentList} (h : Stable l)
    : removeDoubleItems l = l := by
  apply sweep_of_forall_none
  intro k hk hlt
  rcases Nat.exists_eq_add_of_le' hk with ⟨k, rfl⟩
  have hk : k < l.length := Nat.lt_of_succ_lt hlt
  rw [eraseIf_eq_none, isDoubleAt, Nat.add_sub_cancel, List.getElem?_eq_getElem hlt,
    List.getElem?_eq_getElem hk]
  apply h.isDouble_eq_false (l.take k) _ _ (l.drop (k + 2))
  rw [← List.drop_eq_getElem_cons hlt]
  exact eq_take_append_cons hk

theorem Stable.foundColor_drop {l : ComponentList} (h : Stable l) {i : Nat} (hi : i < l.length)
    (hc : l[i].isText = false) : foundColor (l.drop (i + 1)) = false :=
  h.foundColor_eq_false (l.take i) l[i] _ (eq_take_append_cons hi) hc

theorem isText_of_isColor {c : MotdComponent} (h : c.isColor = true) : c.isText = false := by
  cases c <;> first | rfl | simp [MotdComponent.isColor] at h

theorem isText_of_isFormatting {c : MotdComponent} (h : c.isFormatting = true)
    : c.isText = false := by
  cases c <;> first | rfl | simp [MotdComponent.isFormatting] at h

theorem Stable.removeDoubleColors_eq {l : ComponentList} (h : Stable l)
    : removeDoubleColors l = l := by
  apply sweep_of_forall_none
  intro k _ hlt
  rw [eraseIf_eq_none, isDoubleColorAt_eq hlt]
  cases hc : l[k].isColor with
  | false => rfl
  | true => rw [h.foundColor_drop hlt (isText_of_isColor hc), Bool.and_false]

theorem Stable.removeFormattingBeforeColor_eq {l : ComponentList} (h : Stable l)
    : removeFormattingBeforeColor l = l := by
  apply sweep_of_forall_none
  intro k _ hlt
  rw [eraseIf_eq_none, isFormattingBeforeColorAt_eq hlt]
  cases hc : l[k].isFormatting with
  | false => rfl
  | true => rw [h.foundColor_drop hlt (isText_of_isFormatting hc), Bool.and_false]

theorem Stable.removeMeaninglessResetsAndColors_eq {l : ComponentList} (h : Stable l)
    : removeMeaninglessResetsAndColors l = l := by
  have hpass := removeFormattingBeforeColor_noFormattingBeforeColor l
  rw [h.removeFormattingBeforeColor_eq] at hpass
  rw [McStatus.Rust.removeMeaninglessResetsAndColors_eq hpass]
  cases l with
  | nil => rfl
  | cons c rest =>
    rw [List.dropWhile_cons, if_neg]
    rw [decide_eq_true_eq]
    rintro rfl
    exact h.not_reset_first rest rfl

theorem Stable.removeEndNonText_eq {l : ComponentList} (h : Stable l) : removeEndNonText l = l := by
  unfold removeEndNonText
  cases l using List.reverseRecOn with
  | nil => rfl
  | append_singleton front c =>
    rw [List.rdropWhile_concat, if_neg]
    rw [h.isText_last front c rfl]
    decide

theorem simplifyRound_def (l : ComponentList)
    : simplifyRound l
        =
      removeEndNonText (removeMeaninglessResetsAndColors
        (removeFormattingBeforeColor (removeDoubleColors (removeDoubleItems l)))) := rfl

theorem Stable.simplifyRound_eq {l : ComponentList} (h : Stable l) : simplifyRound l = l := by
  rw [simplifyRound_def, h.removeDoubleItems_eq, h.removeDoubleColors_eq,
    h.removeFormattingBeforeColor_eq, h.removeMeaninglessResetsAndColors_eq, h.removeEndNonText_eq]

theorem getElem?_middle (front back : ComponentList) (c : MotdComponent)
    : (front ++ c :: back)[front.length]? = some c := by
  simp

theorem isDouble_of_length {l : ComponentList} (h : (removeDoubleItems l).length = l.length)
    : ∀ front a b back, l = front ++ a :: b :: back → isDouble a b = false := by
  rintro front a b back rfl
  have hnone := edit_eq_none_of_length_sweep h (front.length + 1) (by omega) (by simp)
  have hb : (front ++ a :: b :: back)[front.length + 1]? = some b := by simp
  rw [eraseIf_eq_none, isDoubleAt, Nat.add_sub_cancel, getElem?_middle, hb] at hnone
  exact hnone

theorem foundColor_of_length {l : ComponentList}
    (hcolors : (removeDoubleColors l).length = l.length)
    (hformattings : (removeFormattingBeforeColor l).length = l.length)
    : ∀ front c rest, l = front ++ c :: rest → c.isText = false → foundColor rest = false := by
  rintro front c rest rfl hc
  have hlt : front.length < (front ++ c :: rest).length := by simp
  have hget : (front ++ c :: rest)[front.length] = c := by simp
  have hdrop : (front ++ c :: rest).drop (front.length + 1) = rest := by simp
  have hcolor := edit_eq_none_of_length_sweep hcolors front.length (Nat.zero_le _) hlt
  have hformatting := edit_eq_none_of_length_sweep hformattings front.length (Nat.zero_le _) hlt
  rw [eraseIf_eq_none, isDoubleColorAt_eq hlt, hget, hdrop] at hcolor
  rw [eraseIf_eq_none, isFormattingBeforeColorAt_eq hlt, hget, hdrop] at hformatting
  cases c with
  | text s => cases hc
  | translationTag id => cases hc
  | formatting f => exact hformatting
  | minecraftColor c => exact hcolor
  | webColor c => exact hcolor

theorem reduces_removeEndNonText : Reduces removeEndNonText :=
  Reduces.of_sublist fun _ => (List.rdropWhile_prefix _ _).sublist

theorem reduces_dropResets
    : Reduces (fun l : ComponentList => l.dropWhile (· = .formatting .reset)) :=
  Reduces.of_sublist fun _ => (List.dropWhile_suffix _).sublist

theorem not_reset_first_of_eq {l : ComponentList} (h : removeMeaninglessResetsAndColors l = l)
    : ∀ rest, l ≠ .formatting .reset :: rest := by
  rintro rest rfl
  have hdrop := (reduces_dropResets.eq_of_length_comp Reduces.sweep (congrArg List.length h)).1
  rw [List.dropWhile_cons, if_pos (by decide)] at hdrop
  have hle := (List.dropWhile_suffix (l := rest) (· = MotdComponent.formatting .reset)).length_le
  rw [hdrop, List.length_cons] at hle
  omega

theorem isText_last_of_eq {l : ComponentList} (h : removeEndNonText l = l)
    : ∀ front c, l = front ++ [c] → c.isText = true := by
  rintro front c rfl
  rw [removeEndNonText, List.rdropWhile_concat] at h
  split at h
  . have hle := (List.rdropWhile_prefix (fun c : MotdComponent => !c.isText) front).length_le
    rw [h, List.length_append, List.length_singleton] at hle
    omega
  . next hc => simpa using hc

theorem stable_of_length_simplifyRound {l : ComponentList}
    (h : (simplifyRound l).length = l.length) : Stable l := by
  have hresets : Reduces removeMeaninglessResetsAndColors := reduces_dropResets.comp Reduces.sweep
  have hformattings : Reduces removeFormattingBeforeColor := Reduces.sweep
  have hcolors : Reduces removeDoubleColors := Reduces.sweep
  have hitems : Reduces removeDoubleItems := Reduces.sweep
  have htail := hresets.comp reduces_removeEndNonText
  rw [simplifyRound_def] at h
  -- every pass is handed `l`, since the ones before it took nothing out
  rcases hitems.eq_of_length_comp (hcolors.comp (hformattings.comp htail)) h with ⟨h1, hrest⟩
  rcases hcolors.eq_of_length_comp (hformattings.comp htail) (congrArg List.length hrest) with
    ⟨h2, hrest⟩
  rcases hformattings.eq_of_length_comp htail (congrArg List.length hrest) with ⟨h3, hrest⟩
  rcases hresets.eq_of_length_comp reduces_removeEndNonText (congrArg List.length hrest) with
    ⟨h4, h5⟩
  exact {
    isDouble_eq_false := isDouble_of_length (congrArg List.length h1)
    foundColor_eq_false := foundColor_of_length (congrArg List.length h2) (congrArg List.length h3)
    not_reset_first := not_reset_first_of_eq h4
    isText_last := isText_last_of_eq h5
  }

theorem squash_eq_some {l l' : ComponentList} {k : Nat} (hk : k + 1 < l.length)
    (h : squash l (k + 1) = some l')
    : ∃ front a b back, front.length = k ∧ l = front ++ .text a :: .text b :: back
        ∧ l' = front ++ .text (a ++ b) :: back := by
  have hk' : k < l.length := Nat.lt_of_succ_lt hk
  unfold squash at h
  rw [Nat.add_sub_cancel, List.getElem?_eq_getElem hk, List.getElem?_eq_getElem hk'] at h
  split at h
  . next a b ha hb =>
    rw [Option.some.injEq] at ha hb h
    have hfront : (l.take k).length = k := List.length_take_of_le (Nat.le_of_lt hk')
    have hl : l = l.take k ++ .text a :: .text b :: l.drop (k + 2) := by
      rw [← ha, ← hb, ← List.drop_eq_getElem_cons hk]
      exact eq_take_append_cons hk'
    refine ⟨l.take k, a, b, l.drop (k + 2), hfront, hl, ?_⟩
    rw [← h]
    conv => lhs; rw [hl]
    rw [List.set_append_right _ _ (by omega), hfront, Nat.sub_self,
      List.eraseIdx_append_of_length_le (by omega), hfront, Nat.add_sub_cancel_left]
    rfl
  . simp at h

theorem foundColor_append_text (front back back' : ComponentList) (a b : List Char)
    : foundColor (front ++ .text a :: back) = foundColor (front ++ .text b :: back') := by
  induction front with
  | nil => rfl
  | cons c front ih => cases c <;> simp only [List.cons_append, foundColor, ih]

theorem append_cons_eq_append_cons {front back front' back' : ComponentList} {x c : MotdComponent}
    (h : front ++ x :: back = front' ++ c :: back')
    : (∃ mid, front' = front ++ x :: mid ∧ back = mid ++ c :: back')
      ∨ c = x
      ∨ ∃ mid, front = front' ++ c :: mid ∧ back' = mid ++ x :: back := by
  rcases List.append_eq_append_iff.mp h with ⟨mid, hfront, hback⟩ | ⟨mid, hfront, hback⟩
  . cases mid with
    | nil =>
      rw [List.nil_append, List.cons.injEq] at hback
      exact Or.inr (Or.inl hback.1.symm)
    | cons d mid =>
      rw [List.cons_append, List.cons.injEq] at hback
      exact Or.inl ⟨mid, hback.1 ▸ hfront, hback.2⟩
  . cases mid with
    | nil =>
      rw [List.nil_append, List.cons.injEq] at hback
      exact Or.inr (Or.inl hback.1)
    | cons d mid =>
      rw [List.cons_append, List.cons.injEq] at hback
      exact Or.inr (Or.inr ⟨mid, hback.1 ▸ hfront, hback.2⟩)

theorem isDouble_text (c : MotdComponent) (s : List Char) : isDouble c (.text s) = false := by
  cases c <;> rfl

theorem Stable.merge {front back : ComponentList} {a b : List Char}
    (h : Stable (front ++ .text a :: .text b :: back))
    : Stable (front ++ .text (a ++ b) :: back) where
  isDouble_eq_false := by
    intro front' c d back' heq
    rcases append_cons_eq_append_cons heq with ⟨mid, -, rfl⟩ | rfl | ⟨mid, rfl, hmid⟩
    . exact h.isDouble_eq_false (front ++ .text a :: .text b :: mid) c d back' (by simp)
    . rfl
    . cases mid with
      | nil =>
        rw [List.nil_append, List.cons.injEq] at hmid
        rw [hmid.1]
        exact isDouble_text c _
      | cons e mid =>
        rw [List.cons_append, List.cons.injEq] at hmid
        rw [hmid.1]
        exact h.isDouble_eq_false front' c e (mid ++ .text a :: .text b :: back) (by simp)
  foundColor_eq_false := by
    intro front' c rest heq hc
    rcases append_cons_eq_append_cons heq with ⟨mid, -, rfl⟩ | rfl | ⟨mid, rfl, rfl⟩
    . exact h.foundColor_eq_false (front ++ .text a :: .text b :: mid) c rest (by simp) hc
    . cases hc
    . rw [foundColor_append_text mid back (.text b :: back) (a ++ b) a]
      exact h.foundColor_eq_false front' c _ (by simp) hc
  not_reset_first := by
    intro rest heq
    cases front with
    | nil => cases heq
    | cons c front =>
      rw [List.cons_append, List.cons.injEq] at heq
      exact h.not_reset_first _ (by rw [heq.1, List.cons_append])
  isText_last := by
    intro front' c heq
    rcases append_cons_eq_append_cons heq with ⟨mid, -, rfl⟩ | rfl | ⟨mid, -, hmid⟩
    . exact h.isText_last (front ++ .text a :: .text b :: mid) c (by simp)
    . rfl
    . simp at hmid

def NoTextsBefore (i : Nat) (l : ComponentList) : Prop :=
  ∀ k, k + 1 < i → ∀ a b, l[k]? = some (.text a) → l[k + 1]? ≠ some (.text b)

theorem squashNearbyStrings_spec {l : ComponentList} (h : Stable l)
    : Stable (squashNearbyStrings l)
      ∧ NoTextsBefore (squashNearbyStrings l).length (squashNearbyStrings l) := by
  rcases @sweep_induct _ _ squash_shrinks 1 l
    (fun i l => 1 ≤ i ∧ Stable l ∧ NoTextsBefore i l)
    (by
      intro i l l' ⟨hi, hstable, hnone⟩ hlt hedit
      rcases Nat.exists_eq_add_of_le' hi with ⟨k, rfl⟩
      rcases squash_eq_some hlt hedit with ⟨front, a, b, back, hfront, rfl, rfl⟩
      refine ⟨hi, hstable.merge, ?_⟩
      intro m hm a' b' ha'
      have hlt : m < front.length := by omega
      rw [List.getElem?_append_left hlt] at ha'
      have hbefore : (front ++ .text a :: .text b :: back)[m]? = some (.text a') := by
        rw [List.getElem?_append_left hlt]
        exact ha'
      have hnone := hnone m hm a'
      rcases Nat.lt_or_eq_of_le (Nat.succ_le_of_lt hlt) with hinner | hlast
      . have hnext := hnone b' hbefore
        rw [List.getElem?_append_left hinner] at hnext ⊢
        exact hnext
      . -- a text in front of the merged one was in front of a text before
        have hnext := hnone a hbefore
        rw [Nat.succ_eq_add_one] at hlast
        rw [hlast, getElem?_middle] at hnext
        exact absurd rfl hnext)
    (by
      intro i l ⟨hi, hstable, hnone⟩ hlt hedit
      refine ⟨Nat.le_succ_of_le hi, hstable, ?_⟩
      intro m hm a b ha hb
      rcases Nat.lt_or_eq_of_le (Nat.le_of_lt_succ hm) with hinner | rfl
      . exact hnone m hinner a b ha hb
      . rw [squash, Nat.add_sub_cancel, ha, hb] at hedit
        cases hedit)
    ⟨Nat.le_refl 1, h, fun m hm => absurd hm (by omega)⟩ with ⟨j, hj, -, hstable, hnone⟩
  exact ⟨hstable, fun m hm => hnone m (Nat.lt_of_lt_of_le hm hj)⟩

theorem Stable.loop_eq {l : ComponentList} (h : Stable l) : simplify.loop l = l := by
  unfold simplify.loop
  rw [h.simplifyRound_eq, if_pos rfl]

theorem squashNearbyStrings_eq {l : ComponentList} (h : NoTextsBefore l.length l)
    : squashNearbyStrings l = l := by
  apply sweep_of_forall_none
  intro k hk hlt
  rcases Nat.exists_eq_add_of_le' hk with ⟨k, rfl⟩
  unfold McStatus.Rust.squash
  split
  . next a b ha hb => exact absurd hb (h k hlt a b ha)
  . rfl

theorem loop_rounds (l : ComponentList)
    : ∃ n, (∀ m < n, (simplifyRound^[m + 1] l).length < (simplifyRound^[m] l).length)
        ∧ (simplifyRound^[n + 1] l).length = (simplifyRound^[n] l).length
        ∧ simplify.loop l = simplifyRound^[n + 1] l := by
  fun_induction simplify.loop l with
  | case1 l hlen =>
    refine ⟨0, fun m hm => absurd hm (Nat.not_lt_zero m), hlen, rfl⟩
  | case2 l hlen ih =>
    rcases ih with ⟨n, hshrink, hend, hloop⟩
    refine ⟨n + 1, ?_, hend, hloop⟩
    intro m hm
    cases m with
    | zero => exact Nat.lt_of_le_of_ne (length_simplifyRound_le l) hlen
    | succ m => exact hshrink m (Nat.lt_of_succ_lt_succ hm)

theorem stable_loop (l : ComponentList) : Stable (simplify.loop l) := by
  rcases loop_rounds l with ⟨n, -, hend, hloop⟩
  rw [Function.iterate_succ_apply'] at hend hloop
  have hstable := stable_of_length_simplifyRound hend
  rw [hloop, hstable.simplifyRound_eq]
  exact hstable

/-- What `simplify` leaves nothing of. -/
structure NormalForm (l : ComponentList) : Prop where
  no_adjacent_texts : ∀ front a b back, l ≠ front ++ .text a :: .text b :: back
  not_reset_first : ∀ rest, l ≠ .formatting .reset :: rest
  isText_last : ∀ front c, l = front ++ [c] → c.isColor = false ∧ c.isFormatting = false
  no_equal_formattings :
    ∀ front f back, l ≠ front ++ .formatting f :: .formatting f :: back
  text_before_color : ∀ front c mid c' back, l = front ++ c :: (mid ++ c' :: back) →
    c.isColor = true ∨ c.isFormatting = true → c'.isColor = true → ∃ t ∈ mid, t.isText = true

theorem foundColor_append_color {mid : ComponentList} (hmid : ∀ t ∈ mid, t.isText = false)
    {c : MotdComponent} (hc : c.isColor = true) (back : ComponentList)
    : foundColor (mid ++ c :: back) = true := by
  induction mid with
  | nil => cases c <;> first | rfl | cases hc
  | cons t mid ih =>
    have ht := hmid t List.mem_cons_self
    have ih := ih fun u hu => hmid u (List.mem_cons_of_mem t hu)
    cases t <;> first | exact ih | rfl | cases ht

theorem Stable.normalForm {l : ComponentList} (h : Stable l) (htexts : NoTextsBefore l.length l)
    : NormalForm l where
  no_adjacent_texts := by
    rintro front a b back rfl
    exact htexts front.length (by simp) a b (getElem?_middle _ _ _) (by simp)
  not_reset_first := h.not_reset_first
  isText_last := by
    intro front c heq
    have htext := h.isText_last front c heq
    cases c <;> first | exact ⟨rfl, rfl⟩ | cases htext
  no_equal_formattings := by
    intro front f back heq
    have hdouble := h.isDouble_eq_false front _ _ back heq
    simp [isDouble] at hdouble
  text_before_color := by
    intro front c mid c' back heq hc hc'
    have hhidden : foundColor (mid ++ c' :: back) = false := by
      apply h.foundColor_eq_false front c _ heq
      exact hc.elim isText_of_isColor isText_of_isFormatting
    apply Classical.byContradiction
    intro hnone
    have hmid : ∀ t ∈ mid, t.isText = false := by
      intro t ht
      cases htext : t.isText with
      | false => rfl
      | true => exact absurd ⟨t, ht, htext⟩ hnone
    rw [foundColor_append_color hmid hc' back] at hhidden
    cases hhidden

theorem simplify_normalForm (l : ComponentList)
    : (∃ n, (∀ m < n, (simplifyRound^[m + 1] l).length < (simplifyRound^[m] l).length)
          ∧ (simplifyRound^[n + 1] l).length = (simplifyRound^[n] l).length
          ∧ simplify l = squashNearbyStrings (simplifyRound^[n + 1] l))
        ∧ NormalForm (simplify l)
        ∧ simplify (simplify l) = simplify l := by
  rcases squashNearbyStrings_spec (stable_loop l) with ⟨hstable, htexts⟩
  refine ⟨?_, hstable.normalForm htexts, ?_⟩
  . rcases loop_rounds l with ⟨n, hshrink, hend, hloop⟩
    exact ⟨n, hshrink, hend, congrArg squashNearbyStrings hloop⟩
  . have hloop : simplify.loop (simplify l) = simplify l := hstable.loop_eq
    conv => lhs; rw [simplify, hloop]
    exact squashNearbyStrings_eq htexts

end Rust

end McStatus
