import McStatus.Rust.Motd.SimplifySound

/-!
This module contains what each pass of `simplify` does to the display when it is run alone. Only the
fourth pass relies on the ones before it.
-/

namespace McStatus

namespace Rust

open Display

namespace MotdComponent

def color? (c : MotdComponent) : Option ColorState :=
  match c with
  | minecraftColor c => some (.minecraft c)
  | webColor c => some (.web c)
  | _ => none

def setsStyle (c : MotdComponent) : Bool :=
  c.isColor || c = .formatting .reset

end MotdComponent

def lastColor (l : ComponentList) : Option ColorState :=
  l.reverse.findSome? MotdComponent.color?

/-- The color `c` comes right after a reset, and is the color that was set last before. -/
def Reapplied (l : ComponentList) (c : MotdComponent) : Prop :=
  ∃ before s, l = before ++ [.formatting .reset] ∧ c.color? = some s ∧ lastColor before = some s

def keptBackward (l : ComponentList) : ComponentList :=
  match l with
  | [] => []
  | c :: .formatting .reset :: before =>
    if reAppliesSame c (lastColor before.reverse) then
      keptBackward before
    else
      c :: keptBackward (.formatting .reset :: before)
  | c :: before => c :: keptBackward before

def kept (l : ComponentList) : ComponentList :=
  (keptBackward l.reverse).reverse

section Kept

variable {c : MotdComponent} {s : ColorState} {l before mid : ComponentList}

theorem reAppliesSame_iff {active_color : Option ColorState}
    : reAppliesSame c active_color = true ↔ ∃ s, c.color? = some s ∧ active_color = some s := by
  cases c <;> cases active_color with
  | none => simp [reAppliesSame, MotdComponent.color?]
  | some s => cases s <;> simp [reAppliesSame, MotdComponent.color?, eq_comm]

theorem walkBackward_fst (before : ComponentList) (fs : List Formatting)
    : (walkBackward before none fs).1 = before.findSome? MotdComponent.color? := by
  induction before generalizing fs with
  | nil => rfl
  | cons c before ih =>
    rw [List.findSome?_cons]
    cases c with
    | formatting f =>
      cases f <;> simp only [walkBackward] <;> first | exact ih _ | (split <;> exact ih _)
    | text t => exact ih fs
    | translationTag id => exact ih fs
    | minecraftColor c => rfl
    | webColor c => rfl

theorem lastColor_append (l r : ComponentList)
    : lastColor (l ++ r) = (lastColor r).or (lastColor l) := by
  rw [lastColor, List.reverse_append, List.findSome?_append]
  rfl

theorem lastColor_concat (l : ComponentList) (c : MotdComponent)
    : lastColor (l ++ [c]) = c.color?.or (lastColor l) := by
  rw [lastColor_append]
  cases hc : c.color? <;> simp [lastColor, hc]

theorem kept_nil : kept [] = [] := rfl

theorem kept_pair (hc : c.color? = some s) (hlast : lastColor before = some s)
    : kept (before ++ [.formatting .reset, c]) = kept before := by
  have hsame : reAppliesSame c (lastColor before) = true := reAppliesSame_iff.mpr ⟨s, hc, hlast⟩
  simp [kept, keptBackward, hsame]

theorem kept_concat (h : ¬ Reapplied l c) : kept (l ++ [c]) = kept l ++ [c] := by
  rw [kept, kept, List.reverse_append, List.reverse_singleton, List.singleton_append]
  cases hl : l.reverse with
  | nil => rfl
  | cons y before =>
    have hrest : keptBackward (c :: y :: before) = c :: keptBackward (y :: before) := by
      by_cases hy : y = .formatting .reset
      . subst hy
        rw [List.reverse_eq_iff, List.reverse_cons] at hl
        rw [keptBackward, if_neg]
        intro hsame
        rcases reAppliesSame_iff.mp hsame with ⟨s, hc, hlast⟩
        exact h ⟨before.reverse, s, hl, hc, hlast⟩
      . rw [keptBackward]
        intro _ heq
        cases heq
        exact hy rfl
    rw [hrest, List.reverse_cons]

theorem kept_append (h : ∀ c ∈ mid, c.color? = none) : kept (l ++ mid) = kept l ++ mid := by
  induction mid using List.reverseRecOn with
  | nil => rw [List.append_nil, List.append_nil]
  | append_singleton mid c ih =>
    have hnot : ¬ Reapplied (l ++ mid) c := by
      rintro ⟨_, s, -, hc, -⟩
      rw [h c (by simp)] at hc
      cases hc
    rw [← List.append_assoc, kept_concat hnot, ih fun x hx => h x (by simp [hx]), List.append_assoc]

theorem kept_induction {P : ComponentList → Prop} (nil : P [])
    (pair : ∀ before c s, c.color? = some s → lastColor before = some s → P before →
      P (before ++ [.formatting .reset, c]))
    (concat : ∀ l c, ¬ Reapplied l c → P l → P (l ++ [c])) (l : ComponentList) : P l := by
  induction hn : l.length using Nat.strongRecOn generalizing l with
  | ind n ih =>
    rcases List.eq_nil_or_concat l with rfl | ⟨l, c, rfl⟩
    . exact nil
    . rw [List.concat_eq_append] at hn ⊢
      rw [List.length_append, List.length_singleton] at hn
      by_cases h : Reapplied l c
      . rcases h with ⟨before, s, rfl, hc, hlast⟩
        rw [List.length_append, List.length_singleton] at hn
        rw [List.append_assoc]
        exact pair before c s hc hlast (ih before.length (by omega) before rfl)
      . exact concat l c h (ih l.length (by omega) l rfl)

theorem lastColor_kept (l : ComponentList) : lastColor (kept l) = lastColor l := by
  induction l using kept_induction with
  | nil => rfl
  | pair before c s hc hlast ih =>
    rw [kept_pair hc hlast, ih, hlast, lastColor_append]
    simp [lastColor, hc]
  | concat l c h ih => rw [kept_concat h, lastColor_concat, lastColor_concat, ih]

/-- The loop has been through `front` and its last component, which is still there. -/
def Swept (l : ComponentList) (i : Nat) (l' : ComponentList) : Prop :=
  (l' = kept l ∧ l'.length ≤ i)
    ∨ ∃ front c rest, l = front ++ c :: rest ∧ l' = kept front ++ c :: rest
      ∧ ¬ Reapplied front c ∧ i = (kept front).length + 1

theorem swept_start (l : ComponentList) : Swept l 1 l := by
  cases l with
  | nil => exact Or.inl ⟨rfl, Nat.zero_le 1⟩
  | cons c rest =>
    refine Or.inr ⟨[], c, rest, rfl, rfl, ?_, rfl⟩
    rintro ⟨before, s, heq, -⟩
    exact absurd heq.symm (by simp)

theorem removeReset_swept (front rest : ComponentList) (x y : MotdComponent)
    : removeReset (kept front ++ x :: y :: rest) ((kept front).length + 1)
      = if x = .formatting .reset ∧ reAppliesSame y (lastColor front) = true then
          some (kept front ++ rest)
        else
          none := by
  have hx : (kept front ++ x :: y :: rest)[(kept front).length]? = some x := by simp
  have hy : (kept front ++ x :: y :: rest)[(kept front).length + 1]? = some y := by simp
  have hcolor : (walkBackward ((kept front ++ x :: y :: rest).take (kept front).length).reverse
      none []).1 = lastColor front := by
    rw [walkBackward_fst, List.take_left, ← lastColor_kept]
    rfl
  have herase : ((kept front ++ x :: y :: rest).eraseIdx ((kept front).length + 1)).eraseIdx
      (kept front).length = kept front ++ rest := by
    simp [List.eraseIdx_append_of_length_le]
  rw [removeReset, Nat.add_sub_cancel, hx, hy]
  by_cases hreset : x = .formatting .reset
  . subst hreset
    dsimp only
    rw [hcolor, herase]
    simp
  . rw [if_neg fun h => hreset h.1]
    split
    . next heq _ =>
      rw [Option.some.injEq] at heq
      exact absurd heq hreset
    . rfl

theorem not_reapplied_of_color? {x : MotdComponent} (hx : x.color? = some s)
    : ¬ Reapplied (l ++ [x]) c := by
  rintro ⟨before, _, heq, -⟩
  rcases List.append_inj' heq rfl with ⟨-, hreset⟩
  cases hreset
  cases hx

theorem Swept.remove {front rest : ComponentList} {x y : MotdComponent}
    (hx : x = .formatting .reset)
    (hy : reAppliesSame y (lastColor front) = true)
    : Swept (front ++ x :: y :: rest) ((kept front).length + 1) (kept front ++ rest) := by
  subst hx
  rcases reAppliesSame_iff.mp hy with ⟨s, hs, hlast⟩
  have hkept := kept_pair hs hlast
  cases rest with
  | nil => exact Or.inl ⟨by rw [List.append_nil, hkept], by simp⟩
  | cons z rest =>
    refine Or.inr ⟨front ++ [.formatting .reset, y], z, rest, by simp, by rw [hkept], ?_,
      by rw [hkept]⟩
    have := @not_reapplied_of_color? z s (front ++ [.formatting .reset]) y hs
    rwa [List.append_assoc] at this

theorem Swept.keep {front rest : ComponentList} {x y : MotdComponent} (hkept : ¬ Reapplied front x)
    (h : ¬ (x = .formatting .reset ∧ reAppliesSame y (lastColor front) = true))
    : Swept (front ++ x :: y :: rest) ((kept front).length + 1 + 1)
        (kept front ++ x :: y :: rest) := by
  refine Or.inr ⟨front ++ [x], y, rest, by simp, by simp [kept_concat hkept], ?_,
    by simp [kept_concat hkept]⟩
  rintro ⟨before, s, heq, hs, hlast⟩
  rcases List.append_inj' heq rfl with ⟨rfl, hreset⟩
  cases hreset
  exact h ⟨rfl, reAppliesSame_iff.mpr ⟨s, hs, hlast⟩⟩

theorem sweep_removeReset (l : ComponentList)
    : sweep removeReset removeReset_shrinks 1 l = kept l := by
  rcases @sweep_induct _ _ removeReset_shrinks 1 l (Swept l)
    (by
      rintro i l' l'' (⟨rfl, hlen⟩ | ⟨front, x, rest, rfl, rfl, hx, rfl⟩) hlt hedit
      . omega
      . cases rest with
        | nil => simp at hlt
        | cons y rest =>
          rw [removeReset_swept] at hedit
          split at hedit
          . next hpair =>
            rw [Option.some.injEq] at hedit
            rw [← hedit]
            exact Swept.remove hpair.1 hpair.2
          . cases hedit)
    (by
      rintro i l' (⟨rfl, hlen⟩ | ⟨front, x, rest, rfl, rfl, hx, rfl⟩) hlt hedit
      . omega
      . cases rest with
        | nil => simp at hlt
        | cons y rest =>
          rw [removeReset_swept] at hedit
          split at hedit
          . cases hedit
          . next hpair => exact Swept.keep hx hpair)
    (swept_start l) with ⟨j, hj, ⟨hkept, -⟩ | ⟨front, c, rest, rfl, heq, hc, rfl⟩⟩
  . exact hkept
  . rw [heq, List.length_append, List.length_cons] at hj
    rw [List.eq_nil_of_length_eq_zero (l := rest) (by omega)] at heq ⊢
    rw [heq, kept_concat hc]

theorem not_reapplied_of_none (hc : c.color? = none) : ¬ Reapplied l c := by
  rintro ⟨_, _, _, hs, _⟩
  rw [hc] at hs
  cases hs

theorem apply_of_color? (hc : c.color? = some s) (style : Style)
    : display.apply style c = { color := some s, formattings := ∅ } := by
  cases c <;> cases hc <;> rfl

theorem shows_of_color? (hc : c.color? = some s) : display.shows c = [] := by
  cases c <;> cases hc <;> rfl

theorem render_kept_concat (l : ComponentList) (c : MotdComponent)
    : display.render Style.plain (kept (l ++ [c]))
      = display.render Style.plain (kept l)
        ++ (display.shows c).map (fun x => (x, display.final Style.plain (kept l))) := by
  by_cases h : Reapplied l c
  . rcases h with ⟨before, s, rfl, hc, hlast⟩
    rw [List.append_assoc, List.singleton_append, kept_pair hc hlast, shows_of_color? hc,
      kept_concat (not_reapplied_of_none rfl), render_append]
    simp [display]
  . rw [kept_concat h, render_append, render_cons, render_nil, List.append_nil]

end Kept

/--
Since a color `s` that stays was set, nothing but the pairs that are removed has reset it, and every
formatting is one of `mid`.
-/
inductive Intact (s : ColorState) (mid : ComponentList) : ComponentList → Prop where
  | color {before : ComponentList} {c : MotdComponent} (hc : c.color? = some s)
      (hkept : ¬ Reapplied before c) : Intact s mid (before ++ [c])
  | text {before : ComponentList} {c : MotdComponent} (hc : c.isText)
      (hbefore : Intact s mid before) : Intact s mid (before ++ [c])
  | formatting {before : ComponentList} {f : Formatting} (hreset : f ≠ .reset)
      (hmid : .formatting f ∈ mid) (hbefore : Intact s mid before)
      : Intact s mid (before ++ [.formatting f])
  | pair {before : ComponentList} {c : MotdComponent} (hc : c.color? = some s)
      (hbefore : Intact s mid before) : Intact s mid (before ++ [.formatting .reset, c])

def Style.Within (s : ColorState) (mid : ComponentList) (style : Style) : Prop :=
  style.color = some s ∧ ∀ f ∈ style.formattings, .formatting f ∈ mid

section Intact

variable {c : MotdComponent} {s : ColorState} {l before mid : ComponentList}

theorem color_apply (style : Style) (c : MotdComponent) (h : c ≠ .formatting .reset)
    : (display.apply style c).color = c.color?.or style.color := by
  cases c with
  | formatting f => cases f <;> first | rfl | exact absurd rfl h
  | text t => rfl
  | translationTag id => rfl
  | minecraftColor c => rfl
  | webColor c => rfl

theorem lastColor_of_final (h : (display.final Style.plain l).color = some s)
    : lastColor l = some s := by
  induction l using List.reverseRecOn with
  | nil => cases h
  | append_singleton l c ih =>
    rw [final_append, final_cons, final_nil] at h
    rw [lastColor_concat]
    by_cases hreset : c = .formatting .reset
    . subst hreset
      cases h
    . rw [color_apply _ c hreset] at h
      cases hc : c.color? with
      | none =>
        rw [hc] at h
        exact ih h
      | some s' =>
        rw [hc] at h
        exact h

theorem final_kept_concat (h : ¬ Reapplied l c)
    : display.final Style.plain (kept (l ++ [c]))
      = display.apply (display.final Style.plain (kept l)) c := by
  rw [kept_concat h, final_append, final_cons, final_nil]

theorem apply_of_isText (hc : c.isText) (style : Style) : display.apply style c = style := by
  cases c <;> first | rfl | cases hc

theorem color?_of_isText (hc : c.isText) : c.color? = none := by
  cases c <;> first | rfl | cases hc

theorem Style.within_insert_iff {f : Formatting} {style : Style}
    : ({ style with formattings := insert f style.formattings } : Style).Within s mid
      ↔ .formatting f ∈ mid ∧ style.Within s mid := by
  simp only [Style.Within, Finset.forall_mem_insert]
  exact and_left_comm

theorem within_of_intact (h : Intact s mid before)
    : (display.final Style.plain (kept before)).Within s mid := by
  induction h with
  | color hc hkept =>
    rw [final_kept_concat hkept, apply_of_color? hc]
    exact ⟨rfl, by simp⟩
  | text hc hbefore ih =>
    rw [final_kept_concat (not_reapplied_of_none (color?_of_isText hc)), apply_of_isText hc]
    exact ih
  | formatting hreset hmid hbefore ih =>
    rw [final_kept_concat (not_reapplied_of_none rfl), apply_formatting hreset]
    exact Style.within_insert_iff.mpr ⟨hmid, ih⟩
  | pair hc hbefore ih =>
    have hlast := lastColor_of_final ih.1
    rw [lastColor_kept] at hlast
    rw [kept_pair hc hlast]
    exact ih

theorem intact_of_within (h : (display.final Style.plain (kept before)).Within s mid)
    : Intact s mid before := by
  induction before using kept_induction with
  | nil => cases h.1
  | pair before c s' hc hlast ih =>
    rw [kept_pair hc hlast] at h
    have hsame := lastColor_of_final h.1
    rw [lastColor_kept, hlast, Option.some.injEq] at hsame
    rw [hsame] at hc
    exact .pair hc (ih h)
  | concat l c hkept ih =>
    rw [final_kept_concat hkept] at h
    cases hc : c.color? with
    | some s' =>
      rw [apply_of_color? hc] at h
      exact .color (hc.trans h.1) hkept
    | none =>
      cases c with
      | text t => exact .text rfl (ih h)
      | translationTag id => exact .text rfl (ih h)
      | minecraftColor c => cases hc
      | webColor c => cases hc
      | formatting f =>
        by_cases hreset : f = .reset
        . subst hreset
          cases h.1
        . rw [apply_formatting hreset, Style.within_insert_iff] at h
          exact .formatting hreset h.1 (ih h.2)

theorem intact_iff
    : Intact s mid before ↔ (display.final Style.plain (kept before)).Within s mid :=
  ⟨within_of_intact, intact_of_within⟩

theorem color_final_of_clean (h : ∀ c ∈ mid, c.setsStyle = false) (style : Style)
    : (display.final style mid).color = style.color := by
  induction mid generalizing style with
  | nil => rfl
  | cons c mid ih =>
    have hc := h c List.mem_cons_self
    rw [final_cons, ih fun x hx => h x (List.mem_cons_of_mem c hx)]
    rw [MotdComponent.setsStyle, Bool.or_eq_false_iff, decide_eq_false_iff_not] at hc
    rw [color_apply style c hc.2]
    cases c <;> first | rfl | cases hc.1

theorem mem_formattings_final_iff (h : ∀ c ∈ mid, c.setsStyle = false) (style : Style)
    (f : Formatting)
    : f ∈ (display.final style mid).formattings
      ↔ f ∈ style.formattings ∨ .formatting f ∈ mid := by
  induction mid generalizing style with
  | nil => simp
  | cons c mid ih =>
    have hc := h c List.mem_cons_self
    rw [final_cons, ih fun x hx => h x (List.mem_cons_of_mem c hx), List.mem_cons]
    cases c with
    | text t => simp [display, Style.apply]
    | translationTag id => simp [display, Style.apply]
    | minecraftColor c => cases hc
    | webColor c => cases hc
    | formatting f' =>
      have hreset : f' ≠ .reset := by
        rintro rfl
        cases hc
      rw [apply_formatting hreset, Finset.mem_insert, MotdComponent.formatting.injEq]
      tauto

theorem Style.eq_of_parts {a b : Style} (hcolor : a.color = b.color)
    (hformattings : ∀ f, f ∈ a.formattings ↔ f ∈ b.formattings) : a = b := by
  cases a
  cases b
  rw [Style.mk.injEq]
  exact ⟨hcolor, Finset.ext hformattings⟩

theorem final_eq_final_iff (h : ∀ c ∈ mid, c.setsStyle = false) (style : Style)
    : display.final style mid = display.final { color := some s, formattings := ∅ } mid
      ↔ style.Within s mid := by
  constructor
  . intro heq
    constructor
    . rw [← color_final_of_clean h style, heq, color_final_of_clean h]
    . intro f hf
      have hmem := (mem_formattings_final_iff h style f).mpr (Or.inl hf)
      rw [heq, mem_formattings_final_iff h] at hmem
      simpa using hmem
  . rintro ⟨hcolor, hformattings⟩
    apply Style.eq_of_parts
    . rw [color_final_of_clean h, color_final_of_clean h, hcolor]
    . intro f
      rw [mem_formattings_final_iff h, mem_formattings_final_iff h]
      constructor
      . rintro (hf | hf)
        . exact Or.inr (hformattings f hf)
        . exact Or.inr hf
      . rintro (hf | hf)
        . cases hf
        . exact Or.inr hf

theorem color?_of_not_setsStyle (h : c.setsStyle = false) : c.color? = none := by
  cases c <;> first | rfl | cases h

theorem setsStyle_of_color? (hc : c.color? = some s) : c.setsStyle = true := by
  cases c <;> cases hc <;> rfl

theorem apply_of_setsStyle (h : c.setsStyle = true) (style style' : Style)
    : display.apply style c = display.apply style' c := by
  cases c with
  | formatting f => cases f <;> first | rfl | cases h
  | text t => cases h
  | translationTag id => cases h
  | minecraftColor c => rfl
  | webColor c => rfl

theorem final_kept_of_pair (hc : c.color? = some s) (hlast : lastColor before = some s)
    (hmid : ∀ x ∈ mid, x.setsStyle = false)
    : display.final Style.plain (kept (before ++ .formatting .reset :: c :: mid))
        = display.final Style.plain (before ++ .formatting .reset :: c :: mid)
      ↔ Intact s mid before := by
  have hkept := kept_append (l := before ++ [.formatting .reset, c])
    fun x hx => color?_of_not_setsStyle (hmid x hx)
  rw [List.append_assoc, kept_pair hc hlast] at hkept
  have hleft : display.final Style.plain (kept (before ++ .formatting .reset :: c :: mid))
      = display.final (display.final Style.plain (kept before)) mid := by
    rw [← final_append, ← hkept]
    rfl
  have hright : display.final Style.plain (before ++ .formatting .reset :: c :: mid)
      = display.final { color := some s, formattings := ∅ } mid := by
    rw [final_append, final_cons, final_cons, apply_of_color? hc]
  rw [hleft, hright, final_eq_final_iff hmid, intact_iff]

theorem final_kept_of_not_reapplied (hkept : ¬ Reapplied l c) (hc : c.setsStyle = true)
    (hmid : ∀ x ∈ mid, x.setsStyle = false)
    : display.final Style.plain (kept (l ++ c :: mid))
        = display.final Style.plain (l ++ c :: mid) := by
  have happend := kept_append (l := l ++ [c]) fun x hx => color?_of_not_setsStyle (hmid x hx)
  rw [kept_concat hkept, ← List.append_cons, ← List.append_cons] at happend
  rw [happend, final_append, final_append, final_cons, final_cons, apply_of_setsStyle hc]

/-- Of a pair that is removed and what comes after it, all that is set has been set before. -/
def RestoredBefore (front : ComponentList) : Prop :=
  ∀ before c s mid, front = before ++ .formatting .reset :: c :: mid → c.color? = some s →
    lastColor before = some s → (∀ x ∈ mid, x.setsStyle = false) → Intact s mid before

theorem final_kept_iff (front : ComponentList)
    : display.final Style.plain (kept front) = display.final Style.plain front
      ↔ RestoredBefore front := by
  rcases forall_not_or_since (fun c => c.setsStyle = true) front with
    hnone | ⟨l, e, mid, rfl, he, hmid⟩
  . have hclean : ∀ x ∈ front, x.setsStyle = false := fun x hx => Bool.eq_false_iff.mpr (hnone x hx)
    have hkept := kept_append (l := []) fun x hx => color?_of_not_setsStyle (hclean x hx)
    rw [List.nil_append, kept_nil, List.nil_append] at hkept
    rw [hkept]
    refine ⟨fun _ before c s mid heq => ?_, fun _ => rfl⟩
    exact absurd (hclean (.formatting .reset) (by simp [heq])) (by decide)
  . have hclean : ∀ x ∈ mid, x.setsStyle = false := fun x hx => Bool.eq_false_iff.mpr (hmid x hx)
    have hunique : ∀ before c s mid', l ++ e :: mid = before ++ .formatting .reset :: c :: mid' →
        c.color? = some s → (∀ x ∈ mid', x.setsStyle = false) →
        l = before ++ [.formatting .reset] ∧ e = c ∧ mid = mid' := by
      intro before c s mid' heq hc hmid'
      exact last_unique (heq.trans (List.append_cons _ _ _)) he (setsStyle_of_color? hc) hmid
        fun x hx => Bool.eq_false_iff.mp (hmid' x hx)
    by_cases hpair : Reapplied l e
    . rcases hpair with ⟨before, s, rfl, hs, hlast⟩
      rw [← List.append_cons, final_kept_of_pair hs hlast hclean]
      constructor
      . rintro hintact before' c s' mid' heq hc hlast' hmid'
        rw [List.append_cons] at heq
        rcases hunique before' c s' mid' heq hc hmid' with ⟨hbefore, rfl, rfl⟩
        rw [hs, Option.some.injEq] at hc
        rw [← List.append_cancel_right hbefore, ← hc]
        exact hintact
      . intro h
        exact h before e s mid rfl hs hlast hclean
    . refine ⟨fun _ before c s mid' heq hc hlast hmid' => ?_,
        fun _ => final_kept_of_not_reapplied hpair he hclean⟩
      rcases hunique before c s mid' heq hc hmid' with ⟨rfl, rfl, -⟩
      exact absurd ⟨before, s, rfl, hc, hlast⟩ hpair

end Intact

/--
What the fourth pass relies on: where a reset is followed by the color that was set last before it,
that color is still there without the two, and so are no formattings but those that are set again
before anything is shown.
-/
def RestoresStyle (l : ComponentList) : Prop :=
  ∀ front x back, l = front ++ x :: back → display.shows x ≠ [] → RestoredBefore front

theorem render_kept_iff (l : ComponentList)
    : display.render Style.plain (kept l) = display.render Style.plain l ↔ RestoresStyle l := by
  rw [display.render_pass_iff (congrArg _ kept_nil) render_kept_concat]
  simp only [final_kept_iff]
  rfl

theorem not_reapplied_cons {l : ComponentList} {c : MotdComponent} (h : ¬ Reapplied l c)
    : ¬ Reapplied (.formatting .reset :: l) c := by
  rintro ⟨before, s, heq, hc, hlast⟩
  cases before with
  | nil => cases hlast
  | cons x before =>
    cases heq
    rw [← List.singleton_append, lastColor_append] at hlast
    cases hbefore : lastColor before with
    | none =>
      rw [hbefore] at hlast
      cases hlast
    | some s' =>
      rw [hbefore] at hlast
      cases hlast
      exact h ⟨before, s, rfl, hc, hbefore⟩

theorem kept_cons_reset (l : ComponentList)
    : kept (.formatting .reset :: l) = .formatting .reset :: kept l := by
  induction l using kept_induction with
  | nil => rfl
  | pair before c s hc hlast ih =>
    have hlast' : lastColor (.formatting .reset :: before) = some s := by
      rw [← List.singleton_append, lastColor_append, hlast]
      rfl
    rw [← List.cons_append, kept_pair hc hlast', kept_pair hc hlast, ih]
  | concat l c h ih =>
    rw [← List.cons_append, kept_concat (not_reapplied_cons h), kept_concat h, ih, List.cons_append]

theorem render_kept_dropWhile (l : ComponentList)
    : display.render Style.plain (kept (l.dropWhile (· = .formatting .reset)))
      = display.render Style.plain (kept l) := by
  induction l with
  | nil => rfl
  | cons c l ih =>
    rw [List.dropWhile_cons]
    split
    . next hreset =>
      rw [decide_eq_true_eq] at hreset
      rw [ih, hreset, kept_cons_reset]
      rfl
    . rfl

def Sound (pass : ComponentList → ComponentList) (components : ComponentList) : Prop :=
  display.render Style.plain (pass components) = display.render Style.plain components

theorem sound_removeMeaninglessResetsAndColors_iff (components : ComponentList)
    : Sound removeMeaninglessResetsAndColors components ↔ RestoresStyle components := by
  rw [Sound, removeMeaninglessResetsAndColors, sweep_removeReset, render_kept_dropWhile,
    render_kept_iff]

theorem passes_sound_iff (components : ComponentList)
    : Sound removeDoubleItems components
      ∧ Sound removeDoubleColors components
      ∧ Sound removeFormattingBeforeColor components
      ∧ (Sound removeMeaninglessResetsAndColors components ↔ RestoresStyle components)
      ∧ Sound removeEndNonText components
      ∧ Sound squashNearbyStrings components := by
  refine ⟨?_, ?_, ?_, ?_, ?_, ?_⟩
  . exact (removeDoubleItems_same components Style.plain).1.symm
  . exact (removeDoubleColors_same components Style.plain).1.symm
  . exact (removeFormattingBeforeColor_same components Style.plain).1.symm
  . exact sound_removeMeaninglessResetsAndColors_iff components
  . exact render_removeEndNonText components Style.plain
  . exact (squashNearbyStrings_same components Style.plain).1.symm

/-- The reset that ends the bold text goes with the color after it, and `c` is bold as well. -/
def boldThenRed : ComponentList :=
  [.minecraftColor .red, .text ['a'], .formatting .bold, .text ['b'], .formatting .reset,
    .minecraftColor .red, .text ['c']]

theorem removeMeaninglessResetsAndColors_not_sound
    : ¬ Sound removeMeaninglessResetsAndColors boldThenRed := by
  rw [Sound, removeMeaninglessResetsAndColors, sweep_removeReset]
  decide

end Rust

end McStatus
