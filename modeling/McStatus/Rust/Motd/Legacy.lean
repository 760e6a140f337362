import McStatus.Library.Runs
import McStatus.Rust.Motd.Impl
import McStatus.Rust.Motd.Transform

/-!
This module contains what `parse_legacy_string` reads of a string: the codes one after another, and
the text between them.
-/

namespace McStatus

namespace Rust

/-- The code at `chars[i..]` and what follows it, as the outer loop looks for it. -/
def codeAt (s : List Char) : Option (MotdComponent × List Char) :=
  match s with
  | c :: code :: rest =>
    if isCodeStart c then
      match MinecraftColor.fromCodeChar code with
      | some color => some (.minecraftColor color, rest)
      | none =>
        match Formatting.fromCodeChar code with
        | some formatting => some (.formatting formatting, rest)
        | none =>
          match if code = '#' then legacyWebColor (c :: code :: rest) else none with
          | some color => some (.webColor color, rest.drop 6)
          | none => none
    else
      none
  | _ => none

theorem go_code {s rest : List Char} {component : MotdComponent}
    (h : codeAt s = some (component, rest))
    : parseLegacyString.go s = component :: parseLegacyString.go rest := by
  unfold codeAt at h
  split at h
  . next c code tail =>
    rw [parseLegacyString.go]
    by_cases hstart : isCodeStart c = true
    . rw [if_pos hstart] at h
      rw [if_pos hstart]
      cases hcolor : MinecraftColor.fromCodeChar code with
      | some color =>
        rw [hcolor] at h
        cases h
        rfl
      | none =>
        rw [hcolor] at h
        cases hformatting : Formatting.fromCodeChar code with
        | some formatting =>
          rw [hformatting] at h
          cases h
          rfl
        | none =>
          rw [hformatting] at h
          cases hweb : if code = '#' then legacyWebColor (c :: code :: tail) else none with
          | some color =>
            rw [hweb] at h
            cases h
            rfl
          | none =>
            rw [hweb] at h
            cases h
    . rw [if_neg hstart] at h
      cases h
  . cases h

theorem go_literal {c code : Char} {rest : List Char} (hstart : isCodeStart c = true)
    (h : codeAt (c :: code :: rest) = none)
    : parseLegacyString.go (c :: code :: rest)
        = .text [c] :: parseLegacyString.go (code :: rest) := by
  rw [codeAt, if_pos hstart] at h
  rw [parseLegacyString.go, if_pos hstart]
  cases hcolor : MinecraftColor.fromCodeChar code with
  | some color =>
    rw [hcolor] at h
    cases h
  | none =>
    rw [hcolor] at h
    cases hformatting : Formatting.fromCodeChar code with
    | some formatting =>
      rw [hformatting] at h
      cases h
    | none =>
      rw [hformatting] at h
      cases hweb : if code = '#' then legacyWebColor (c :: code :: rest) else none with
      | some color =>
        rw [hweb] at h
        cases h
      | none => rfl

theorem go_text {c : Char} {rest : List Char} (h : isCodeStart c = false ∨ rest = [])
    : parseLegacyString.go (c :: rest)
        = .text (c :: (plainText rest).1) :: parseLegacyString.go (plainText rest).2 := by
  cases rest with
  | nil =>
    rw [parseLegacyString.go, plainText]
    rw [parseLegacyString.go]
  | cons code rest =>
    have hplain : ¬ isCodeStart c = true := by
      rcases h with hc | hrest
      . rw [hc]
        exact Bool.false_ne_true
      . exact absurd hrest (List.cons_ne_nil code rest)
    rw [parseLegacyString.go, if_neg hplain]

def webColorOf (digits : List Char) : Option WebColor :=
  if digits.all (fun c => (hexDigit? c).isSome) then do
    return {
      r := ← parseHexU8 (digits.take 2)
      g := ← parseHexU8 ((digits.drop 2).take 2)
      b := ← parseHexU8 ((digits.drop 4).take 2)
    }
  else
    none

theorem legacyWebColor_eq (c code : Char) {digits : List Char} (h : digits.length = 6)
    (rest : List Char)
    : legacyWebColor (c :: code :: (digits ++ rest)) = webColorOf digits := by
  match digits, h with
  | [d₁, d₂, d₃, d₄, d₅, d₆], _ =>
    have hlen : 8 ≤ (c :: code :: ([d₁, d₂, d₃, d₄, d₅, d₆] ++ rest)).length := by
      simp only [List.length_cons, List.length_append, List.length_nil]
      omega
    rw [legacyWebColor, webColorOf]
    simp only [hlen, true_and]
    rfl

theorem legacyWebColor_short {s : List Char} (h : s.length < 8) : legacyWebColor s = none := by
  rw [legacyWebColor, if_neg (fun hlen => by omega)]

inductive Spells : List Char → MotdComponent → Prop where
  | color (c code : Char) (color : MinecraftColor) (hstart : isCodeStart c = true)
      (hcode : MinecraftColor.fromCodeChar code = some color)
        : Spells [c, code] (.minecraftColor color)
  | formatting (c code : Char) (f : Formatting) (hstart : isCodeStart c = true)
      (hcolor : MinecraftColor.fromCodeChar code = none)
      (hcode : Formatting.fromCodeChar code = some f) : Spells [c, code] (.formatting f)
  | webColor (c : Char) (digits : List Char) (color : WebColor) (hstart : isCodeStart c = true)
      (hlen : digits.length = 6) (hcode : webColorOf digits = some color)
      : Spells (c :: '#' :: digits) (.webColor color)

theorem codeAt_append {spelled : List Char} {component : MotdComponent}
    (h : Spells spelled component) (rest : List Char)
    : codeAt (spelled ++ rest) = some (component, rest) := by
  cases h with
  | color c code color hstart hcode =>
    rw [List.cons_append, List.cons_append, codeAt, if_pos hstart, hcode, List.nil_append]
  | formatting c code f hstart hcolor hcode =>
    rw [List.cons_append, List.cons_append, codeAt, if_pos hstart, hcolor, hcode, List.nil_append]
  | webColor c digits color hstart hlen hcode =>
    have hcolor : MinecraftColor.fromCodeChar '#' = none := by decide
    have hformatting : Formatting.fromCodeChar '#' = none := by decide
    rw [List.cons_append, List.cons_append, codeAt, if_pos hstart, hcolor, hformatting]
    dsimp only
    rw [if_pos rfl, legacyWebColor_eq c '#' hlen, hcode, ← hlen, List.drop_left]

theorem exists_of_codeAt {s rest : List Char} {component : MotdComponent}
    (h : codeAt s = some (component, rest))
    : ∃ spelled, Spells spelled component ∧ s = spelled ++ rest := by
  unfold codeAt at h
  split at h
  . next c code tail =>
    split at h
    . next hstart =>
      split at h
      . next color hcolor =>
        cases h
        exact ⟨[c, code], .color c code color hstart hcolor, rfl⟩
      . next hcolor =>
        split at h
        . next f hformatting =>
          cases h
          exact ⟨[c, code], .formatting c code f hstart hcolor hformatting, rfl⟩
        . next hformatting =>
          split at h
          . next color hweb =>
            cases h
            split at hweb
            . next hcode =>
              subst hcode
              by_cases hlen : tail.length < 6
              . rw [legacyWebColor_short
                  (by rw [List.length_cons, List.length_cons]; omega)] at hweb
                cases hweb
              . have htake : (tail.take 6).length = 6 := by
                  rw [List.length_take]
                  omega
                rw [← List.take_append_drop 6 tail, legacyWebColor_eq c '#' htake] at hweb
                refine ⟨c :: '#' :: tail.take 6, .webColor c _ color hstart htake hweb, ?_⟩
                rw [List.cons_append, List.cons_append, List.take_append_drop]
            . cases hweb
          . cases h
    . cases h
  . cases h

/-- The ways in which the loop of `parse_legacy_string` goes round. -/
inductive Step : List Char → MotdComponent → List Char → Prop where
  | code (spelled rest : List Char) (component : MotdComponent) (h : Spells spelled component)
      : Step (spelled ++ rest) component rest
  | literal (c : Char) (rest : List Char) (hstart : isCodeStart c = true) (hrest : rest ≠ [])
      (h : codeAt (c :: rest) = none) : Step (c :: rest) (.text [c]) rest
  | text (c : Char) (rest : List Char) (h : isCodeStart c = false ∨ rest = [])
      : Step (c :: rest) (.text (c :: (plainText rest).1)) (plainText rest).2

theorem exists_step (c : Char) (s : List Char)
    : ∃ component rest, Step (c :: s) component rest := by
  by_cases htext : isCodeStart c = false ∨ s = []
  . exact ⟨_, _, .text c s htext⟩
  rw [not_or, Bool.not_eq_false] at htext
  cases hcode : codeAt (c :: s) with
  | none => exact ⟨_, _, .literal c s htext.1 htext.2 hcode⟩
  | some code =>
    rcases exists_of_codeAt hcode with ⟨spelled, hspells, heq⟩
    rw [heq]
    exact ⟨_, _, .code spelled code.2 code.1 hspells⟩

theorem Step.go_eq {s rest : List Char} {component : MotdComponent} (h : Step s component rest)
    : parseLegacyString.go s = component :: parseLegacyString.go rest := by
  cases h with
  | code spelled _ _ hspells => exact go_code (codeAt_append hspells rest)
  | literal c _ hstart hrest hcode =>
    cases rest with
    | nil => exact absurd rfl hrest
    | cons code rest => exact go_literal hstart hcode
  | text c rest htext => exact go_text htext

theorem Spells.length {spelled : List Char} {component : MotdComponent}
    (h : Spells spelled component) : 2 ≤ spelled.length := by
  cases h with
  | color => exact Nat.le_refl 2
  | formatting => exact Nat.le_refl 2
  | webColor c digits color hstart hlen hcode =>
    rw [List.length_cons, List.length_cons]
    omega

theorem Step.length_lt {s rest : List Char} {component : MotdComponent} (h : Step s component rest)
    : rest.length < s.length := by
  cases h with
  | code spelled _ _ hspells =>
    have := hspells.length
    rw [List.length_append]
    omega
  | literal c _ hstart hrest hcode => exact Nat.lt_succ_self _
  | text c rest htext =>
    have := length_plainText_le rest
    rw [List.length_cons]
    omega

theorem step_induction {P : List Char → Prop} (hnil : P [])
    (hstep : ∀ s component rest, Step s component rest → P rest → P s) (s : List Char) : P s := by
  induction hn : s.length using Nat.strongRecOn generalizing s with
  | ind n ih =>
    cases s with
    | nil => exact hnil
    | cons c s =>
      rcases exists_step c s with ⟨component, rest, h⟩
      have hlt := h.length_lt
      rw [hn] at hlt
      exact hstep _ _ _ h (ih rest.length hlt rest rfl)

theorem length_of_codeAt {s rest : List Char} {component : MotdComponent}
    (h : codeAt s = some (component, rest)) : rest.length < s.length := by
  rcases exists_of_codeAt h with ⟨spelled, hspells, rfl⟩
  exact (Step.code spelled rest component hspells).length_lt

def legacyTokens (s : List Char) : List (Char ⊕ MotdComponent) :=
  match h : codeAt s with
  | some (component, rest) =>
    have := length_of_codeAt h
    .inr component :: legacyTokens rest
  | none =>
    match s with
    | [] => []
    | c :: s => .inl c :: legacyTokens s
termination_by s.length

theorem legacyTokens_nil : legacyTokens [] = [] := by
  rw [legacyTokens]
  split
  . next h => cases h
  . rfl

theorem legacyTokens_of_codeAt {s rest : List Char} {component : MotdComponent}
    (h : codeAt s = some (component, rest))
    : legacyTokens s = .inr component :: legacyTokens rest := by
  rw [legacyTokens]
  split
  . next heq =>
    rw [h] at heq
    cases heq
    rfl
  . next heq =>
    rw [h] at heq
    cases heq

theorem legacyTokens_code {spelled : List Char} {component : MotdComponent}
    (h : Spells spelled component) (rest : List Char)
    : legacyTokens (spelled ++ rest) = .inr component :: legacyTokens rest :=
  legacyTokens_of_codeAt (codeAt_append h rest)

theorem legacyTokens_char {c : Char} {s : List Char} (h : codeAt (c :: s) = none)
    : legacyTokens (c :: s) = .inl c :: legacyTokens s := by
  rw [legacyTokens]
  split
  . next heq =>
    rw [h] at heq
    cases heq
  . rfl

theorem codeAt_of_not_breaksText {s : List Char} (h : breaksText s = false) : codeAt s = none := by
  cases hat : codeAt s with
  | none => rfl
  | some code =>
    rcases code with ⟨component, rest⟩
    rcases exists_of_codeAt hat with ⟨spelled, hspells, rfl⟩
    cases hspells with
    | color c code color hstart hcode => simp [breaksText, hstart, hcode] at h
    | formatting c code f hstart hcolor hcode => simp [breaksText, hstart, hcode] at h
    | webColor c digits color hstart hlen hcode =>
      simp [breaksText, hstart, hlen] at h

theorem codeAt_of_text {c : Char} {s : List Char} (h : isCodeStart c = false ∨ s = [])
    : codeAt (c :: s) = none := by
  cases s with
  | nil => rfl
  | cons code rest =>
    rcases h with hc | hrest
    . rw [codeAt, if_neg (by rw [hc]; exact Bool.false_ne_true)]
    . cases hrest

theorem plainText_of_breaksText {s : List Char} (h : breaksText s = true)
    : plainText s = ([], s) := by
  cases s with
  | nil => rfl
  | cons c s => rw [plainText, if_pos h]

theorem plainText_cons {c : Char} {s : List Char} (h : breaksText (c :: s) = false)
    : plainText (c :: s) = (c :: (plainText s).1, (plainText s).2) := by
  rw [plainText, if_neg (by rw [h]; exact Bool.false_ne_true)]

theorem legacyTokens_plainText (s : List Char)
    : legacyTokens s = (plainText s).1.map .inl ++ legacyTokens (plainText s).2 := by
  induction s with
  | nil => rfl
  | cons c s ih =>
    cases h : breaksText (c :: s) with
    | true => rw [plainText_of_breaksText h, List.map_nil, List.nil_append]
    | false =>
      rw [plainText_cons h, legacyTokens_char (codeAt_of_not_breaksText h), ih, List.map_cons,
        List.cons_append]

def MotdComponent.part (c : MotdComponent) : List Char ⊕ MotdComponent :=
  match c with
  | text s => .inl s
  | c => .inr c

theorem Spells.part {spelled : List Char} {component : MotdComponent} (h : Spells spelled component)
    : component.part = .inr component := by
  cases h <;> rfl

theorem explode_parseLegacyString (s : List Char)
    : Runs.explode ((parseLegacyString s).map MotdComponent.part) = legacyTokens s := by
  unfold parseLegacyString
  induction s using step_induction with
  | hnil =>
    rw [parseLegacyString.go, legacyTokens_nil]
    rfl
  | hstep s component rest h ih =>
    rw [h.go_eq, List.map_cons]
    cases h with
    | code spelled _ _ hspells =>
      rw [hspells.part, Runs.explode_mark, ih, legacyTokens_code hspells]
    | literal c _ hstart hrest hcode =>
      rw [legacyTokens_char hcode, ← ih]
      rfl
    | text c rest htext =>
      rw [legacyTokens_char (codeAt_of_text htext), legacyTokens_plainText rest, ← ih]
      rfl

end Rust

end McStatus
