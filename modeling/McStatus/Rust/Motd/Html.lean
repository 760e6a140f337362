import McStatus.Library.Html
import McStatus.Rust.Motd.Transform

/-!
This module contains the proof that `to_html` lets no markup of the MOTD through: what it writes is
a sequence of its own tags and of escaped text.
-/

namespace McStatus

namespace Rust

theorem htmlEscape_eq (s : List Char) : htmlEscape s = Html.escape s := by
  rw [htmlEscape, Html.escape]
  simp only [replaceChar, List.flatMap_assoc]
  congr 1
  funext c
  by_cases hamp : c = '&'
  . subst hamp
    decide
  by_cases hlt : c = '<'
  . subst hlt
    decide
  by_cases hgt : c = '>'
  . subst hgt
    decide
  by_cases hquot : c = '\"'
  . subst hquot
    decide
  simp only [Html.escapeChar_of_ne hamp hlt hgt hquot, if_neg hamp, if_neg hlt, if_neg hgt,
    if_neg hquot, List.flatMap_cons, List.flatMap_nil, List.append_nil]

theorem not_mem_format06X (n : UInt32) : '>' ∉ format06X n := by
  intro hmem
  rcases List.mem_append.mp hmem with hzero | hdigit
  . exact absurd (List.eq_of_mem_replicate hzero) (by decide)
  . rcases List.mem_map.mp hdigit with ⟨c, hc, heq⟩
    rcases Html.mem_toDigits (by decide) _ hc with ⟨d, hd, rfl⟩
    have hdigits : ∀ d < 16, (Nat.digitChar d).toUpper ≠ '>' := by decide
    exact hdigits d hd heq

def formattingTag? (f : Formatting) : Option (List Char) :=
  match f with
  | .bold => some "span style=\"font-weight: bold\"".toList
  | .italic => some "span style=\"font-style: italic\"".toList
  | .underlined => some "span style=\"text-decoration: underline\"".toList
  | .strikethrough => some "span style=\"text-decoration: line-through\"".toList
  | .obfuscated => some "span class=\"obfuscated\"".toList
  | .reset => none

def colorTag (rgb : UInt32) : List Char :=
  "span style=\"color: #".toList ++ format06X rgb ++ ['\"']

def openTag? (c : MotdComponent) : Option (List Char) :=
  match c with
  | .formatting f => formattingTag? f
  | .minecraftColor c => some (colorTag c.rgb)
  | .webColor c => some (colorTag c.rgb)
  | .text _ | .translationTag _ => none

def Emitted (l : ComponentList) (body : List Char) : Prop :=
  body = "/span".toList ∨ ∃ c ∈ l, openTag? c = some body

def MotdComponent.eraseText (c : MotdComponent) : MotdComponent :=
  match c with
  | text _ => text []
  | translationTag _ => translationTag []
  | c => c

def SameShape (l l' : ComponentList) : Prop :=
  l.map MotdComponent.eraseText = l'.map MotdComponent.eraseText

def closeTokens (n : Nat) : List Html.Token :=
  List.replicate n (.tag "/span".toList)

/-- What `to_html` writes of a component when `n` tags are open. -/
def stepTokens (n : Nat) (c : MotdComponent) : List Html.Token :=
  match c with
  | .text s => [.text (Html.escape s)]
  | .formatting f =>
    match formattingTag? f with
    | some body => [.tag body]
    | none => closeTokens n
  | .minecraftColor c => closeTokens n ++ [.tag (colorTag c.rgb)]
  | .webColor c => closeTokens n ++ [.tag (colorTag c.rgb)]
  | .translationTag id => [.text (Html.escape id)]

def stepDepth (n : Nat) (c : MotdComponent) : Nat :=
  match c with
  | .text _ | .translationTag _ => n
  | .formatting f => if (formattingTag? f).isSome then n + 1 else 0
  | .minecraftColor _ | .webColor _ => 1

def htmlTokens (n : Nat) (l : ComponentList) : List Html.Token :=
  match l with
  | [] => closeTokens n
  | c :: l => stepTokens n c ++ htmlTokens (stepDepth n c) l

def HtmlState.atDepth (result : List Char) (n : Nat) : HtmlState where
  result := result
  open_tags := List.replicate n "</span>".toList

theorem render_close : (Html.Token.tag "/span".toList).render = "</span>".toList := by
  decide

theorem render_closeTokens (n : Nat)
    : Html.render (closeTokens n) = (List.replicate n "</span>".toList).flatten := by
  rw [closeTokens, Html.render, List.flatMap_def, List.map_replicate, render_close]

theorem closeAllTags_eq (result : List Char) (open_tags : List (List Char))
    : HtmlState.closeAllTags result open_tags = HtmlState.atDepth
        (result ++ open_tags.flatten) 0 := by
  induction open_tags generalizing result with
  | nil =>
    rw [List.flatten_nil, List.append_nil]
    rfl
  | cons tag open_tags ih => rw [HtmlState.closeAllTags, ih, List.flatten_cons, List.append_assoc]

theorem closeAllTags_atDepth (result : List Char) (n : Nat)
    : HtmlState.closeAllTags (HtmlState.atDepth result n).result
          (HtmlState.atDepth result n).open_tags
        = HtmlState.atDepth (result ++ Html.render (closeTokens n)) 0 := by
  rw [closeAllTags_eq, render_closeTokens]
  rfl

theorem render_colorTag (rgb : UInt32)
    : "<span style=\"color: ".toList ++ '#' :: format06X rgb ++ "\">".toList
        = (Html.Token.tag (colorTag rgb)).render := by
  have hstart : "<span style=\"color: ".toList ++ ['#']
      = '<' :: "span style=\"color: #".toList := by
    decide
  have hend : "\">".toList = ['\"', '>'] := by decide
  unfold colorTag
  rw [Html.Token.render, List.append_cons "<span style=\"color: ".toList '#', hstart, hend]
  simp only [List.append_assoc, List.cons_append, List.nil_append]

theorem pushTag_atDepth (result : List Char) (n : Nat) {tag body : List Char}
    (h : tag = (Html.Token.tag body).render)
    : ((HtmlState.atDepth result n).pushStr tag).pushTag
        = HtmlState.atDepth (result ++ Html.render [.tag body]) (n + 1) := by
  rw [h, Html.render_cons, Html.render_nil, List.append_nil]
  rfl

theorem pushColor_atDepth (result : List Char) (n : Nat) (rgb : UInt32)
    : (HtmlState.atDepth result n).pushColor rgb
        = HtmlState.atDepth
            (result ++ Html.render (closeTokens n ++ [.tag (colorTag rgb)])) 1 := by
  rw [HtmlState.pushColor, closeAllTags_atDepth, Html.render_append, ← List.append_assoc]
  exact pushTag_atDepth _ 0 (render_colorTag rgb)

theorem step_atDepth (result : List Char) (n : Nat) (c : MotdComponent)
    : (HtmlState.atDepth result n).step c
        = HtmlState.atDepth (result ++ Html.render (stepTokens n c)) (stepDepth n c) := by
  cases c with
  | text s =>
    rw [HtmlState.step, htmlEscape_eq]
    simp [HtmlState.pushStr, HtmlState.atDepth, stepTokens, stepDepth, Html.Token.render]
  | translationTag id =>
    rw [HtmlState.step, htmlEscape_eq]
    simp [HtmlState.pushStr, HtmlState.atDepth, stepTokens, stepDepth, Html.Token.render]
  | minecraftColor c => exact pushColor_atDepth result n c.rgb
  | webColor c => exact pushColor_atDepth result n c.rgb
  | formatting f =>
    cases f with
    | reset => exact closeAllTags_atDepth result n
    | bold => exact pushTag_atDepth result n (by decide)
    | italic => exact pushTag_atDepth result n (by decide)
    | underlined => exact pushTag_atDepth result n (by decide)
    | strikethrough => exact pushTag_atDepth result n (by decide)
    | obfuscated => exact pushTag_atDepth result n (by decide)

theorem foldl_atDepth (result : List Char) (n : Nat) (l : ComponentList)
    : let st := l.foldl HtmlState.step (HtmlState.atDepth result n)
      (HtmlState.closeAllTags st.result st.open_tags).result
        = result ++ Html.render (htmlTokens n l) := by
  induction l generalizing result n with
  | nil =>
    dsimp only [List.foldl_nil]
    rw [closeAllTags_atDepth]
    rfl
  | cons c l ih =>
    dsimp only at ih ⊢
    rw [List.foldl_cons, step_atDepth, ih, htmlTokens, Html.render_append, List.append_assoc]

theorem toHtml_eq (l : ComponentList) : toHtml l = Html.render (htmlTokens 0 l) :=
  foldl_atDepth [] 0 l

theorem nest_close (n : Nat) (bodies : List (List Char))
    : Html.nest (List.replicate n "span".toList) (Html.tagsOf (closeTokens n) ++ bodies)
        = Html.nest [] bodies := by
  rw [closeTokens, Html.tagsOf_replicate]
  exact Html.nest_replicate_close n "span".toList bodies

theorem nest_formattingTag {f : Formatting} {body : List Char} (h : formattingTag? f = some body)
    (stack bodies : List (List Char))
    : Html.nest stack (body :: bodies) = Html.nest ("span".toList :: stack) bodies := by
  cases f <;> cases h <;> rfl

theorem nest_colorTag (rgb : UInt32) (stack bodies : List (List Char))
    : Html.nest stack (colorTag rgb :: bodies) = Html.nest ("span".toList :: stack) bodies := by
  rfl

theorem nest_stepTokens (n : Nat) (c : MotdComponent) (bodies : List (List Char))
    : Html.nest (List.replicate n "span".toList) (Html.tagsOf (stepTokens n c) ++ bodies)
        = Html.nest (List.replicate (stepDepth n c) "span".toList) bodies := by
  cases c with
  | text s => rfl
  | translationTag id => rfl
  | minecraftColor c =>
    rw [stepTokens, Html.tagsOf_append, List.append_assoc, nest_close]
    exact nest_colorTag c.rgb [] bodies
  | webColor c =>
    rw [stepTokens, Html.tagsOf_append, List.append_assoc, nest_close]
    exact nest_colorTag c.rgb [] bodies
  | formatting f =>
    rw [stepTokens, stepDepth]
    cases h : formattingTag? f with
    | none => exact nest_close n bodies
    | some body => exact nest_formattingTag h _ bodies

theorem nest_htmlTokens (n : Nat) (l : ComponentList)
    : Html.nest (List.replicate n "span".toList) (Html.tagsOf (htmlTokens n l)) = some [] := by
  induction l generalizing n with
  | nil =>
    have := nest_close n []
    rwa [List.append_nil] at this
  | cons c l ih => rw [htmlTokens, Html.tagsOf_append, nest_stepTokens, ih]

def Safe (l : ComponentList) (t : Html.Token) : Prop :=
  match t with
  | .tag body => Emitted l body
  | .text s => Html.Escaped s

theorem safe_closeTokens {l : ComponentList} {n : Nat} {t : Html.Token} (h : t ∈ closeTokens n)
    : Safe l t := by
  rw [List.eq_of_mem_replicate h]
  exact Or.inl rfl

theorem safe_stepTokens {l : ComponentList} {c : MotdComponent} (hc : c ∈ l) {n : Nat}
    {t : Html.Token} (h : t ∈ stepTokens n c) : Safe l t := by
  cases c with
  | text s =>
    rw [List.mem_singleton.mp h]
    exact Html.escaped_escape s
  | translationTag id =>
    rw [List.mem_singleton.mp h]
    exact Html.escaped_escape id
  | minecraftColor c =>
    rcases List.mem_append.mp h with hclose | hopen
    . exact safe_closeTokens hclose
    . rw [List.mem_singleton.mp hopen]
      exact Or.inr ⟨_, hc, rfl⟩
  | webColor c =>
    rcases List.mem_append.mp h with hclose | hopen
    . exact safe_closeTokens hclose
    . rw [List.mem_singleton.mp hopen]
      exact Or.inr ⟨_, hc, rfl⟩
  | formatting f =>
    rw [stepTokens] at h
    cases hf : formattingTag? f with
    | none =>
      rw [hf] at h
      exact safe_closeTokens h
    | some body =>
      rw [hf] at h
      rw [List.mem_singleton.mp h]
      exact Or.inr ⟨_, hc, hf⟩

theorem safe_htmlTokens {l : ComponentList} {n : Nat} {t : Html.Token} (h : t ∈ htmlTokens n l)
    : Safe l t := by
  induction l generalizing n with
  | nil => exact safe_closeTokens h
  | cons c l ih =>
    rcases List.mem_append.mp h with hfirst | hrest
    . exact safe_stepTokens List.mem_cons_self hfirst
    . have hsafe := ih hrest
      cases t with
      | text s => exact hsafe
      | tag body =>
        rcases hsafe with hclose | ⟨c', hmem, hopen⟩
        . exact Or.inl hclose
        . exact Or.inr ⟨c', List.mem_cons_of_mem c hmem, hopen⟩

theorem not_mem_openTag {c : MotdComponent} {body : List Char} (h : openTag? c = some body)
    : '>' ∉ body := by
  have hcolor : ∀ rgb, '>' ∉ colorTag rgb := by
    intro rgb
    unfold colorTag
    rw [List.mem_append, List.mem_append, not_or, not_or]
    exact ⟨⟨by decide, not_mem_format06X rgb⟩, by decide⟩
  cases c with
  | text s => cases h
  | translationTag id => cases h
  | minecraftColor c =>
    cases h
    exact hcolor c.rgb
  | webColor c =>
    cases h
    exact hcolor c.rgb
  | formatting f => cases f <;> cases h <;> decide

theorem Safe.plain {l : ComponentList} {t : Html.Token} (h : Safe l t) : t.Plain := by
  cases t with
  | text s => exact h.not_mem_lt
  | tag body =>
    rcases h with rfl | ⟨c, _, hopen⟩
    . change '>' ∉ "/span".toList
      decide
    . exact not_mem_openTag hopen

theorem tags_toHtml (l : ComponentList)
    : Html.tags (toHtml l) = Html.tagsOf (htmlTokens 0 l) := by
  rw [toHtml_eq]
  exact Html.tags_render fun t ht => (safe_htmlTokens ht).plain

theorem textOf_closeTokens (n : Nat) : Html.textOf (closeTokens n) = [] :=
  Html.textOf_replicate n _

theorem textOf_stepTokens (n : Nat) (c : MotdComponent)
    : Html.textOf (stepTokens n c) = Html.escape (toPlain [c]) := by
  cases c with
  | text s => simp [stepTokens, toPlain]
  | translationTag id => simp [stepTokens, toPlain]
  | minecraftColor c => simp [stepTokens, textOf_closeTokens, toPlain, Html.escape]
  | webColor c => simp [stepTokens, textOf_closeTokens, toPlain, Html.escape]
  | formatting f =>
    rw [stepTokens]
    cases formattingTag? f with
    | none => exact textOf_closeTokens n
    | some body => rfl

theorem toPlain_cons (c : MotdComponent) (l : ComponentList)
    : toPlain (c :: l) = toPlain [c] ++ toPlain l := by
  cases c <;> simp [toPlain]

theorem unescape_htmlTokens (n : Nat) (l : ComponentList)
    : Html.unescape (Html.textOf (htmlTokens n l)) = toPlain l := by
  induction l generalizing n with
  | nil =>
    rw [htmlTokens, textOf_closeTokens]
    rfl
  | cons c l ih =>
    rw [htmlTokens, Html.textOf_append, textOf_stepTokens, Html.unescape_escape_append, ih,
      ← toPlain_cons]

theorem tagsOf_stepTokens_eraseText (n : Nat) (c : MotdComponent)
    : Html.tagsOf (stepTokens n c.eraseText) = Html.tagsOf (stepTokens n c)
        ∧ stepDepth n c.eraseText = stepDepth n c := by
  cases c <;> exact ⟨rfl, rfl⟩

theorem tagsOf_htmlTokens_eraseText (n : Nat) (l : ComponentList)
    : Html.tagsOf (htmlTokens n (l.map MotdComponent.eraseText))
        = Html.tagsOf (htmlTokens n l) := by
  induction l generalizing n with
  | nil => rfl
  | cons c l ih =>
    rcases tagsOf_stepTokens_eraseText n c with ⟨htags, hdepth⟩
    rw [List.map_cons, htmlTokens, htmlTokens, Html.tagsOf_append, Html.tagsOf_append, htags,
      hdepth, ih]

theorem toHtml_safe (l : ComponentList)
    : ∃ tokens : List Html.Token,
        toHtml l = Html.render tokens
        ∧ Html.tags (toHtml l) = Html.tagsOf tokens
        ∧ (∀ body ∈ Html.tagsOf tokens, Emitted l body)
        ∧ Html.WellNested (Html.tagsOf tokens)
        ∧ (∀ s, .text s ∈ tokens → Html.Escaped s)
        ∧ Html.unescape (Html.textOf tokens) = toPlain l
        ∧ ∀ l', SameShape l l' → Html.tags (toHtml l') = Html.tags (toHtml l) := by
  refine ⟨htmlTokens 0 l, toHtml_eq l, tags_toHtml l, ?_, nest_htmlTokens 0 l, ?_,
    unescape_htmlTokens 0 l, ?_⟩
  . intro body hbody
    rcases List.mem_filterMap.mp hbody with ⟨t, ht, htag⟩
    cases t with
    | text s => cases htag
    | tag body' =>
      cases htag
      exact safe_htmlTokens ht
  . intro s hs
    exact safe_htmlTokens hs
  . intro l' hshape
    rw [tags_toHtml, tags_toHtml, ← tagsOf_htmlTokens_eraseText, ← hshape,
      tagsOf_htmlTokens_eraseText]

end Rust

end McStatus
