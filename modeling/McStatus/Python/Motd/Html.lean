import McStatus.Library.Html
import McStatus.Python.Motd.KeyErrors

/-!
This module contains what the HTML transformer writes as tags and texts, and when a reader of its
output sees these tags and no others: the texts are not escaped.
-/

namespace McStatus

open Fallible

namespace Python

namespace HtmlTransformer

def formattingTags? (f : Formatting) : Option (List Char × List Char) :=
  match f with
  | .bold => some (['b'], ['/', 'b'])
  | .strikethrough => some (['s'], ['/', 's'])
  | .italic => some (['i'], ['/', 'i'])
  | .underlined => some (['u'], ['/', 'u'])
  | .obfuscated => some ("span class=obfuscated".toList, "/span".toList)
  | .reset => none

def minecraftColorTag (colors : ForegroundBackground) : List Char :=
  "span style='color:rgb".toList ++ tupleStr colors.1 ++ ";text-shadow:0 0 1px rgb".toList
    ++ tupleStr colors.2 ++ ['\'']

def webColorTag (rgb : Rgb) : List Char :=
  "span style='color:rgb".toList ++ tupleStr rgb ++ ['\'']

def strTokens (s : List Char) : List Html.Token :=
  s.map fun c => if c = '\n' then .tag "br".toList else .text [c]

/-- What is written of a component, where `closing` are the tags that the next reset writes. -/
def componentTokens (bedrock : Bool) (component : ParsedMotdComponent) (closing : List (List Char))
    : Except Exception (List Html.Token × List (List Char)) :=
  match component with
  | .minecraftColor c => do
    let colors ← lookupColor bedrock c
    return (closing.map .tag ++ [.tag (minecraftColorTag colors)], ["/span".toList])
  | .webColor c => .ok ([.tag (webColorTag c.rgb)], closing ++ ["/span".toList])
  | .formatting f =>
    match formattingTags? f with
    | some (openTag, closeTag) => .ok ([.tag openTag], closing ++ [closeTag])
    | none => .ok (closing.map .tag, [])
  | .translationTag _ => .ok ([], closing)
  | .str s => .ok (strTokens s, closing)

def bodyTokens (bedrock : Bool) (l : List ParsedMotdComponent) (closing : List (List Char))
    : Except Exception (List Html.Token × List (List Char)) :=
  match l with
  | [] => .ok ([], closing)
  | c :: l => do
    let (tokens, closing) ← componentTokens bedrock c closing
    let (rest, closing) ← bodyTokens bedrock l closing
    return (tokens ++ rest, closing)

def frame (body : List Html.Token) (closing : List (List Char)) : List Html.Token :=
  .tag ['p'] :: (body ++ closing.map .tag) ++ [.tag "/p".toList]

def tokens (bedrock : Bool) (l : List ParsedMotdComponent)
    : Except Exception (List Html.Token) := do
  let (body, closing) ← bodyTokens bedrock l []
  return frame body closing

def htmlTags (bedrock : Bool) (l : List ParsedMotdComponent)
    : Except Exception (List (List Char)) :=
  ((htmlTransformer bedrock).transform l).map Html.tags

/-- The tags that the transformer writes for colors, formattings, resets and newlines. -/
def ownTags (bedrock : Bool) (l : List ParsedMotdComponent)
    : Except Exception (List (List Char)) :=
  (tokens bedrock l).map Html.tagsOf

def renderTags (closing : List (List Char)) : List (List Char) :=
  closing.map fun body => (Html.Token.tag body).render

theorem flatten_renderTags (closing : List (List Char))
    : (renderTags closing).flatten = Html.render (closing.map .tag) := by
  rw [renderTags, Html.render, List.flatMap_def, List.map_map]
  rfl

theorem render_closeSpan : (Html.Token.tag "/span".toList).render = "</span>".toList := by
  decide

theorem render_minecraftColorTag (colors : ForegroundBackground)
    : (Html.Token.tag (minecraftColorTag colors)).render
        = "<span style='color:rgb".toList ++ tupleStr colors.1
          ++ ";text-shadow:0 0 1px rgb".toList ++ tupleStr colors.2 ++ "'>".toList := by
  have hstart : "<span style='color:rgb".toList = '<' :: "span style='color:rgb".toList := by decide
  have hend : "'>".toList = ['\'', '>'] := by decide
  unfold minecraftColorTag
  rw [Html.Token.render, hstart, hend]
  simp only [List.append_assoc, List.cons_append, List.nil_append]

theorem render_webColorTag (rgb : Rgb)
    : (Html.Token.tag (webColorTag rgb)).render
        = "<span style='color:rgb".toList ++ tupleStr rgb ++ "'>".toList := by
  have hstart : "<span style='color:rgb".toList = '<' :: "span style='color:rgb".toList := by decide
  have hend : "'>".toList = ['\'', '>'] := by decide
  unfold webColorTag
  rw [Html.Token.render, hstart, hend]
  simp only [List.append_assoc, List.cons_append, List.nil_append]

theorem render_strTokens (s : List Char) : Html.render (strTokens s) = handleStr s := by
  rw [Html.render, strTokens, handleStr, List.flatMap_map]
  congr 1
  funext c
  by_cases hc : c = '\n'
  . rw [if_pos hc, if_pos hc]
    decide
  . rw [if_neg hc, if_neg hc]
    rfl

/-- The strings that are written and the strings in `on_reset`. -/
def written (tokens : List Html.Token × List (List Char)) : List Char × List (List Char) :=
  (Html.render tokens.1, renderTags tokens.2)

theorem written_tag (closing : List (List Char)) (openTag closeTag : List Char)
    : written ([.tag openTag], closing ++ [closeTag])
        = ((Html.Token.tag openTag).render,
          renderTags closing ++ [(Html.Token.tag closeTag).render]) := by
  rw [written, renderTags, List.map_append, Html.render_cons, Html.render_nil, List.append_nil]
  rfl

theorem handleFormatting_eq (bedrock : Bool) (f : Formatting) (closing : List (List Char))
    : handleFormatting f (renderTags closing)
        = (componentTokens bedrock (.formatting f) closing).map written := by
  cases f with
  | reset =>
    rw [handleFormatting, flatten_renderTags]
    rfl
  | obfuscated =>
    have hopen : "<span class=obfuscated>".toList
        = (Html.Token.tag "span class=obfuscated".toList).render := by
      decide
    rw [handleFormatting, ← render_closeSpan, hopen, ← written_tag]
    rfl
  | bold => exact congrArg Except.ok (written_tag closing ['b'] ['/', 'b']).symm
  | italic => exact congrArg Except.ok (written_tag closing ['i'] ['/', 'i']).symm
  | underlined => exact congrArg Except.ok (written_tag closing ['u'] ['/', 'u']).symm
  | strikethrough => exact congrArg Except.ok (written_tag closing ['s'] ['/', 's']).symm

theorem handleMinecraftColor_eq (bedrock : Bool) (c : MinecraftColor)
    : handleMinecraftColor bedrock c []
        = (lookupColor bedrock c).map fun colors =>
            ((Html.Token.tag (minecraftColorTag colors)).render, renderTags ["/span".toList]) := by
  rw [handleMinecraftColor]
  cases lookupColor bedrock c with
  | error e => rfl
  | ok colors =>
    rw [ok_bind, ← render_closeSpan]
    exact congrArg (fun s => Except.ok (s, renderTags ["/span".toList]))
      (render_minecraftColorTag colors).symm

def joined (results : List (List Char) × List (List Char)) : List Char × List (List Char) :=
  (results.1.flatten, results.2)

theorem handleComponent_eq (bedrock : Bool) (component : ParsedMotdComponent)
    (closing : List (List Char))
    : ((htmlTransformer bedrock).handleComponent component (renderTags closing)).map joined
        = (componentTokens bedrock component closing).map written := by
  cases component with
  | minecraftColor c =>
    rw [Transformer.handleComponent, componentTokens]
    change (((handleFormatting .reset (renderTags closing) >>= fun (additional, s) =>
      handleMinecraftColor bedrock c s >>= fun (handled, s) => pure ([additional, handled], s))
        : Except Exception _).map joined) = _
    rw [handleFormatting, ok_bind]
    dsimp only
    rw [handleMinecraftColor_eq, flatten_renderTags]
    cases lookupColor bedrock c with
    | error e => rfl
    | ok colors =>
      refine congrArg Except.ok ?_
      rw [written, Html.render_append, Html.render_cons, Html.render_nil]
      rfl
  | webColor c =>
    refine congrArg Except.ok ?_
    rw [written_tag, render_closeSpan, render_webColorTag, joined, List.flatten_cons,
      List.flatten_nil, List.append_nil]
  | formatting f =>
    rw [← handleFormatting_eq]
    change ((handleFormatting f (renderTags closing) >>= fun (handled, s) => pure ([handled], s))
        : Except Exception _).map joined = _
    cases handleFormatting f (renderTags closing) with
    | error e => rfl
    | ok handled => simp [Except.map, joined]
  | translationTag id => rfl
  | str s =>
    refine congrArg Except.ok ?_
    rw [written, render_strTokens, joined, List.flatten_cons, List.flatten_nil, List.append_nil]

theorem handleComponents_eq (bedrock : Bool) (l : List ParsedMotdComponent)
    (closing : List (List Char))
    : ((htmlTransformer bedrock).handleComponents l (renderTags closing)).map joined
        = (bodyTokens bedrock l closing).map written := by
  induction l generalizing closing with
  | nil => rfl
  | cons c l ih =>
    apply map_bind_eq (handleComponent_eq bedrock c closing)
    rintro ⟨handled, s⟩ ⟨tokens, closing⟩ heq
    rcases Prod.mk.inj heq with ⟨hhandled, rfl⟩
    apply map_bind_eq (ih closing)
    rintro ⟨results, s⟩ ⟨rest, closing⟩ heq
    rcases Prod.mk.inj heq with ⟨hresults, rfl⟩
    refine congrArg Except.ok ?_
    rw [joined, written, List.flatten_append, Html.render_append, hhandled, hresults]

theorem transform_eq (bedrock : Bool) (l : List ParsedMotdComponent)
    : (htmlTransformer bedrock).transform l = (tokens bedrock l).map Html.render := by
  have hid (x : Except Exception (List Char)) : x.map id = x := by
    cases x <;> rfl
  rw [← hid ((htmlTransformer bedrock).transform l)]
  apply map_bind_eq (handleComponents_eq bedrock l [])
  rintro ⟨results, s⟩ ⟨body, closing⟩ heq
  rcases Prod.mk.inj heq with ⟨hresults, rfl⟩
  refine congrArg Except.ok ?_
  have hstart : "<p>".toList = (Html.Token.tag ['p']).render := by decide
  have hend : "</p>".toList = (Html.Token.tag "/p".toList).render := by decide
  rw [frame, Html.render_append, Html.render_cons, Html.render_append, Html.render_cons,
    Html.render_nil, List.append_nil, ← hend, ← hstart, ← flatten_renderTags, ← hresults,
    ← List.append_assoc]
  rfl

theorem plainBody_decimal (n : Int) : Html.PlainBody (decimal n) := by
  rw [decimal]
  split
  . have hsign : Html.PlainBody ['-'] := by decide
    exact hsign.append (Html.plainBody_toDigits n.natAbs)
  . exact Html.plainBody_toDigits n.natAbs

theorem plainBody_tupleStr (rgb : Rgb) : Html.PlainBody (tupleStr rgb) := by
  have hcomma : Html.PlainBody ", ".toList := by decide
  have hopen : Html.PlainBody ['('] := by decide
  exact (((((hopen.append (plainBody_decimal rgb.1)).append hcomma).append
    (plainBody_decimal rgb.2.1)).append hcomma).append (plainBody_decimal rgb.2.2)).append
      (by decide)

theorem plainBody_minecraftColorTag (colors : ForegroundBackground)
    : Html.PlainBody (minecraftColorTag colors) := by
  have hstart : Html.PlainBody "span style='color:rgb".toList := by decide
  have hmiddle : Html.PlainBody ";text-shadow:0 0 1px rgb".toList := by decide
  exact (((hstart.append (plainBody_tupleStr colors.1)).append hmiddle).append
    (plainBody_tupleStr colors.2)).append (by decide)

theorem plainBody_webColorTag (rgb : Rgb) : Html.PlainBody (webColorTag rgb) := by
  have hstart : Html.PlainBody "span style='color:rgb".toList := by decide
  exact (hstart.append (plainBody_tupleStr rgb)).append (by decide)

theorem plainBody_formattingTags {f : Formatting} {openTag closeTag : List Char}
    (h : formattingTags? f = some (openTag, closeTag))
    : Html.PlainBody openTag ∧ Html.PlainBody closeTag := by
  cases f <;> cases h <;> exact ⟨by decide, by decide⟩

theorem tagsOf_strTokens (s : List Char)
    : Html.tagsOf (strTokens s) = List.replicate (s.count '\n') "br".toList := by
  induction s with
  | nil => rfl
  | cons c s ih =>
    rw [strTokens] at ih
    rw [strTokens, List.map_cons]
    by_cases hc : c = '\n'
    . rw [if_pos hc, Html.tagsOf_tag, ih, hc, List.count_cons_self, List.replicate_succ]
    . rw [if_neg hc, Html.tagsOf_text, ih, List.count_cons_of_ne hc]

theorem mem_textOf_strTokens (s : List Char) : '<' ∈ Html.textOf (strTokens s) ↔ '<' ∈ s := by
  rw [Html.mem_textOf]
  constructor
  . rintro ⟨t, ht, hmem⟩
    rcases List.mem_map.mp ht with ⟨c, hc, heq⟩
    split at heq
    . cases heq
    . cases heq
      rwa [List.mem_singleton.mp hmem]
  . intro hmem
    refine ⟨['<'], List.mem_map.mpr ⟨'<', hmem, ?_⟩, List.mem_singleton.mpr rfl⟩
    rw [if_neg (by decide)]

theorem componentTokens_plain {bedrock : Bool} {c : ParsedMotdComponent}
    {closing closing' : List (List Char)} {ts : List Html.Token}
    (h : componentTokens bedrock c closing = .ok (ts, closing'))
    (hplain : ∀ body ∈ closing, Html.PlainBody body)
    : (∀ body ∈ Html.tagsOf ts, Html.PlainBody body) ∧ ∀ body ∈ closing', Html.PlainBody body := by
  have hspan : ∀ body ∈ ["/span".toList], Html.PlainBody body := by decide
  cases c with
  | minecraftColor c =>
    rcases bind_eq_ok.mp h with ⟨colors, _, heq⟩
    cases heq
    refine ⟨?_, hspan⟩
    rw [Html.tagsOf_append, Html.tagsOf_map_tag, List.forall_mem_append]
    exact ⟨hplain, List.forall_mem_singleton.mpr (plainBody_minecraftColorTag colors)⟩
  | webColor c =>
    cases h
    constructor
    . exact List.forall_mem_singleton.mpr (plainBody_webColorTag c.rgb)
    . exact List.forall_mem_append.mpr ⟨hplain, hspan⟩
  | formatting f =>
    rw [componentTokens] at h
    cases hf : formattingTags? f with
    | none =>
      rw [hf] at h
      cases h
      rw [Html.tagsOf_map_tag]
      exact ⟨hplain, fun body hbody => absurd hbody List.not_mem_nil⟩
    | some tags =>
      rw [hf] at h
      cases h
      have htags := plainBody_formattingTags hf
      constructor
      . exact List.forall_mem_singleton.mpr htags.1
      . exact List.forall_mem_append.mpr ⟨hplain, List.forall_mem_singleton.mpr htags.2⟩
  | translationTag id =>
    cases h
    exact ⟨fun body hbody => absurd hbody List.not_mem_nil, hplain⟩
  | str s =>
    cases h
    rw [tagsOf_strTokens]
    refine ⟨?_, hplain⟩
    intro body hbody
    rw [List.eq_of_mem_replicate hbody]
    decide

theorem componentTokens_text {bedrock : Bool} {c : ParsedMotdComponent}
    {closing closing' : List (List Char)} {ts : List Html.Token}
    (h : componentTokens bedrock c closing = .ok (ts, closing'))
    : '<' ∈ Html.textOf ts ↔ ∃ s, c = .str s ∧ '<' ∈ s := by
  have hnone (hno : ∀ s, c ≠ .str s) (htext : Html.textOf ts = [])
      : '<' ∈ Html.textOf ts ↔ ∃ s, c = .str s ∧ '<' ∈ s := by
    rw [htext]
    exact ⟨fun hmem => absurd hmem List.not_mem_nil, fun ⟨s, hs, _⟩ => absurd hs (hno s)⟩
  cases c with
  | minecraftColor c =>
    rcases bind_eq_ok.mp h with ⟨colors, _, heq⟩
    cases heq
    apply hnone (fun s => nofun)
    rw [Html.textOf_append, Html.textOf_map_tag]
    rfl
  | webColor c =>
    cases h
    exact hnone (fun s => nofun) rfl
  | formatting f =>
    rw [componentTokens] at h
    cases hf : formattingTags? f with
    | none =>
      rw [hf] at h
      cases h
      exact hnone (fun s => nofun) (Html.textOf_map_tag closing)
    | some tags =>
      rw [hf] at h
      cases h
      exact hnone (fun s => nofun) rfl
  | translationTag id =>
    cases h
    exact hnone (fun s => nofun) rfl
  | str s =>
    cases h
    rw [mem_textOf_strTokens]
    exact ⟨fun hmem => ⟨s, rfl, hmem⟩, fun ⟨t, ht, hmem⟩ => by cases ht; exact hmem⟩

theorem bodyTokens_cons_ok {bedrock : Bool} {c : ParsedMotdComponent} {l : List ParsedMotdComponent}
    {closing closing' : List (List Char)} {ts : List Html.Token}
    (h : bodyTokens bedrock (c :: l) closing = .ok (ts, closing'))
    : ∃ first middle rest, componentTokens bedrock c closing = .ok (first, middle)
        ∧ bodyTokens bedrock l middle = .ok (rest, closing') ∧ ts = first ++ rest := by
  rcases bind_eq_ok.mp h with ⟨⟨first, middle⟩, hfirst, h'⟩
  rcases bind_eq_ok.mp h' with ⟨⟨rest, closing''⟩, hrest, heq⟩
  cases heq
  exact ⟨first, middle, rest, hfirst, hrest, rfl⟩

theorem bodyTokens_plain {bedrock : Bool} {l : List ParsedMotdComponent}
    {closing closing' : List (List Char)} {ts : List Html.Token}
    (h : bodyTokens bedrock l closing = .ok (ts, closing'))
    (hplain : ∀ body ∈ closing, Html.PlainBody body)
    : (∀ body ∈ Html.tagsOf ts, Html.PlainBody body) ∧ ∀ body ∈ closing', Html.PlainBody body := by
  induction l generalizing closing ts with
  | nil =>
    cases h
    exact ⟨fun body hbody => absurd hbody List.not_mem_nil, hplain⟩
  | cons c l ih =>
    rcases bodyTokens_cons_ok h with ⟨first, middle, rest, hfirst, hrest, rfl⟩
    have ⟨htags, hmiddle⟩ := componentTokens_plain hfirst hplain
    have ⟨htags', hclosing⟩ := ih hrest hmiddle
    refine ⟨?_, hclosing⟩
    rw [Html.tagsOf_append]
    exact List.forall_mem_append.mpr ⟨htags, htags'⟩

/-- No string has a `<`, which is what HTML reads as the start of a tag. -/
def FreeOfMarkup (l : List ParsedMotdComponent) : Prop :=
  ∀ s, .str s ∈ l → '<' ∉ s

theorem bodyTokens_text {bedrock : Bool} {l : List ParsedMotdComponent}
    {closing closing' : List (List Char)} {ts : List Html.Token}
    (h : bodyTokens bedrock l closing = .ok (ts, closing'))
    : '<' ∉ Html.textOf ts ↔ FreeOfMarkup l := by
  induction l generalizing closing ts with
  | nil =>
    cases h
    exact ⟨fun _ s hs => absurd hs List.not_mem_nil, fun _ => List.not_mem_nil⟩
  | cons c l ih =>
    rcases bodyTokens_cons_ok h with ⟨first, middle, rest, hfirst, hrest, rfl⟩
    rw [Html.textOf_append, List.mem_append, not_or, ih hrest, componentTokens_text hfirst]
    constructor
    . rintro ⟨hc, hl⟩ s hs hlt
      rcases List.mem_cons.mp hs with heq | hmem
      . exact hc ⟨s, heq.symm, hlt⟩
      . exact hl s hmem hlt
    . intro hfree
      constructor
      . rintro ⟨s, rfl, hlt⟩
        exact hfree s List.mem_cons_self hlt
      . intro s hs
        exact hfree s (List.mem_cons_of_mem c hs)

theorem textOf_frame (body : List Html.Token) (closing : List (List Char))
    : Html.textOf (frame body closing) = Html.textOf body := by
  rw [frame, Html.textOf_append, Html.textOf_tag, Html.textOf_append, Html.textOf_map_tag,
    List.append_nil]
  exact List.append_nil _

theorem tagsOf_frame (body : List Html.Token) (closing : List (List Char))
    : Html.tagsOf (frame body closing)
        = ['p'] :: (Html.tagsOf body ++ closing) ++ ["/p".toList] := by
  rw [frame, Html.tagsOf_append, Html.tagsOf_tag, Html.tagsOf_append, Html.tagsOf_map_tag]
  rfl

theorem render_frame (body : List Html.Token) (closing : List (List Char))
    : Html.render (frame body closing)
        = Html.render (.tag ['p'] :: (body ++ closing.map .tag)) ++ "</p".toList ++ ['>'] := by
  have hend : (Html.Token.tag "/p".toList).render = "</p".toList ++ ['>'] := by decide
  rw [frame, Html.render_append, Html.render_cons (.tag "/p".toList), Html.render_nil, hend,
    List.append_nil, List.append_assoc]

theorem plainBody_frame {body : List Html.Token} {closing : List (List Char)}
    (hbody : ∀ b ∈ Html.tagsOf body, Html.PlainBody b) (hclosing : ∀ b ∈ closing, Html.PlainBody b)
    : ∀ b ∈ Html.tagsOf (frame body closing), Html.PlainBody b := by
  rw [tagsOf_frame, List.forall_mem_append, List.forall_mem_cons, List.forall_mem_append,
    List.forall_mem_singleton]
  exact ⟨⟨by decide, hbody, hclosing⟩, by decide⟩

theorem htmlTags_eq_ownTags_iff (bedrock : Bool) (l : List ParsedMotdComponent)
    : htmlTags bedrock l = ownTags bedrock l ↔ HasUnknown bedrock l ∨ FreeOfMarkup l := by
  have hok := (raisesAtUnknown_htmlTransformer bedrock).transform l
  rw [htmlTags, ownTags, transform_eq]
  rw [transform_eq] at hok
  cases htokens : bodyTokens bedrock l [] with
  | error e =>
    have herror : tokens bedrock l = .error e := by
      rw [tokens, htokens, error_bind]
    rw [herror] at hok ⊢
    have hraises : HasUnknown bedrock l := by
      by_contra hno
      rcases hok.mpr hno with ⟨html, hhtml⟩
      cases hhtml
    exact ⟨fun _ => Or.inl hraises, fun _ => rfl⟩
  | ok body =>
    rcases body with ⟨body, closing⟩
    have hreturns : tokens bedrock l = .ok (frame body closing) := by
      rw [tokens, htokens, ok_bind]
      rfl
    rw [hreturns] at hok ⊢
    have hknown : ¬ HasUnknown bedrock l := hok.mp ⟨_, rfl⟩
    have hplain := bodyTokens_plain htokens fun body hbody => absurd hbody List.not_mem_nil
    rw [or_iff_right hknown, ← bodyTokens_text htokens, ← textOf_frame body closing,
      ← Html.tags_render_iff (render_frame body closing) (plainBody_frame hplain.1 hplain.2)]
    exact ⟨Except.ok.inj, congrArg Except.ok⟩

def newlines (s : List Char) : List Char :=
  List.replicate (s.count '\n') '\n'

/-- A component without what its string says, but with the newlines. -/
def eraseStr (c : ParsedMotdComponent) : ParsedMotdComponent :=
  match c with
  | .str s => .str (newlines s)
  | c => c

/-- The two lists differ at most in their strings, which have the same numbers of newlines. -/
def SameShape (l l' : List ParsedMotdComponent) : Prop :=
  l.map eraseStr = l'.map eraseStr

theorem componentTokens_eraseStr (bedrock : Bool) (c : ParsedMotdComponent)
    (closing : List (List Char))
    : (componentTokens bedrock (eraseStr c) closing).map (Prod.map Html.tagsOf id)
        = (componentTokens bedrock c closing).map (Prod.map Html.tagsOf id) := by
  cases c with
  | str s =>
    refine congrArg Except.ok ?_
    rw [Prod.map_apply, Prod.map_apply, tagsOf_strTokens, tagsOf_strTokens, newlines,
      List.count_replicate_self]
  | _ => rfl

theorem bodyTokens_eraseStr (bedrock : Bool) (l : List ParsedMotdComponent)
    (closing : List (List Char))
    : (bodyTokens bedrock (l.map eraseStr) closing).map (Prod.map Html.tagsOf id)
        = (bodyTokens bedrock l closing).map (Prod.map Html.tagsOf id) := by
  induction l generalizing closing with
  | nil => rfl
  | cons c l ih =>
    apply map_bind_eq (componentTokens_eraseStr bedrock c closing)
    rintro ⟨first, middle⟩ ⟨first', middle'⟩ heq
    rcases Prod.mk.inj heq with ⟨hfirst, rfl⟩
    apply map_bind_eq (ih middle)
    rintro ⟨rest, closing⟩ ⟨rest', closing'⟩ heq
    rcases Prod.mk.inj heq with ⟨hrest, rfl⟩
    refine congrArg Except.ok ?_
    rw [Prod.map_apply, Prod.map_apply, Html.tagsOf_append, Html.tagsOf_append, hfirst, hrest]
    rfl

theorem ownTags_eraseStr (bedrock : Bool) (l : List ParsedMotdComponent)
    : ownTags bedrock (l.map eraseStr) = ownTags bedrock l := by
  apply map_bind_eq (bodyTokens_eraseStr bedrock l [])
  rintro ⟨body, closing⟩ ⟨body', closing'⟩ heq
  rcases Prod.mk.inj heq with ⟨hbody, rfl⟩
  refine congrArg Except.ok ?_
  rw [tagsOf_frame, tagsOf_frame, hbody]
  rfl

theorem SameShape.ownTags_eq {l l' : List ParsedMotdComponent} (h : SameShape l l') (bedrock : Bool)
    : ownTags bedrock l = ownTags bedrock l' := by
  rw [← ownTags_eraseStr, h, ownTags_eraseStr]

theorem mem_map_eraseStr {l : List ParsedMotdComponent} {c : MinecraftColor}
    : .minecraftColor c ∈ l.map eraseStr ↔ .minecraftColor c ∈ l := by
  rw [List.mem_map]
  constructor
  . rintro ⟨component, hmem, heq⟩
    cases component with
    | minecraftColor c' =>
      rw [← heq]
      exact hmem
    | _ => cases heq
  . intro hmem
    exact ⟨_, hmem, rfl⟩

theorem SameShape.hasUnknown_iff {l l' : List ParsedMotdComponent} (h : SameShape l l')
    (bedrock : Bool) : HasUnknown bedrock l ↔ HasUnknown bedrock l' := by
  have hmem (c : MinecraftColor) : .minecraftColor c ∈ l ↔ .minecraftColor c ∈ l' := by
    rw [← mem_map_eraseStr, h, mem_map_eraseStr]
  constructor
  . rintro ⟨c, hc, hunknown⟩
    exact ⟨c, (hmem c).mp hc, hunknown⟩
  . rintro ⟨c, hc, hunknown⟩
    exact ⟨c, (hmem c).mpr hc, hunknown⟩

/-- Both lists are seen with the same tags, and with none that the transformer did not write. -/
def SameTags (bedrock : Bool) (l l' : List ParsedMotdComponent) : Prop :=
  htmlTags bedrock l = htmlTags bedrock l' ∧ htmlTags bedrock l = ownTags bedrock l
    ∧ htmlTags bedrock l' = ownTags bedrock l'

theorem sameTags_iff {l l' : List ParsedMotdComponent} (h : SameShape l l') (bedrock : Bool)
    : (SameTags bedrock l l' ↔ HasUnknown bedrock l ∨ (FreeOfMarkup l ∧ FreeOfMarkup l'))
        ∧ (FreeOfMarkup l
          → (htmlTags bedrock l = htmlTags bedrock l'
            ↔ HasUnknown bedrock l ∨ FreeOfMarkup l')) := by
  have hl := htmlTags_eq_ownTags_iff bedrock l
  have hl' := htmlTags_eq_ownTags_iff bedrock l'
  rw [← h.hasUnknown_iff, ← h.ownTags_eq] at hl'
  constructor
  . rw [or_and_left, ← hl, ← hl', SameTags, ← h.ownTags_eq]
    constructor
    . rintro ⟨_, hown, hown'⟩
      exact ⟨hown, hown'⟩
    . rintro ⟨hown, hown'⟩
      exact ⟨hown.trans hown'.symm, hown, hown'⟩
  . intro hfree
    rw [hl.mpr (Or.inr hfree), ← hl']
    exact eq_comm

theorem sameTags_hello
    : SameTags false [.str "hello".toList, .formatting .bold]
        [.str "world".toList, .formatting .bold] := by
  refine (sameTags_iff rfl false).1.mpr (Or.inr ⟨?_, ?_⟩)
  . intro s hs
    rcases List.mem_cons.mp hs with heq | hmem
    . cases heq
      decide
    . simp at hmem
  . intro s hs
    rcases List.mem_cons.mp hs with heq | hmem
    . cases heq
      decide
    . simp at hmem

theorem htmlTags_not_same
    : ¬ ∀ bedrock l l', SameShape l l' → htmlTags bedrock l = htmlTags bedrock l' := by
  intro h
  have heq := h false [.str "x".toList] [.str "<b>".toList] rfl
  revert heq
  decide

end HtmlTransformer

end Python

end McStatus
