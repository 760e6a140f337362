import McStatus.Library.Terminal
import McStatus.Python.Motd.Html

/-!
This module contains how the strings look in what the transformers to HTML and to ANSI write for
each component, and the proof that they look the same.
-/

namespace McStatus

open Fallible

namespace Python

def Formatting.attribute? (f : Formatting) : Option Attribute :=
  match f with
  | bold => some .bold
  | italic => some .italic
  | underlined => some .underlined
  | strikethrough => some .crossedOut
  | obfuscated => some .blinking
  | reset => none

/-- A reset clears everything, a Minecraft color does so before it, and a web color does not. -/
def lookStep (bedrock : Bool) (look : Look) (c : ParsedMotdComponent) : Except Exception Look :=
  match c with
  | .minecraftColor c => (lookupColor bedrock c).map fun colors => Look.plain.paint colors.1
  | .webColor c => .ok (look.paint c.rgb)
  | .formatting f =>
    match f.attribute? with
    | some a => .ok (look.add a)
    | none => .ok .plain
  | .translationTag _ | .str _ => .ok look

def strOf (c : ParsedMotdComponent) : List (List Char) :=
  match c with
  | .str s => [s]
  | _ => []

def looks (bedrock : Bool) (look : Look) (l : List ParsedMotdComponent)
    : Except Exception (List (List Char × Look) × Look) :=
  match l with
  | [] => .ok ([], look)
  | c :: l => do
    let look' ← lookStep bedrock look c
    let (rest, last) ← looks bedrock look' l
    return ((strOf c).map (fun s => (s, look)) ++ rest, last)

/-- How what a transformer writes is read, where `σ` is what is remembered of it. -/
structure PieceReader (σ : Type) where
  read : σ → List Char → σ
  look : σ → Look

namespace PieceReader

variable {σ τ : Type} (reader : PieceReader σ)

/-- What is written for a string is shown, and what is written for anything else is read. -/
def readPieces (l : List ParsedMotdComponent) (pieces : List (List Char)) (s : σ)
    : List (List Char × Look) × Look :=
  match l, pieces with
  | .str text :: l, _ :: pieces =>
    let (rest, last) := readPieces l pieces s
    ((text, reader.look s) :: rest, last)
  | .minecraftColor _ :: l, additional :: handled :: pieces =>
    readPieces l pieces (reader.read (reader.read s additional) handled)
  | _ :: l, piece :: pieces => readPieces l pieces (reader.read s piece)
  | _, _ => ([], reader.look s)

def looksOf (t : Transformer τ) (l : List ParsedMotdComponent) (s : σ)
    : Except Exception (List (List Char × Look) × Look) :=
  (t.handleComponents l t.start).map fun results => reader.readPieces l results.1 s

def ReadsStep (bedrock : Bool) (t : Transformer τ) (I : τ → σ → Prop) (c : ParsedMotdComponent)
    (ts : τ) (s : σ) : Prop :=
  (∃ e, t.handleComponent c ts = .error e ∧ lookStep bedrock (reader.look s) c = .error e)
    ∨ ∃ pieces ts' s', t.handleComponent c ts = .ok (pieces, ts') ∧ I ts' s'
      ∧ lookStep bedrock (reader.look s) c = .ok (reader.look s')
      ∧ ∀ l rest, reader.readPieces (c :: l) (pieces ++ rest) s
        = ((strOf c).map (fun text => (text, reader.look s)) ++ (reader.readPieces l rest s').1,
          (reader.readPieces l rest s').2)

theorem looksOf_eq {bedrock : Bool} {t : Transformer τ} {I : τ → σ → Prop}
    (hstep : ∀ c ts s, I ts s → reader.ReadsStep bedrock t I c ts s) {ts : τ} {s : σ} (h : I ts s)
    (l : List ParsedMotdComponent)
    : (t.handleComponents l ts).map (fun results => reader.readPieces l results.1 s)
        = looks bedrock (reader.look s) l := by
  induction l generalizing ts s with
  | nil => rfl
  | cons c l ih =>
    rw [Transformer.handleComponents, looks]
    rcases hstep c ts s h with ⟨e, herror, hlook⟩ | ⟨pieces, ts', s', hok, hinv, hlook, hread⟩
    . rw [herror, hlook]
      rfl
    . rw [hok, hlook, ok_bind, ok_bind, ← ih hinv]
      dsimp only
      cases t.handleComponents l ts' with
      | error e => rfl
      | ok results =>
        refine congrArg Except.ok ?_
        exact hread l results.1

end PieceReader

def terminalReader : PieceReader Look where
  read look piece := (Terminal.read .text look piece).2
  look look := look

def ansiLooks (bedrock : Bool) (l : List ParsedMotdComponent)
    : Except Exception (List (List Char × Look) × Look) :=
  terminalReader.looksOf (ansiTransformer bedrock) l .plain

def colorPrefix : List Char :=
  "span style='color:rgb(".toList

def styleColor? (body : List Char) : Option (Int × Int × Int) :=
  if colorPrefix <+: body then
    let value := (body.drop colorPrefix.length).takeWhile (· ≠ ')')
    match (value.splitOn ',').mapM fun part => Numeral.int? (part.dropWhile (· = ' ')) with
    | some [r, g, b] => some (r, g, b)
    | _ => none
  else
    none

def tagAttribute? (body : List Char) : Option Attribute :=
  if body = ['b'] then
    some .bold
  else if body = ['s'] then
    some .crossedOut
  else if body = ['i'] then
    some .italic
  else if body = ['u'] then
    some .underlined
  else if body = "span class=obfuscated".toList then
    some .blinking
  else
    none

def htmlStyles : Html.Styles where
  color? := styleColor?
  attribute? := tagAttribute?

def htmlReader : PieceReader (List (List Char)) where
  read stack piece := Html.openTags stack (Html.tags piece)
  look := htmlStyles.look

def htmlLooks (bedrock : Bool) (l : List ParsedMotdComponent)
    : Except Exception (List (List Char × Look) × Look) :=
  htmlReader.looksOf (htmlTransformer bedrock) l []

theorem read_ansiColor (look : Look) (rgb : Rgb)
    : terminalReader.read look (AnsiTransformer.ansiColor rgb) = look.paint rgb := by
  have htoken : AnsiTransformer.ansiColor rgb
      = (Terminal.Token.sgr (Terminal.colorParams rgb)).render ++ [] := by
    have hstart : "38;2;".toList = ['3', '8', ';', '2', ';'] := by decide
    unfold AnsiTransformer.ansiColor Terminal.colorParams
    rw [hstart]
    simp [Terminal.Token.render, escapeSequence, Terminal.escape, decimal, Numeral.decimal]
  rw [terminalReader]
  dsimp only
  rw [htoken, Terminal.read_sgr (Terminal.plain_colorParams rgb), Terminal.sgr_colorParams]
  rfl

theorem read_reset (look : Look) : terminalReader.read look AnsiTransformer.reset = .plain := rfl

theorem handleComponent_ansi_minecraftColor (bedrock : Bool) (c : MinecraftColor)
    : (ansiTransformer bedrock).handleComponent (.minecraftColor c) ()
        = (lookupColor bedrock c).map fun colors =>
            ([AnsiTransformer.reset, AnsiTransformer.ansiColor colors.1], ()) := by
  unfold Transformer.handleComponent Transformer.handler ansiTransformer
  dsimp only
  unfold AnsiTransformer.handleMinecraftColor
  cases lookupColor bedrock c <;> rfl

theorem reads_ansi (bedrock : Bool) (c : ParsedMotdComponent) (look : Look)
    : terminalReader.ReadsStep bedrock (ansiTransformer bedrock) (fun _ _ => True) c () look := by
  cases c with
  | str s => exact Or.inr ⟨[s], (), look, rfl, trivial, rfl, fun l rest => rfl⟩
  | translationTag id => exact Or.inr ⟨[[]], (), look, rfl, trivial, rfl, fun l rest => rfl⟩
  | webColor c =>
    refine Or.inr ⟨[AnsiTransformer.ansiColor c.rgb], (), look.paint c.rgb, rfl, trivial, rfl, ?_⟩
    intro l rest
    rw [← read_ansiColor]
    rfl
  | formatting f =>
    cases f <;> exact Or.inr ⟨_, (), _, rfl, trivial, rfl, fun l rest => rfl⟩
  | minecraftColor c =>
    rw [PieceReader.ReadsStep, lookStep, handleComponent_ansi_minecraftColor]
    cases hc : lookupColor bedrock c with
    | error e => exact Or.inl ⟨e, rfl, rfl⟩
    | ok colors =>
      refine Or.inr ⟨_, (), Look.plain.paint colors.1, rfl, trivial, rfl, ?_⟩
      intro l rest
      rw [← read_ansiColor, ← read_reset look]
      rfl

/-- The tags that are open are those that the next reset closes, in another order. -/
def HtmlInv (on_reset stack : List (List Char)) : Prop :=
  ∃ names : List (List Char), on_reset = HtmlTransformer.renderTags (names.map ('/' :: ·))
    ∧ (∀ name ∈ names, '>' ∉ name) ∧ (stack.map Html.tagName).Perm names

theorem tags_renderTags {bodies : List (List Char)} (h : ∀ body ∈ bodies, '>' ∉ body)
    : Html.tags (HtmlTransformer.renderTags bodies).flatten = bodies := by
  rw [HtmlTransformer.flatten_renderTags, Html.tags_render, Html.tagsOf_map_tag]
  intro t ht
  rcases List.mem_map.mp ht with ⟨body, hbody, rfl⟩
  exact h body hbody

theorem tags_tag {body : List Char} (h : '>' ∉ body)
    : Html.tags (Html.Token.tag body).render = [body] := by
  have htags := tags_renderTags fun b (hb : b ∈ [body]) => by rwa [List.mem_singleton.mp hb]
  rwa [HtmlTransformer.renderTags, List.map_singleton, List.flatten_singleton] at htags

theorem HtmlInv.read_flatten {on_reset stack : List (List Char)} (h : HtmlInv on_reset stack)
    : htmlReader.read stack on_reset.flatten = [] := by
  rcases h with ⟨names, rfl, hplain, hperm⟩
  have hbodies : ∀ body ∈ names.map ('/' :: ·), '>' ∉ body := by
    intro body hbody
    rcases List.mem_map.mp hbody with ⟨name, hname, rfl⟩
    rw [List.mem_cons, not_or]
    exact ⟨by decide, hplain name hname⟩
  rw [htmlReader]
  dsimp only
  rw [tags_renderTags hbodies]
  exact Html.openTags_close hperm

theorem htmlInv_nil : HtmlInv [] [] :=
  ⟨[], rfl, fun _ hname => absurd hname List.not_mem_nil, List.Perm.refl _⟩

theorem HtmlInv.open {on_reset stack : List (List Char)} (h : HtmlInv on_reset stack)
    {body : List Char} (hbody : '>' ∉ Html.tagName body)
    : HtmlInv (on_reset ++ [(Html.Token.tag ('/' :: Html.tagName body)).render])
        (body :: stack) := by
  rcases h with ⟨names, rfl, hplain, hperm⟩
  refine ⟨names ++ [Html.tagName body], ?_, ?_, ?_⟩
  . rw [HtmlTransformer.renderTags, HtmlTransformer.renderTags, List.map_append, List.map_append]
    rfl
  . rw [List.forall_mem_append, List.forall_mem_singleton]
    exact ⟨hplain, hbody⟩
  . rw [List.map_cons]
    exact (List.Perm.cons _ hperm).trans (List.perm_append_singleton _ _).symm

theorem read_tag {body : List Char} (hbody : '>' ∉ body) {stack : List (List Char)}
    (hopen : Html.tagStep stack body = body :: stack)
    : htmlReader.read stack (Html.Token.tag body).render = body :: stack := by
  rw [htmlReader]
  dsimp only
  rw [tags_tag hbody]
  exact hopen

theorem not_mem_decimal {c : Char} (hsign : c ≠ '-') (hdigit : c.isDigit = false) (n : Int)
    : c ∉ decimal n :=
  Numeral.not_mem_decimal hsign hdigit n

theorem dropWhile_decimal (n : Int) : (decimal n).dropWhile (· = ' ') = decimal n := by
  have hspace := @not_mem_decimal ' ' (by decide) (by decide) n
  cases hn : decimal n with
  | nil => rfl
  | cons c s =>
    rw [hn, List.mem_cons, not_or] at hspace
    exact List.dropWhile_cons_of_neg (by simpa using Ne.symm hspace.1)

def rgbValue (rgb : Rgb) : List Char :=
  decimal rgb.1 ++ ',' :: ((' ' :: decimal rgb.2.1) ++ ',' :: (' ' :: decimal rgb.2.2))

theorem tupleStr_eq (rgb : Rgb) : tupleStr rgb = '(' :: (rgbValue rgb ++ [')']) := by
  have hcomma : ", ".toList = [',', ' '] := by decide
  unfold tupleStr rgbValue
  rw [hcomma]
  simp

theorem mapM_rgbValue (rgb : Rgb)
    : (((rgbValue rgb).splitOn ',').mapM fun part =>
          Numeral.int? (part.dropWhile (· = ' ')))
        = some [rgb.1, rgb.2.1, rgb.2.2] := by
  have hcomma (n : Int) : ',' ∉ decimal n := not_mem_decimal (by decide) (by decide) n
  have hcomma' (n : Int) : ',' ∉ ' ' :: decimal n := by
    rw [List.mem_cons, not_or]
    exact ⟨by decide, hcomma n⟩
  have hint (n : Int) : Numeral.int? (decimal n) = some n := Numeral.int?_decimal n
  rw [rgbValue, List.splitOn_append_cons_self_of_not_mem (hcomma _),
    List.splitOn_append_cons_self_of_not_mem (hcomma' _), List.splitOn_eq_singleton (hcomma' _)]
  simp [dropWhile_decimal, hint]

theorem styleColor?_eq (rgb : Rgb) (rest : List Char)
    : styleColor? (colorPrefix ++ (rgbValue rgb ++ ')' :: rest)) = some rgb := by
  have hparen (n : Int) : ')' ∉ decimal n := not_mem_decimal (by decide) (by decide) n
  have hvalue : ')' ∉ rgbValue rgb := by
    unfold rgbValue
    simp [hparen]
  have htake : (rgbValue rgb ++ ')' :: rest).takeWhile (· ≠ ')') = rgbValue rgb := by
    rw [List.takeWhile_append_of_pos, List.takeWhile_cons_of_neg (by decide), List.append_nil]
    intro c hc
    apply decide_eq_true
    rintro rfl
    exact hvalue hc
  rw [styleColor?, if_pos (List.prefix_append _ _), List.drop_left]
  dsimp only
  rw [htake, mapM_rgbValue]

def IsColorTag (rgb : Rgb) (body : List Char) : Prop :=
  ∃ rest, body = colorPrefix ++ (rgbValue rgb ++ ')' :: rest)

theorem isColorTag_webColorTag (rgb : Rgb) : IsColorTag rgb (HtmlTransformer.webColorTag rgb) := by
  refine ⟨['\''], ?_⟩
  have hstart : colorPrefix = "span style='color:rgb".toList ++ ['('] := by decide
  unfold HtmlTransformer.webColorTag
  rw [tupleStr_eq, hstart]
  simp

theorem isColorTag_minecraftColorTag (colors : ForegroundBackground)
    : IsColorTag colors.1 (HtmlTransformer.minecraftColorTag colors) := by
  refine ⟨";text-shadow:0 0 1px rgb".toList ++ tupleStr colors.2 ++ ['\''], ?_⟩
  have hstart : colorPrefix = "span style='color:rgb".toList ++ ['('] := by decide
  unfold HtmlTransformer.minecraftColorTag
  rw [tupleStr_eq colors.1, hstart]
  simp

theorem IsColorTag.look {rgb : Rgb} {body : List Char} (h : IsColorTag rgb body)
    (stack : List (List Char))
    : htmlStyles.look (body :: stack) = (htmlStyles.look stack).paint rgb := by
  rcases h with ⟨rest, rfl⟩
  apply Html.Styles.look_color (styleColor?_eq rgb rest)
  have hne {body : List Char} (h : colorPrefix.take 6 ≠ body.take 6)
      : colorPrefix ++ (rgbValue rgb ++ ')' :: rest) ≠ body := by
    rintro rfl
    apply h
    rw [List.take_append_of_le_length (by decide)]
  change tagAttribute? (colorPrefix ++ (rgbValue rgb ++ ')' :: rest)) = none
  rw [tagAttribute?, if_neg (hne (by decide)), if_neg (hne (by decide)), if_neg (hne (by decide)),
    if_neg (hne (by decide)), if_neg (hne (by decide))]

theorem IsColorTag.open {rgb : Rgb} {body : List Char} (h : IsColorTag rgb body)
    (stack : List (List Char))
    : Html.tagStep stack body = body :: stack ∧ Html.tagName body = "span".toList := by
  rcases h with ⟨rest, rfl⟩
  exact ⟨rfl, rfl⟩

theorem IsColorTag.read {rgb : Rgb} {body : List Char} (h : IsColorTag rgb body)
    (hbody : '>' ∉ body) {on_reset stack : List (List Char)} (hinv : HtmlInv on_reset stack)
    : htmlReader.read stack (Html.Token.tag body).render = body :: stack
        ∧ htmlStyles.look (body :: stack) = (htmlStyles.look stack).paint rgb
        ∧ HtmlInv (on_reset ++ ["</span>".toList]) (body :: stack) := by
  rcases h.open stack with ⟨hopen, hname⟩
  refine ⟨read_tag hbody hopen, h.look stack, ?_⟩
  have hclose : "</span>".toList = (Html.Token.tag ('/' :: Html.tagName body)).render := by
    rw [hname]
    decide
  rw [hclose]
  apply hinv.open
  rw [hname]
  decide

theorem read_formattingTag {f : Formatting} {openTag closeTag : List Char}
    (h : HtmlTransformer.formattingTags? f = some (openTag, closeTag))
    {on_reset stack : List (List Char)} (hinv : HtmlInv on_reset stack)
    : htmlReader.read stack (Html.Token.tag openTag).render = openTag :: stack
        ∧ (∃ a, f.attribute? = some a
          ∧ htmlStyles.look (openTag :: stack) = (htmlStyles.look stack).add a)
        ∧ HtmlInv (on_reset ++ [(Html.Token.tag closeTag).render]) (openTag :: stack) := by
  have htag : '>' ∉ openTag ∧ Html.tagStep stack openTag = openTag :: stack
      ∧ closeTag = '/' :: Html.tagName openTag ∧ '>' ∉ Html.tagName openTag := by
    cases f <;> cases h <;> exact ⟨by decide, rfl, by decide, by decide⟩
  rcases htag with ⟨hbody, hopen, rfl, hname⟩
  refine ⟨read_tag hbody hopen, ?_, hinv.open hname⟩
  cases f <;> cases h <;> exact ⟨_, rfl, Html.Styles.look_attribute (by decide) (by decide) stack⟩

theorem handleComponent_html_minecraftColor (bedrock : Bool) (c : MinecraftColor)
    (on_reset : List (List Char))
    : (htmlTransformer bedrock).handleComponent (.minecraftColor c) on_reset
        = (lookupColor bedrock c).map fun colors =>
            ([on_reset.flatten, (Html.Token.tag (HtmlTransformer.minecraftColorTag colors)).render],
              ["</span>".toList]) := by
  have hcolor := HtmlTransformer.handleMinecraftColor_eq bedrock c
  unfold Transformer.handleComponent Transformer.handler htmlTransformer
  dsimp only
  rw [HtmlTransformer.handleFormatting, ok_bind]
  dsimp only
  rw [hcolor]
  cases lookupColor bedrock c with
  | error e => rfl
  | ok colors =>
    refine congrArg Except.ok ?_
    rw [HtmlTransformer.renderTags, List.map_singleton, HtmlTransformer.render_closeSpan]

theorem handleComponent_html_formatting {f : Formatting} {tags : List Char × List Char}
    (h : HtmlTransformer.formattingTags? f = some tags) (on_reset : List (List Char))
    {bedrock : Bool}
    : (htmlTransformer bedrock).handleComponent (.formatting f) on_reset
        = .ok ([(Html.Token.tag tags.1).render], on_reset ++ [(Html.Token.tag tags.2).render]) := by
  cases f <;> cases h <;> rfl

theorem reads_html (bedrock : Bool) (c : ParsedMotdComponent) (on_reset stack : List (List Char))
    (hinv : HtmlInv on_reset stack)
    : htmlReader.ReadsStep bedrock (htmlTransformer bedrock) HtmlInv c on_reset stack := by
  cases c with
  | str s => exact Or.inr ⟨_, on_reset, stack, rfl, hinv, rfl, fun l rest => rfl⟩
  | translationTag id => exact Or.inr ⟨[[]], on_reset, stack, rfl, hinv, rfl, fun l rest => rfl⟩
  | webColor c =>
    rcases (isColorTag_webColorTag c.rgb).read (HtmlTransformer.plainBody_webColorTag c.rgb).2 hinv
      with ⟨hread, hlook, hinv'⟩
    refine Or.inr ⟨_, _, _, rfl, hinv', congrArg Except.ok hlook.symm, ?_⟩
    intro l rest
    rw [← hread, HtmlTransformer.render_webColorTag]
    rfl
  | formatting f =>
    cases hf : HtmlTransformer.formattingTags? f with
    | none =>
      cases f with
      | reset =>
        refine Or.inr ⟨[on_reset.flatten], [], [], rfl, htmlInv_nil, rfl, ?_⟩
        intro l rest
        conv => enter [2]; rw [← hinv.read_flatten]
        rfl
      | _ => cases hf
    | some tags =>
      rcases read_formattingTag hf hinv with ⟨hread, ⟨a, ha, hlook⟩, hinv'⟩
      refine Or.inr ⟨_, _, _, handleComponent_html_formatting hf on_reset, hinv', ?_, ?_⟩
      . rw [lookStep, ha]
        exact congrArg Except.ok hlook.symm
      . intro l rest
        rw [← hread]
        rfl
  | minecraftColor c =>
    rw [PieceReader.ReadsStep, lookStep, handleComponent_html_minecraftColor]
    cases hc : lookupColor bedrock c with
    | error e => exact Or.inl ⟨e, rfl, rfl⟩
    | ok colors =>
      rcases (isColorTag_minecraftColorTag colors).read
        (HtmlTransformer.plainBody_minecraftColorTag colors).2 htmlInv_nil with
      ⟨hread, hlook, hinv'⟩
      refine Or.inr ⟨_, _, _, rfl, hinv', congrArg Except.ok hlook.symm, ?_⟩
      intro l rest
      rw [← hread]
      conv => enter [2]; rw [← hinv.read_flatten]
      rfl

theorem ansiLooks_eq (bedrock : Bool) (l : List ParsedMotdComponent)
    : ansiLooks bedrock l = looks bedrock .plain l :=
  terminalReader.looksOf_eq (fun c _ s _ => reads_ansi bedrock c s) trivial l

theorem htmlLooks_eq (bedrock : Bool) (l : List ParsedMotdComponent)
    : htmlLooks bedrock l = looks bedrock .plain l :=
  htmlReader.looksOf_eq (fun c ts s h => reads_html bedrock c ts s h) htmlInv_nil l

theorem htmlLooks_eq_ansiLooks (bedrock : Bool) (l : List ParsedMotdComponent)
    : htmlLooks bedrock l = looks bedrock .plain l ∧ ansiLooks bedrock l = looks bedrock .plain l
        ∧ (IsOk ((htmlTransformer bedrock).transform l)
          ↔ IsOk ((ansiTransformer bedrock).transform l)) := by
  refine ⟨htmlLooks_eq bedrock l, ansiLooks_eq bedrock l, ?_⟩
  rw [(raisesAtUnknown_htmlTransformer bedrock).transform,
    (raisesAtUnknown_ansiTransformer bedrock).transform]

end Python

end McStatus
