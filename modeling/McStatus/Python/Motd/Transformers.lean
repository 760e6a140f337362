import McStatus.Python.Motd.Components

/-!
This module contains the transformers of `mcstatus/motd/_transformers.py` to HTML and to ANSI.
-/

namespace McStatus

namespace Python

abbrev Rgb := Int × Int × Int

abbrev ForegroundBackground := Rgb × Rgb

def sharedMinecraftColorToRgb (c : MinecraftColor) : Option ForegroundBackground :=
  match c with
  | .black => some ((0, 0, 0), (0, 0, 0))
  | .darkBlue => some ((0, 0, 170), (0, 0, 42))
  | .darkGreen => some ((0, 170, 0), (0, 42, 0))
  | .darkAqua => some ((0, 170, 170), (0, 42, 42))
  | .darkRed => some ((170, 0, 0), (42, 0, 0))
  | .darkPurple => some ((170, 0, 170), (42, 0, 42))
  | .gold => some ((255, 170, 0), (64, 42, 0))
  | .gray => some ((170, 170, 170), (42, 42, 42))
  | .darkGray => some ((85, 85, 85), (21, 21, 21))
  | .blue => some ((85, 85, 255), (21, 21, 63))
  | .green => some ((85, 255, 85), (21, 63, 21))
  | .aqua => some ((85, 255, 255), (21, 63, 63))
  | .red => some ((255, 85, 85), (63, 21, 21))
  | .lightPurple => some ((255, 85, 255), (63, 21, 63))
  | .yellow => some ((255, 255, 85), (63, 63, 21))
  | .white => some ((255, 255, 255), (63, 63, 63))
  | _ => none

def minecraftColorToRgbJava (c : MinecraftColor) : Option ForegroundBackground :=
  match c with
  | .gray => some ((170, 170, 170), (42, 42, 42))
  | c => sharedMinecraftColorToRgb c

def minecraftColorToRgbBedrock (c : MinecraftColor) : Option ForegroundBackground :=
  match c with
  | .gray => some ((198, 198, 198), (49, 49, 49))
  | .minecoinGold => some ((221, 214, 5), (55, 53, 1))
  | .materialQuartz => some ((227, 212, 209), (56, 53, 52))
  | .materialIron => some ((206, 202, 202), (51, 50, 50))
  | .materialNetherite => some ((68, 58, 59), (17, 14, 14))
  | .materialRedstone => some ((151, 22, 7), (37, 5, 1))
  | .materialCopper => some ((180, 104, 77), (45, 26, 19))
  | .materialGold => some ((222, 177, 45), (55, 44, 11))
  | .materialEmerald => some ((17, 159, 54), (4, 40, 13))
  | .materialDiamond => some ((44, 186, 168), (11, 46, 42))
  | .materialLapis => some ((33, 73, 123), (8, 18, 30))
  | .materialAmethyst => some ((154, 92, 198), (38, 23, 49))
  | .materialResin => some ((235, 114, 20), (59, 29, 5))
  | c => sharedMinecraftColorToRgb c

/-- `color_map[element]` -/
def lookupColor (bedrock : Bool) (element : MinecraftColor)
    : Except Exception ForegroundBackground :=
  let color_map := if bedrock then minecraftColorToRgbBedrock else minecraftColorToRgbJava
  match color_map element with
  | some colors => .ok colors
  | none => .error (.keyError element.name)

def decimal (n : Int) : List Char :=
  if n < 0 then '-' :: Nat.toDigits 10 n.natAbs else Nat.toDigits 10 n.natAbs

def tupleStr (rgb : Rgb) : List Char :=
  '(' :: decimal rgb.1 ++ ", ".toList ++ decimal rgb.2.1 ++ ", ".toList ++ decimal rgb.2.2 ++ [')']

/-- A `_BaseTransformer` with its hooks, where `σ` is what its attributes hold. -/
structure Transformer (σ : Type) where
  start : σ
  handleStr : List Char → σ → Except Exception (List Char × σ)
  handleTranslationTag : Option (List Char) → σ → Except Exception (List Char × σ)
  handleWebColor : WebColor → σ → Except Exception (List Char × σ)
  handleFormatting : Formatting → σ → Except Exception (List Char × σ)
  handleMinecraftColor : MinecraftColor → σ → Except Exception (List Char × σ)
  formatOutput : List (List Char) → σ → List Char

namespace Transformer

variable {σ : Type}

/-- `handler` in `_handle_component` -/
def handler (t : Transformer σ) (component : ParsedMotdComponent) (s : σ)
    : Except Exception (List Char × σ) :=
  match component with
  | .minecraftColor c => t.handleMinecraftColor c s
  | .webColor c => t.handleWebColor c s
  | .formatting f => t.handleFormatting f s
  | .translationTag id => t.handleTranslationTag id s
  | .str element => t.handleStr element s

def handleComponent (t : Transformer σ) (component : ParsedMotdComponent) (s : σ)
    : Except Exception (List (List Char) × σ) :=
  match component with
  | .minecraftColor _ => do
    let (additional, s) ← t.handleFormatting .reset s
    let (handled, s) ← t.handler component s
    return ([additional, handled], s)
  | _ => do
    let (handled, s) ← t.handler component s
    return ([handled], s)

def handleComponents (t : Transformer σ) (motd_components : List ParsedMotdComponent) (s : σ)
    : Except Exception (List (List Char) × σ) :=
  match motd_components with
  | [] => .ok ([], s)
  | component :: motd_components => do
    let (handled, s) ← t.handleComponent component s
    let (results, s) ← t.handleComponents motd_components s
    return (handled ++ results, s)

def transform (t : Transformer σ) (motd_components : List ParsedMotdComponent)
    : Except Exception (List Char) := do
  let (results, s) ← t.handleComponents motd_components t.start
  return t.formatOutput results s

end Transformer

/-- `_FORMATTING_TO_HTML_TAGS[element]`, for the formattings that get there. -/
def formattingToHtmlTags (element : Formatting) : Except Exception (List Char) :=
  match element with
  | .bold => .ok ['b']
  | .strikethrough => .ok ['s']
  | .italic => .ok ['i']
  | .underlined => .ok ['u']
  | .obfuscated | .reset => .error (.keyError element.key)

namespace HtmlTransformer

def handleStr (element : List Char) : List Char :=
  element.flatMap fun c => if c = '\n' then "<br>".toList else [c]

def handleMinecraftColor (bedrock : Bool) (element : MinecraftColor) (on_reset : List (List Char))
    : Except Exception (List Char × List (List Char)) := do
  let (fg_color, bg_color) ← lookupColor bedrock element
  return ("<span style='color:rgb".toList ++ tupleStr fg_color ++ ";text-shadow:0 0 1px rgb".toList
    ++ tupleStr bg_color ++ "'>".toList, on_reset ++ ["</span>".toList])

def handleWebColor (element : WebColor) (on_reset : List (List Char))
    : List Char × List (List Char) :=
  ("<span style='color:rgb".toList ++ tupleStr element.rgb ++ "'>".toList,
    on_reset ++ ["</span>".toList])

def handleFormatting (element : Formatting) (on_reset : List (List Char))
    : Except Exception (List Char × List (List Char)) :=
  match element with
  | .reset => .ok (on_reset.flatten, [])
  | .obfuscated => .ok ("<span class=obfuscated>".toList, on_reset ++ ["</span>".toList])
  | _ => do
    let tag_name ← formattingToHtmlTags element
    return ('<' :: tag_name ++ ['>'], on_reset ++ ["</".toList ++ tag_name ++ ['>']])

end HtmlTransformer

/-- The attribute is `on_reset`. -/
def htmlTransformer (bedrock : Bool) : Transformer (List (List Char)) where
  start := []
  handleStr element on_reset := .ok (HtmlTransformer.handleStr element, on_reset)
  handleTranslationTag _ on_reset := .ok ([], on_reset)
  handleWebColor element on_reset := .ok (HtmlTransformer.handleWebColor element on_reset)
  handleFormatting := HtmlTransformer.handleFormatting
  handleMinecraftColor := HtmlTransformer.handleMinecraftColor bedrock
  formatOutput results on_reset :=
    "<p>".toList ++ results.flatten ++ on_reset.flatten ++ "</p>".toList

/-- `"\033["` -/
def escapeSequence : List Char :=
  [Char.ofNat 0x1B, '[']

/-- `_FORMATTING_TO_ANSI_TAGS[element]`, for the formattings that get there. -/
def formattingToAnsiTags (element : Formatting) : Except Exception Char :=
  match element with
  | .bold => .ok '1'
  | .strikethrough => .ok '9'
  | .italic => .ok '3'
  | .underlined => .ok '4'
  | .obfuscated => .ok '5'
  | .reset => .error (.keyError element.key)

namespace AnsiTransformer

def reset : List Char :=
  escapeSequence ++ "0m".toList

/-- `"\033[38;2;{};{};{}m".format(*color)` -/
def ansiColor (color : Rgb) : List Char :=
  escapeSequence ++ "38;2;".toList ++ decimal color.1 ++ [';'] ++ decimal color.2.1 ++ [';']
    ++ decimal color.2.2 ++ ['m']

def handleMinecraftColor (bedrock : Bool) (element : MinecraftColor)
    : Except Exception (List Char) := do
  let (foreground, _background) ← lookupColor bedrock element
  return ansiColor foreground

def handleFormatting (element : Formatting) : Except Exception (List Char) :=
  match element with
  | .reset => .ok reset
  | _ => do
    return escapeSequence ++ [← formattingToAnsiTags element, 'm']

end AnsiTransformer

def ansiTransformer (bedrock : Bool) : Transformer Unit where
  start := ()
  handleStr element _ := .ok (element, ())
  handleTranslationTag _ _ := .ok ([], ())
  handleWebColor element _ := .ok (AnsiTransformer.ansiColor element.rgb, ())
  handleFormatting element _ := do
    return (← AnsiTransformer.handleFormatting element, ())
  handleMinecraftColor element _ := do
    return (← AnsiTransformer.handleMinecraftColor bedrock element, ())
  formatOutput results _ := AnsiTransformer.reset ++ results.flatten ++ AnsiTransformer.reset

end Python

end McStatus
