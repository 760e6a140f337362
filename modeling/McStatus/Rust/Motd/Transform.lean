import McStatus.Rust.Motd.Components

/-!
This module contains the transformers of `src/motd/transform.rs`.
-/

namespace McStatus

namespace Rust

def toPlain (components : ComponentList) : List Char :=
  match components with
  | [] => []
  | .text s :: components => s ++ toPlain components
  | .translationTag id :: components => id ++ toPlain components
  | _ :: components => toPlain components

/-- `format!("{b:02X}")` -/
def format02X (b : UInt8) : List Char :=
  let digits := (Nat.toDigits 16 b.toNat).map Char.toUpper
  List.replicate (2 - digits.length) '0' ++ digits

def encodeUpper (bytes : List UInt8) : List Char :=
  bytes.flatMap format02X

def toMinecraft (components : ComponentList) : List Char :=
  match components with
  | [] => []
  | .text s :: components => s ++ toMinecraft components
  | .formatting f :: components => '§' :: f.codeChar :: toMinecraft components
  | .minecraftColor c :: components => '§' :: c.codeChar :: toMinecraft components
  | .webColor c :: components =>
    '§' :: '#' :: (encodeUpper [c.r, c.g, c.b] ++ toMinecraft components)
  | .translationTag id :: components => id ++ toMinecraft components

/-- `str::replace` of a character. -/
def replaceChar (s : List Char) (pat : Char) (new : List Char) : List Char :=
  s.flatMap fun x => if x = pat then new else [x]

def htmlEscape (s : List Char) : List Char :=
  let s := replaceChar s '&' "&amp;".toList
  let s := replaceChar s '<' "&lt;".toList
  let s := replaceChar s '>' "&gt;".toList
  replaceChar s '\"' "&quot;".toList

def format06X (n : UInt32) : List Char :=
  let digits := (Nat.toDigits 16 n.toNat).map Char.toUpper
  List.replicate (6 - digits.length) '0' ++ digits

structure HtmlState where
  result : List Char
  /-- The tag that was pushed last comes first. -/
  open_tags : List (List Char)

namespace HtmlState

def closeAllTags (result : List Char) (open_tags : List (List Char)) : HtmlState :=
  match open_tags with
  | [] => { result := result, open_tags := [] }
  | tag :: open_tags => closeAllTags (result ++ tag) open_tags

def pushStr (st : HtmlState) (s : List Char) : HtmlState :=
  { st with result := st.result ++ s }

def pushTag (st : HtmlState) : HtmlState :=
  { st with open_tags := "</span>".toList :: st.open_tags }

def pushColor (st : HtmlState) (rgb : UInt32) : HtmlState :=
  let st := closeAllTags st.result st.open_tags
  let color := '#' :: format06X rgb
  (st.pushStr ("<span style=\"color: ".toList ++ color ++ "\">".toList)).pushTag

def step (st : HtmlState) (component : MotdComponent) : HtmlState :=
  match component with
  | .text s => st.pushStr (htmlEscape s)
  | .formatting f =>
    match f with
    | .reset => closeAllTags st.result st.open_tags
    | .bold => (st.pushStr "<span style=\"font-weight: bold\">".toList).pushTag
    | .italic => (st.pushStr "<span style=\"font-style: italic\">".toList).pushTag
    | .underlined => (st.pushStr "<span style=\"text-decoration: underline\">".toList).pushTag
    | .strikethrough => (st.pushStr "<span style=\"text-decoration: line-through\">".toList).pushTag
    | .obfuscated => (st.pushStr "<span class=\"obfuscated\">".toList).pushTag
  | .minecraftColor c => st.pushColor c.rgb
  | .webColor c => st.pushColor c.rgb
  | .translationTag id => st.pushStr (htmlEscape id)

end HtmlState

def toHtml (components : ComponentList) : List Char :=
  let st := components.foldl HtmlState.step { result := [], open_tags := [] }
  (HtmlState.closeAllTags st.result st.open_tags).result

structure AnsiState where
  result : List Char
  current_fg : Option UInt32

namespace AnsiState

def pushStr (st : AnsiState) (s : List Char) : AnsiState :=
  { st with result := st.result ++ s }

/-- `"\x1b["` and what follows it. -/
def escapeSequence (s : List Char) : List Char :=
  Char.ofNat 0x1B :: '[' :: s

/-- `format!("\x1b[38;2;{};{};{}m", r, g, b)` -/
def colorSequence (r g b : UInt8) : List Char :=
  escapeSequence ("38;2;".toList ++ Nat.toDigits 10 r.toNat ++ [';'] ++ Nat.toDigits 10 g.toNat
    ++ [';'] ++ Nat.toDigits 10 b.toNat ++ ['m'])

def pushColor (st : AnsiState) (rgb : UInt32) (r g b : UInt8) : AnsiState :=
  if st.current_fg ≠ some rgb then
    { st.pushStr (colorSequence r g b) with current_fg := some rgb }
  else
    st

def step (st : AnsiState) (component : MotdComponent) : AnsiState :=
  match component with
  | .text s => st.pushStr s
  | .formatting f =>
    match f with
    | .reset => { st.pushStr (escapeSequence "0m".toList) with current_fg := none }
    | .bold => st.pushStr (escapeSequence "1m".toList)
    | .italic => st.pushStr (escapeSequence "3m".toList)
    | .underlined => st.pushStr (escapeSequence "4m".toList)
    | .strikethrough => st.pushStr (escapeSequence "9m".toList)
    -- cannot represent obfuscated in ANSI
    | .obfuscated => st
  | .minecraftColor c => st.pushColor c.rgb c.r c.g c.b
  | .webColor c => st.pushColor c.rgb c.r c.g c.b
  | .translationTag id => st.pushStr id

end AnsiState

def toAnsi (components : ComponentList) : List Char :=
  let st := components.foldl AnsiState.step { result := [], current_fg := none }
  if st.result.isEmpty then st.result else st.result ++ AnsiState.escapeSequence "0m".toList

end Rust

end McStatus
