import McStatus.Library.Display
import Mathlib.Data.Finset.Insert

/-!
This module contains the components of a parsed MOTD in `src/motd/components.rs`, and the rule by
which Minecraft shows them.
-/

namespace McStatus

namespace Rust

inductive Formatting where
  | bold
  | italic
  | underlined
  | strikethrough
  | obfuscated
  | reset
  deriving DecidableEq, Repr

namespace Formatting

def codeChar (f : Formatting) : Char :=
  match f with
  | bold => 'l'
  | italic => 'o'
  | underlined => 'n'
  | strikethrough => 'm'
  | obfuscated => 'k'
  | reset => 'r'

def fromCodeChar (c : Char) : Option Formatting :=
  match c with
  | 'l' | 'L' => some bold
  | 'o' | 'O' => some italic
  | 'n' | 'N' => some underlined
  | 'm' | 'M' => some strikethrough
  | 'k' | 'K' => some obfuscated
  | 'r' | 'R' => some reset
  | _ => none

end Formatting

inductive MinecraftColor where
  | black
  | darkBlue
  | darkGreen
  | darkAqua
  | darkRed
  | darkPurple
  | gold
  | gray
  | darkGray
  | blue
  | green
  | aqua
  | red
  | lightPurple
  | yellow
  | white
  -- Bedrock only
  | minecoinGold
  deriving DecidableEq, Repr

namespace MinecraftColor

def codeChar (c : MinecraftColor) : Char :=
  match c with
  | black => '0'
  | darkBlue => '1'
  | darkGreen => '2'
  | darkAqua => '3'
  | darkRed => '4'
  | darkPurple => '5'
  | gold => '6'
  | gray => '7'
  | darkGray => '8'
  | blue => '9'
  | green => 'a'
  | aqua => 'b'
  | red => 'c'
  | lightPurple => 'd'
  | yellow => 'e'
  | white => 'f'
  | minecoinGold => 'g'

def fromCodeChar (c : Char) : Option MinecraftColor :=
  match c.toLower with
  | '0' => some black
  | '1' => some darkBlue
  | '2' => some darkGreen
  | '3' => some darkAqua
  | '4' => some darkRed
  | '5' => some darkPurple
  | '6' => some gold
  | '7' => some gray
  | '8' => some darkGray
  | '9' => some blue
  | 'a' => some green
  | 'b' => some aqua
  | 'c' => some red
  | 'd' => some lightPurple
  | 'e' => some yellow
  | 'f' => some white
  | 'g' => some minecoinGold
  | _ => none

def rgb (c : MinecraftColor) : UInt32 :=
  match c with
  | black => 0x000000
  | darkBlue => 0x0000AA
  | darkGreen => 0x00AA00
  | darkAqua => 0x00AAAA
  | darkRed => 0xAA0000
  | darkPurple => 0xAA00AA
  | gold => 0xFFAA00
  | gray => 0xAAAAAA
  | darkGray => 0x555555
  | blue => 0x5555FF
  | green => 0x55FF55
  | aqua => 0x55FFFF
  | red => 0xFF5555
  | lightPurple => 0xFF55FF
  | yellow => 0xFFFF55
  | white => 0xFFFFFF
  | minecoinGold => 0xDDD605

def r (c : MinecraftColor) : UInt8 :=
  ((c.rgb >>> 16) &&& 0xFF).toUInt8

def g (c : MinecraftColor) : UInt8 :=
  ((c.rgb >>> 8) &&& 0xFF).toUInt8

def b (c : MinecraftColor) : UInt8 :=
  (c.rgb &&& 0xFF).toUInt8

end MinecraftColor

structure WebColor where
  r : UInt8
  g : UInt8
  b : UInt8
  deriving DecidableEq, Repr

namespace WebColor

def rgb (c : WebColor) : UInt32 :=
  (c.r.toUInt32 <<< 16) ||| (c.g.toUInt32 <<< 8) ||| c.b.toUInt32

end WebColor

inductive MotdComponent where
  | text (s : List Char)
  | formatting (f : Formatting)
  | minecraftColor (c : MinecraftColor)
  | webColor (c : WebColor)
  | translationTag (id : List Char)
  deriving DecidableEq, Repr

abbrev ComponentList := List MotdComponent

inductive ColorState where
  | minecraft (c : MinecraftColor)
  | web (c : WebColor)
  deriving DecidableEq, Repr

namespace MotdComponent

def isFormatting (c : MotdComponent) : Bool :=
  match c with
  | formatting _ => true
  | _ => false

def isColor (c : MotdComponent) : Bool :=
  match c with
  | minecraftColor _ | webColor _ => true
  | _ => false

def isText (c : MotdComponent) : Bool :=
  match c with
  | text _ | translationTag _ => true
  | _ => false

end MotdComponent

structure Style where
  color : Option ColorState
  formattings : Finset Formatting
  deriving DecidableEq

namespace Style

def plain : Style where
  color := none
  formattings := ∅

/-- A color clears the formattings, and a reset clears both. -/
def apply (style : Style) (c : MotdComponent) : Style :=
  match c with
  | .minecraftColor c => { color := some (.minecraft c), formattings := ∅ }
  | .webColor c => { color := some (.web c), formattings := ∅ }
  | .formatting .reset => plain
  | .formatting f => { style with formattings := insert f style.formattings }
  | .text _ | .translationTag _ => style

end Style

def display : Display MotdComponent Style Char where
  apply := Style.apply
  shows c :=
    match c with
    | .text s => s
    | .translationTag id => id
    | _ => []

theorem apply_formatting {f : Formatting} (h : f ≠ .reset) (s : Style)
    : display.apply s (.formatting f) = { s with formattings := insert f s.formattings } := by
  cases f <;> first | rfl | simp at h

end Rust

end McStatus
