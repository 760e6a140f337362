import Mathlib.Data.Finset.Insert
import McStatus.Library.Display
import McStatus.Python.Basic

/-!
This module contains the components of a parsed MOTD in `mcstatus/motd/components.py`, and how the
HTML transformer shows them.
-/

namespace McStatus

namespace Python

inductive Formatting where
  | bold
  | italic
  | underlined
  | strikethrough
  | obfuscated
  | reset
  deriving DecidableEq, Repr

namespace Formatting

def members : List Formatting :=
  [bold, italic, underlined, strikethrough, obfuscated, reset]

def key (f : Formatting) : List Char :=
  match f with
  | bold => "bold".toList
  | italic => "italic".toList
  | underlined => "underlined".toList
  | strikethrough => "strikethrough".toList
  | obfuscated => "obfuscated".toList
  | reset => "reset".toList

def value (f : Formatting) : Char :=
  match f with
  | bold => 'l'
  | italic => 'o'
  | underlined => 'n'
  | strikethrough => 'm'
  | obfuscated => 'k'
  | reset => 'r'

/-- `Formatting(value)` -/
def ofValue (value : List Char) : Option Formatting :=
  members.find? fun f => [f.value] = value

end Formatting

inductive MinecraftColor where
  | black
  | darkBlue
  | darkGreen
  | darkAqua
  | darkRed
  | darkPurple
  | gold
  | gray
  | darkGray
  | blue
  | green
  | aqua
  | red
  | lightPurple
  | yellow
  | white
  -- only for bedrock
  | minecoinGold
  | materialQuartz
  | materialIron
  | materialNetherite
  | materialRedstone
  | materialCopper
  | materialGold
  | materialEmerald
  | materialDiamond
  | materialLapis
  | materialAmethyst
  | materialResin
  deriving DecidableEq, Repr

namespace MinecraftColor

def members : List (MinecraftColor × String × Char) :=
  [
    (black, "BLACK", '0'),
    (darkBlue, "DARK_BLUE", '1'),
    (darkGreen, "DARK_GREEN", '2'),
    (darkAqua, "DARK_AQUA", '3'),
    (darkRed, "DARK_RED", '4'),
    (darkPurple, "DARK_PURPLE", '5'),
    (gold, "GOLD", '6'),
    (gray, "GRAY", '7'),
    (darkGray, "DARK_GRAY", '8'),
    (blue, "BLUE", '9'),
    (green, "GREEN", 'a'),
    (aqua, "AQUA", 'b'),
    (red, "RED", 'c'),
    (lightPurple, "LIGHT_PURPLE", 'd'),
    (yellow, "YELLOW", 'e'),
    (white, "WHITE", 'f'),
    (minecoinGold, "MINECOIN_GOLD", 'g'),
    (materialQuartz, "MATERIAL_QUARTZ", 'h'),
    (materialIron, "MATERIAL_IRON", 'i'),
    (materialNetherite, "MATERIAL_NETHERITE", 'j'),
    (materialRedstone, "MATERIAL_REDSTONE", 'm'),
    (materialCopper, "MATERIAL_COPPER", 'n'),
    (materialGold, "MATERIAL_GOLD", 'p'),
    (materialEmerald, "MATERIAL_EMERALD", 'q'),
    (materialDiamond, "MATERIAL_DIAMOND", 's'),
    (materialLapis, "MATERIAL_LAPIS", 't'),
    (materialAmethyst, "MATERIAL_AMETHYST", 'u'),
    (materialResin, "MATERIAL_RESIN", 'v')
  ]

def name (c : MinecraftColor) : List Char :=
  ((members.find? fun (m, _, _) => m = c).map (·.2.1.toList)).getD []

/-- `MinecraftColor(value)` -/
def ofValue (value : List Char) : Option MinecraftColor :=
  (members.find? fun (_, _, v) => [v] = value).map (·.1)

/-- `MinecraftColor[name]` -/
def ofName (name : List Char) : Option MinecraftColor :=
  (members.find? fun (_, n, _) => n.toList = name).map (·.1)

end MinecraftColor

structure WebColor where
  hex : List Char
  rgb : Int × Int × Int
  deriving DecidableEq, Repr

inductive ParsedMotdComponent where
  | formatting (f : Formatting)
  | minecraftColor (c : MinecraftColor)
  | webColor (c : WebColor)
  /-- The id is `none` when it is no string. -/
  | translationTag (id : Option (List Char))
  | str (s : List Char)
  deriving DecidableEq, Repr

inductive Color where
  | minecraft (c : MinecraftColor)
  | web (rgb : Int × Int × Int)
  deriving DecidableEq, Repr

/-- The tags that are open: a color and a set of formattings. -/
structure Style where
  color : Option Color
  formattings : Finset Formatting
  deriving DecidableEq

namespace Style

def plain : Style where
  color := none
  formattings := ∅

/-- A reset closes all tags, and a Minecraft color is a reset and then the color. -/
def apply (style : Style) (c : ParsedMotdComponent) : Style :=
  match c with
  | .formatting .reset => plain
  | .formatting f => { style with formattings := insert f style.formattings }
  | .minecraftColor c => { color := some (.minecraft c), formattings := ∅ }
  | .webColor c => { style with color := some (.web c.rgb) }
  | .translationTag _ | .str _ => style

end Style

/-- What is shown, character by character. Translation tags are ignored by the transformers. -/
def display : Display ParsedMotdComponent Style Char where
  apply := Style.apply
  shows c :=
    match c with
    | .str s => s
    | _ => []

end Python

end McStatus
