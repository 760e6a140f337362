import McStatus.Python.Json
import McStatus.Python.Motd.Components

/-!
This module contains the parsers of `mcstatus/motd/_motd.py` and `WebColor.from_hex`.
-/

namespace McStatus

namespace Python

/-- `str.lower`, as far as it makes a code: the Kelvin sign is a `k`. -/
def lower (s : List Char) : List Char :=
  s.map fun c => if c.toNat = 0x212A then 'k' else c.toLower

/-- `str.upper`, as far as it makes ASCII letters. -/
def upper (s : List Char) : List Char :=
  s.flatMap fun c =>
    match c.toNat with
    | 0xDF => ['S', 'S']
    | 0x131 => ['I']
    | 0x17F => ['S']
    | 0xFB00 => ['F', 'F']
    | 0xFB01 => ['F', 'I']
    | 0xFB02 => ['F', 'L']
    | 0xFB03 => ['F', 'F', 'I']
    | 0xFB04 => ['F', 'F', 'L']
    | 0xFB05 | 0xFB06 => ['S', 'T']
    | _ => [c.toUpper]

def decimalZeros : List Nat :=
  [
    0x30, 0x660, 0x6F0, 0x7C0, 0x966, 0x9E6, 0xA66, 0xAE6, 0xB66, 0xBE6, 0xC66, 0xCE6, 0xD66,
    0xDE6, 0xE50, 0xED0, 0xF20, 0x1040, 0x1090, 0x17E0, 0x1810, 0x1946, 0x19D0, 0x1A80, 0x1A90,
    0x1B50, 0x1BB0, 0x1C40, 0x1C50, 0xA620, 0xA8D0, 0xA900, 0xA9D0, 0xA9F0, 0xAA50, 0xABF0,
    0xFF10, 0x104A0, 0x10D30, 0x11066, 0x110F0, 0x11136, 0x111D0, 0x112F0, 0x11450, 0x114D0,
    0x11650, 0x116C0, 0x11730, 0x118E0, 0x11950, 0x11C50, 0x11D50, 0x11DA0, 0x11F50, 0x16A60,
    0x16AC0, 0x16B50, 0x1D7CE, 0x1D7D8, 0x1D7E2, 0x1D7EC, 0x1D7F6, 0x1E140, 0x1E2F0, 0x1E4F0,
    0x1E950, 0x1FBF0
  ]

def hexDigit? (c : Char) : Option Nat :=
  if 'a' ≤ c ∧ c ≤ 'f' then
    some (c.toNat - 'a'.toNat + 10)
  else if 'A' ≤ c ∧ c ≤ 'F' then
    some (c.toNat - 'A'.toNat + 10)
  else
    (decimalZeros.find? fun n => n ≤ c.toNat ∧ c.toNat < n + 10).map (c.toNat - ·)

def isIntSpace (c : Char) : Bool :=
  c.toNat ∈ [0x20, 0x9, 0xA, 0xB, 0xC, 0xD, 0x85, 0xA0, 0x1680, 0x2000, 0x2001, 0x2002, 0x2003,
    0x2004, 0x2005, 0x2006, 0x2007, 0x2008, 0x2009, 0x200A, 0x2028, 0x2029, 0x202F, 0x205F, 0x3000]

/--
`int(s, 16)` of a string of two characters, where there is no place for a prefix or for an
underscore between digits.
-/
def intBase16 (s : List Char) : Option Int :=
  let s := ((s.dropWhile isIntSpace).reverse.dropWhile isIntSpace).reverse
  let (sign, digits) := match s with
    | '+' :: t => ((1 : Int), t)
    | '-' :: t => (-1, t)
    | _ => (1, s)
  if digits.isEmpty then
    none
  else
    (digits.foldlM (fun n c => (hexDigit? c).map (16 * n + ·)) 0).map fun n => sign * (n : Nat)

def hexDigits : List Char :=
  "0123456789abcdef".toList

/-- `"{:02x}".format(value)`, for a byte. -/
def formatByte (value : Int) : List Char :=
  [hexDigits.getD (value.toNat / 16) '0', hexDigits.getD (value.toNat % 16) '0']

namespace WebColor

/-- `_check_rgb` of one value. -/
def checkByte (color_name : List Char) (value : Int) : Except Exception Unit :=
  if 255 ≥ value ∧ value ≥ 0 then
    .ok ()
  else
    .error (.valueError (.rgbRange color_name value))

def fromRgb (rgb : Int × Int × Int) : Except Exception WebColor := do
  checkByte "red".toList rgb.1
  checkByte "green".toList rgb.2.1
  checkByte "blue".toList rgb.2.2
  return {
    hex := '#' :: formatByte rgb.1 ++ formatByte rgb.2.1 ++ formatByte rgb.2.2
    rgb := rgb
  }

/-- `from_hex`, with the six characters that are left. -/
def fromSixDigits (hex : List Char) : Except Exception WebColor :=
  match intBase16 (hex.take 2), intBase16 ((hex.drop 2).take 2),
    intBase16 ((hex.drop 4).take 2) with
  | some r, some g, some b => fromRgb (r, g, b)
  | _, _, _ => .error (.valueError (.hexDigits hex))

def fromHex (hex : List Char) : Except Exception WebColor :=
  match hex.dropWhile (· = '#') with
  | [r, g, b] => fromSixDigits [r, r, g, g, b, b]
  | [r, r', g, g', b, b'] => fromSixDigits [r, r', g, g', b, b']
  | hex => .error (.valueError (.hexLength hex))

end WebColor

namespace Motd

/-- The first character of a match of `_MOTD_COLORS_RE`. -/
def isCodeStart (c : Char) : Bool :=
  c = '§' ∨ c = '|' ∨ c = '&'

/-- The second character of a match of `_MOTD_COLORS_RE`: `[0-9A-FK-OR]`, ignoring the case. -/
def isCode (c : Char) : Bool :=
  c.isDigit || ('A' ≤ c.toUpper ∧ c.toUpper ≤ 'F') || ('K' ≤ c.toUpper ∧ c.toUpper ≤ 'O')
    || c.toUpper = 'R' || c.toNat = 0x212A

/-- `_MOTD_COLORS_RE.split(raw)`, where `text` is what was passed since the last match. -/
def splitCodes (text raw : List Char) : List (List Char) :=
  match raw with
  | [] => [text]
  | [c] => [text ++ [c]]
  | c :: code :: rest =>
    if isCodeStart c ∧ isCode code then
      text :: [c, code] :: splitCodes [] rest
    else
      splitCodes (text ++ [c]) (code :: rest)

def parseElement (bedrock : Bool) (element : List Char) : ParsedMotdComponent :=
  let clean_element := lower (element.dropWhile fun c => c = '&' ∨ c = '§')
  let standardized_element := lower (element.map fun c => if c = '&' then '§' else c)
  if standardized_element = ['§', 'g'] ∧ ¬ bedrock then
    -- minecoin_gold on java server, treat as string
    .str element
  else if standardized_element.head? = some '§' then
    match MinecraftColor.ofValue clean_element with
    | some color => .minecraftColor color
    | none =>
      match Formatting.ofValue clean_element with
      | some formatting => .formatting formatting
      -- just a text
      | none => .str element
  else
    .str element

def parseAsStr (raw : List Char) (bedrock : Bool) : List ParsedMotdComponent :=
  ((splitCodes [] raw).filter fun element => !element.isEmpty).map (parseElement bedrock)

def parseColor (color : List Char) : Except Exception ParsedMotdComponent :=
  match MinecraftColor.ofName (upper color) with
  | some c => .ok (.minecraftColor c)
  | none =>
    if color = "reset".toList then
      .ok (.formatting .reset)
    else
      match WebColor.fromHex color with
      | .ok c => .ok (.webColor c)
      | .error _ => .error (.valueError (.parseColor color))

/-- `if (color := item.get("color")) is not None` -/
def addColor (item : Dict) (parsed_motd : List ParsedMotdComponent)
    : Except Exception (List ParsedMotdComponent) :=
  match item.get "color".toList with
  | none | some .none => .ok parsed_motd
  | some (.str color) => do
    return parsed_motd ++ [← parseColor color]
  -- only a string has `upper`
  | some _ => .error .attributeError

/-- The loop over `Formatting.__members__`, for one member. -/
def addStyle (item : Dict) (parsed_motd : List ParsedMotdComponent) (style_val : Formatting)
    : List ParsedMotdComponent :=
  match item.get style_val.key with
  | some (.bool false) => parsed_motd.erase (.formatting style_val)
  | none | some .none => parsed_motd
  | some _ => parsed_motd ++ [.formatting style_val]

/-- `if (text := item.get("text")) is not None` -/
def addText (item : Dict) (bedrock : Bool) (parsed_motd : List ParsedMotdComponent)
    : Except Exception (List ParsedMotdComponent) :=
  match item.get "text".toList with
  | none | some .none => .ok parsed_motd
  | some (.str text) => .ok (parsed_motd ++ parseAsStr text bedrock)
  | some _ => .error .typeError

/-- `if (translate := item.get("translate")) is not None` -/
def addTranslate (item : Dict) (parsed_motd : List ParsedMotdComponent)
    : List ParsedMotdComponent :=
  match item.get "translate".toList with
  | none | some .none => parsed_motd
  | some (.str translate) => parsed_motd ++ [.translationTag (some translate)]
  | some _ => parsed_motd ++ [.translationTag none]

/-- What `_parse_as_dict` does before it looks at `extra`. -/
def parseOwn (item : Dict) (bedrock : Bool) (auto_add : List ParsedMotdComponent)
    : Except Exception (List ParsedMotdComponent) := do
  let parsed_motd ← addColor item auto_add
  let parsed_motd ← addText item bedrock (Formatting.members.foldl (addStyle item) parsed_motd)
  return addTranslate item parsed_motd ++ [.formatting .reset]

def isAutoAdd (e : ParsedMotdComponent) : Bool :=
  match e with
  | .formatting f => f ≠ .reset
  | _ => false

def extraElements (item : Dict) : Except Exception (List Json) :=
  match item.get "extra".toList with
  | none => .ok []
  | some extra => extra.iter

theorem sizeOf_extraElements {item fields : Dict} {elements : List Json}
    (h : extraElements item = .ok elements) (hmem : .dict fields ∈ elements)
    : sizeOf fields < sizeOf item := by
  unfold extraElements at h
  split at h
  . rw [Except.ok.injEq] at h
    subst h
    simp at hmem
  . next extra hextra =>
    have hfields := Json.sizeOf_iter h hmem
    have hget := Dict.sizeOf_get hextra
    omega

def parseAsDict (item : Dict) (bedrock : Bool) (auto_add : List ParsedMotdComponent)
    : Except Exception (List ParsedMotdComponent) := do
  let parsed_motd ← parseOwn item bedrock auto_add
  let auto_add := parsed_motd.filter isAutoAdd
  match h : extraElements item with
  | .error e => throw e
  | .ok elements =>
    let extra ← elements.attach.mapM fun ⟨element, hmem⟩ =>
      match element, hmem with
      | .dict fields, hmem =>
        have := sizeOf_extraElements h hmem
        -- the call does not pass `bedrock` on
        parseAsDict fields false auto_add
      | .str s, _ => .ok (auto_add ++ parseAsStr s bedrock)
      | _, _ => .error .typeError
    return parsed_motd ++ extra.flatten
termination_by sizeOf item

end Motd

end Python

end McStatus
