import McStatus.Rust.Json
import McStatus.Rust.Motd.Components

/-!
This module contains the parsers of `src/motd/motd_impl.rs`.
-/

namespace McStatus

open Fallible

namespace Rust

def hexDigit? (c : Char) : Option Nat :=
  if c.isDigit then
    some (c.toNat - '0'.toNat)
  else if 'a' ≤ c ∧ c ≤ 'f' then
    some (c.toNat - 'a'.toNat + 10)
  else if 'A' ≤ c ∧ c ≤ 'F' then
    some (c.toNat - 'A'.toNat + 10)
  else
    none

/-- `u8::from_str_radix(s, 16)`: hexadecimal digits, with a `+` allowed in front. -/
def parseHexU8 (s : List Char) : Option UInt8 :=
  let digits := match s with
    | '+' :: t => t
    | _ => s
  if digits.isEmpty then
    none
  else
    let value := digits.foldlM (fun n c => (hexDigit? c).map (16 * n + ·)) 0
    (value.filter (· < UInt8.size)).map UInt8.ofNat

/-- The characters in the first `n` bytes, if these end where a character does. -/
def takeBytes (n : Nat) (s : List Char) : Option (List Char × List Char) :=
  match n, s with
  | 0, s => some ([], s)
  | _, [] => none
  | n, c :: s =>
    if c.utf8Size ≤ n then
      (takeBytes (n - c.utf8Size) s).map fun (front, back) => (c :: front, back)
    else
      none

def sliceStr (s : List Char) (start stop : Nat) : Exec (List Char) :=
  match takeBytes start s with
  | some (_, back) =>
    match takeBytes (stop - start) back with
    | some (front, _) => pure front
    | none => throw .panic
  | none => throw .panic

def parseWebColor (s : List Char) : Exec (Option WebColor) :=
  let s := s.dropWhile (· = '#')
  if utf8Len s = 6 then do
    match parseHexU8 (← sliceStr s 0 2) with
    | none => return none
    | some r =>
      match parseHexU8 (← sliceStr s 2 4) with
      | none => return none
      | some g =>
        match parseHexU8 (← sliceStr s 4 6) with
        | none => return none
        | some b => return some { r := r, g := g, b := b }
  else
    return none

def MinecraftColor.fromCodeStr (s : List Char) : Option MinecraftColor :=
  match String.ofList s with
  | "black" => some black
  | "dark_blue" => some darkBlue
  | "dark_green" => some darkGreen
  | "dark_aqua" => some darkAqua
  | "dark_red" => some darkRed
  | "dark_purple" => some darkPurple
  | "gold" => some gold
  | "gray" => some gray
  | "dark_gray" => some darkGray
  | "blue" => some blue
  | "green" => some green
  | "aqua" => some aqua
  | "red" => some red
  | "light_purple" => some lightPurple
  | "yellow" => some yellow
  | "white" => some white
  | "minecoin_gold" => some minecoinGold
  | _ => none

def isCodeStart (c : Char) : Bool :=
  c = '§' ∨ c = '&'

/-- The hex color at `chars[i..]`, after a code start and `#`. -/
def legacyWebColor (rest : List Char) : Option WebColor :=
  if 8 ≤ rest.length ∧ ((rest.drop 2).take 6).all (fun c => (hexDigit? c).isSome) then do
    return {
      r := ← parseHexU8 ((rest.drop 2).take 2)
      g := ← parseHexU8 ((rest.drop 4).take 2)
      b := ← parseHexU8 ((rest.drop 6).take 2)
    }
  else
    none

/-- The check in the inner loop of `parse_legacy_string`, at `chars[i..]`. -/
def breaksText (rest : List Char) : Bool :=
  match rest with
  | c :: next :: _ =>
    isCodeStart c && ((MinecraftColor.fromCodeChar next).isSome
      || (Formatting.fromCodeChar next).isSome || (next = '#' && 8 ≤ rest.length))
  | _ => false

/-- The inner loop of `parse_legacy_string`: the plain text at `chars[i..]`, and what follows. -/
def plainText (rest : List Char) : List Char × List Char :=
  match rest with
  | [] => ([], [])
  | c :: rest =>
    if breaksText (c :: rest) then
      ([], c :: rest)
    else
      let (text, rest) := plainText rest
      (c :: text, rest)

theorem length_plainText_le (rest : List Char) : (plainText rest).2.length ≤ rest.length := by
  induction rest with
  | nil => simp [plainText]
  | cons c rest ih =>
    unfold plainText
    split
    . exact Nat.le_refl _
    . exact Nat.le_succ_of_le ih

/-- The loop of `parse_legacy_string`, at `chars[i..]`. -/
def parseLegacyString.go (rest : List Char) : ComponentList :=
  match rest with
  | [] => []
  | [c] => [.text [c]]
  | c :: code :: rest =>
    if isCodeStart c then
      match MinecraftColor.fromCodeChar code with
      | some color => .minecraftColor color :: go rest
      | none =>
        match Formatting.fromCodeChar code with
        | some formatting => .formatting formatting :: go rest
        | none =>
          match if code = '#' then legacyWebColor (c :: code :: rest) else none with
          | some color => .webColor color :: go (rest.drop 6)
          -- not a recognized code
          | none => .text [c] :: go (code :: rest)
    else
      .text (c :: (plainText (code :: rest)).1) :: go (plainText (code :: rest)).2
termination_by rest.length
decreasing_by
  all_goals simp only [List.length_cons, List.length_drop]
  all_goals try omega
  have := length_plainText_le (code :: rest)
  rw [List.length_cons] at this
  omega

def parseLegacyString (raw : List Char) : ComponentList :=
  parseLegacyString.go raw

/-- A set of options, as `inherited` has it and as an object changes it. -/
structure StyleState where
  bold : Option Bool := none
  italic : Option Bool := none
  underlined : Option Bool := none
  strikethrough : Option Bool := none
  obfuscated : Option Bool := none
  color : Option (List Char) := none
  deriving DecidableEq, Repr

/-- `obj.get(key).and_then(as_bool)`, or else what is inherited. -/
def applyFlag (obj : List (List Char × Value)) (key : String) (inherited : Option Bool)
    : Option Bool :=
  ((Value.get obj key.toList).bind Value.asBool) <|> inherited

def StyleState.ofObject (obj : List (List Char × Value)) (inherited : StyleState) : StyleState where
  bold := applyFlag obj "bold" inherited.bold
  italic := applyFlag obj "italic" inherited.italic
  underlined := applyFlag obj "underlined" inherited.underlined
  strikethrough := applyFlag obj "strikethrough" inherited.strikethrough
  obfuscated := applyFlag obj "obfuscated" inherited.obfuscated
  color := ((Value.get obj "color".toList).bind Value.asStr) <|> inherited.color

def parseColor (color_str : List Char) : Exec (Option MotdComponent) :=
  match MinecraftColor.fromCodeStr color_str with
  | some mc_color => pure (some (.minecraftColor mc_color))
  | none => do
    return (← parseWebColor color_str).map .webColor

def emitColor (color : Option (List Char)) : Exec ComponentList :=
  match color with
  | some color_str => do
    return (← parseColor color_str).toList
  | none => pure []

def emitFlag (flag : Option Bool) (formatting : Formatting) : ComponentList :=
  if flag = some true then [.formatting formatting] else []

def StyleState.emitFormatting (style : StyleState) : ComponentList :=
  emitFlag style.bold .bold ++ emitFlag style.italic .italic
    ++ emitFlag style.underlined .underlined ++ emitFlag style.strikethrough .strikethrough
    ++ emitFlag style.obfuscated .obfuscated

def emitText (s : List Char) : ComponentList :=
  if s.isEmpty then
    []
  else if '§' ∈ s ∨ '&' ∈ s then
    parseLegacyString s
  else
    [.text s]

def emitObject (obj : List (List Char × Value)) (style : StyleState) : Exec ComponentList := do
  let color ← emitColor style.color
  let translate := ((Value.get obj "translate".toList).bind Value.asStr).map
    fun id => MotdComponent.translationTag id
  let text := ((Value.get obj "text".toList).bind Value.asStr).map emitText
  return color ++ style.emitFormatting ++ translate.toList ++ text.getD []

def extraItems (obj : List (List Char × Value)) : List Value :=
  ((Value.get obj "extra".toList).bind Value.asArray).getD []

theorem sizeOf_extraItems {obj : List (List Char × Value)} {item : Value}
    (h : item ∈ extraItems obj) : sizeOf item < sizeOf (Value.object obj) := by
  unfold extraItems at h
  cases hextra : Value.get obj "extra".toList with
  | none =>
    rw [hextra] at h
    simp at h
  | some extra =>
    cases hitems : extra.asArray with
    | none =>
      rw [hextra, Option.bind_some, hitems] at h
      simp at h
    | some items =>
      rw [hextra, Option.bind_some, hitems, Option.getD_some] at h
      have hitem := Value.sizeOf_asArray hitems h
      have hget := Value.sizeOf_get hextra
      simp only [Value.object.sizeOf_spec]
      omega

def parseJsonComponentInner (value : Value) (inherited : StyleState) : Exec ComponentList :=
  match value with
  | .string s => pure (emitText s)
  | .object obj => do
    let style := StyleState.ofObject obj inherited
    let own ← emitObject obj style
    let extra ← (extraItems obj).attach.mapM fun ⟨item, _⟩ => parseJsonComponentInner item style
    return own ++ extra.flatten
  | _ => pure []
termination_by sizeOf value
decreasing_by
  exact sizeOf_extraItems (by assumption)

def parseJsonComponent (value : Value) : Exec ComponentList :=
  parseJsonComponentInner value {}

end Rust

end McStatus
