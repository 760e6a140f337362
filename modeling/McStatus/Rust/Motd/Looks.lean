import McStatus.Library.Bits
import McStatus.Library.Terminal
import McStatus.Rust.Motd.Html

/-!
This module contains how the outputs of `to_ansi` and of `to_html` look, and for which MOTDs they
look the same: `to_ansi` keeps the formattings when a color comes.
-/

namespace McStatus

namespace Rust

def Formatting.attribute? (f : Formatting) : Option Attribute :=
  match f with
  | bold => some .bold
  | italic => some .italic
  | underlined => some .underlined
  | strikethrough => some .crossedOut
  | obfuscated | reset => none

def rgbParts (rgb : Nat) : Int × Int × Int :=
  ((rgb / 65536 : Nat), (rgb / 256 % 256 : Nat), (rgb % 256 : Nat))

def byteParts (r g b : UInt8) : Int × Int × Int :=
  (r.toNat, g.toNat, b.toNat)

theorem WebColor.toNat_rgb (c : WebColor)
    : c.rgb.toNat = c.r.toNat * 65536 + c.g.toNat * 256 + c.b.toNat := by
  have hr := c.r.toNat_lt
  have hg := c.g.toNat_lt
  have hb := c.b.toNat_lt
  have hshift {n k : Nat} (hn : n < 256) (hk : k ≤ 16) : n <<< k % 2 ^ 32 = n <<< k := by
    apply Nat.mod_eq_of_lt
    rw [Nat.shiftLeft_eq]
    have : 2 ^ k ≤ 2 ^ 16 := Nat.pow_le_pow_right (by decide) hk
    calc n * 2 ^ k ≤ n * 2 ^ 16 := Nat.mul_le_mul_left n this
      _ < 2 ^ 32 := by omega
  have hgreen : c.g.toNat <<< 8 ||| c.b.toNat = c.b.toNat + c.g.toNat * 2 ^ 8 := by
    rw [Nat.or_comm]
    exact or_shiftLeft_of_lt hb c.g.toNat
  have hred : c.r.toNat <<< 16 ||| (c.b.toNat + c.g.toNat * 2 ^ 8)
      = c.b.toNat + c.g.toNat * 2 ^ 8 + c.r.toNat * 2 ^ 16 := by
    rw [Nat.or_comm]
    exact or_shiftLeft_of_lt (by omega) c.r.toNat
  unfold WebColor.rgb
  rw [UInt32.toNat_or, UInt32.toNat_or, UInt32.toNat_shiftLeft, UInt32.toNat_shiftLeft]
  change (c.r.toNat <<< 16 % 2 ^ 32 ||| c.g.toNat <<< 8 % 2 ^ 32) ||| c.b.toNat = _
  rw [hshift hr (by decide), hshift hg (by decide), Nat.or_assoc, hgreen, hred]
  omega

theorem WebColor.rgbParts_rgb (c : WebColor)
    : rgbParts c.rgb.toNat = byteParts c.r c.g c.b ∧ c.rgb.toNat < 2 ^ 24 := by
  have hr := c.r.toNat_lt
  have hg := c.g.toNat_lt
  have hb := c.b.toNat_lt
  rw [c.toNat_rgb, rgbParts, byteParts]
  refine ⟨?_, by omega⟩
  rw [Prod.mk.injEq, Prod.mk.injEq]
  omega

theorem MinecraftColor.rgbParts_rgb (c : MinecraftColor)
    : rgbParts c.rgb.toNat = byteParts c.r c.g c.b ∧ c.rgb.toNat < 2 ^ 24 := by
  cases c <;> decide

/-- How the texts look when a color keeps the attributes, or when it clears them. -/
def lookStep (keep : Bool) (look : Look) (c : MotdComponent) : Look :=
  let paint (rgb : UInt32) : Look := (if keep then look else .plain).paint (rgbParts rgb.toNat)
  match c with
  | .text _ | .translationTag _ => look
  | .formatting .reset => .plain
  | .formatting f =>
    match f.attribute? with
    | some a => look.add a
    | none => look
  | .minecraftColor c => paint c.rgb
  | .webColor c => paint c.rgb

def lookDisplay (keep : Bool) : Display MotdComponent Look Char where
  apply := lookStep keep
  shows := display.shows

def formattingParams? (f : Formatting) : Option (List Char) :=
  match f with
  | .reset => some ['0']
  | .bold => some ['1']
  | .italic => some ['3']
  | .underlined => some ['4']
  | .strikethrough => some ['9']
  | .obfuscated => none

def colorTokens (fg : Option UInt32) (rgb : UInt32) (r g b : UInt8) : List Terminal.Token :=
  if fg ≠ some rgb then [.sgr (Terminal.colorParams (byteParts r g b))] else []

/-- What `to_ansi` writes of a component, where `fg` is the color it has set. -/
def stepAnsiTokens (fg : Option UInt32) (c : MotdComponent) : List Terminal.Token :=
  match c with
  | .text s => [.text s]
  | .formatting f =>
    match formattingParams? f with
    | some params => [.sgr params]
    | none => []
  | .minecraftColor c => colorTokens fg c.rgb c.r c.g c.b
  | .webColor c => colorTokens fg c.rgb c.r c.g c.b
  | .translationTag id => [.text id]

def stepFg (fg : Option UInt32) (c : MotdComponent) : Option UInt32 :=
  match c with
  | .text _ | .translationTag _ => fg
  | .formatting f => if f = .reset then none else fg
  | .minecraftColor c => some c.rgb
  | .webColor c => some c.rgb

def ansiBody (fg : Option UInt32) (l : ComponentList) : List Terminal.Token :=
  match l with
  | [] => []
  | c :: l => stepAnsiTokens fg c ++ ansiBody (stepFg fg c) l

def ansiTokens (l : ComponentList) : List Terminal.Token :=
  let body := ansiBody none l
  if (Terminal.render body).isEmpty then body else body ++ [.sgr ['0']]

theorem render_colorParams (r g b : UInt8)
    : (Terminal.Token.sgr (Terminal.colorParams (byteParts r g b))).render
        = AnsiState.colorSequence r g b := by
  have hdecimal (n : UInt8) : Numeral.decimal (n.toNat : Int) = Nat.toDigits 10 n.toNat := by
    rw [Numeral.decimal, if_neg (by omega)]
    rfl
  have hstart : "38;2;".toList = ['3', '8', ';', '2', ';'] := by decide
  unfold AnsiState.colorSequence Terminal.colorParams byteParts
  rw [hdecimal, hdecimal, hdecimal, hstart]
  simp [Terminal.Token.render, AnsiState.escapeSequence, Terminal.escape]

theorem AnsiState.step_eq (st : AnsiState) (c : MotdComponent)
    : st.step c = {
        result := st.result ++ Terminal.render (stepAnsiTokens st.current_fg c)
        current_fg := stepFg st.current_fg c
      } := by
  have hcolor (rgb : UInt32) (r g b : UInt8)
      : st.pushColor rgb r g b = {
          result := st.result ++ Terminal.render (colorTokens st.current_fg rgb r g b)
          current_fg := some rgb
        } := by
    rw [AnsiState.pushColor, colorTokens]
    by_cases hfg : st.current_fg = some rgb
    . rw [if_neg (fun h => h hfg), if_neg (fun h => h hfg), Terminal.render_nil, List.append_nil,
        ← hfg]
    . rw [if_pos hfg, if_pos hfg, Terminal.render_cons, Terminal.render_nil, List.append_nil,
        render_colorParams]
      rfl
  cases c with
  | text s => simp [AnsiState.step, pushStr, stepAnsiTokens, stepFg, Terminal.Token.render]
  | translationTag id =>
    simp [AnsiState.step, pushStr, stepAnsiTokens, stepFg, Terminal.Token.render]
  | minecraftColor c => exact hcolor c.rgb c.r c.g c.b
  | webColor c => exact hcolor c.rgb c.r c.g c.b
  | formatting f =>
    cases f with
    | obfuscated => simp [AnsiState.step, stepAnsiTokens, stepFg, formattingParams?]
    | _ => rfl

theorem foldl_step_eq (st : AnsiState) (l : ComponentList)
    : (l.foldl AnsiState.step st).result
        = st.result ++ Terminal.render (ansiBody st.current_fg l) := by
  induction l generalizing st with
  | nil => rw [List.foldl_nil, ansiBody, Terminal.render_nil, List.append_nil]
  | cons c l ih =>
    rw [List.foldl_cons, ih, AnsiState.step_eq, ansiBody, Terminal.render_append,
      List.append_assoc]

theorem toAnsi_eq (l : ComponentList) : toAnsi l = Terminal.render (ansiTokens l) := by
  rw [toAnsi, ansiTokens, foldl_step_eq, List.nil_append]
  split
  . rfl
  . rw [Terminal.render_append]
    rfl

theorem look_stepAnsiTokens {fg : Option UInt32} {look : Look}
    (h : look.color = fg.map fun rgb => rgbParts rgb.toNat) (c : MotdComponent)
    : Terminal.display.render look (stepAnsiTokens fg c)
          = (display.shows c).map (fun x => (x, look))
        ∧ Terminal.display.final look (stepAnsiTokens fg c) = lookStep true look c
        ∧ (lookStep true look c).color = (stepFg fg c).map fun rgb => rgbParts rgb.toNat := by
  have hcolor {rgb : UInt32} {r g b : UInt8} (hparts : rgbParts rgb.toNat = byteParts r g b)
      : Terminal.display.render look (colorTokens fg rgb r g b) = []
        ∧ Terminal.display.final look (colorTokens fg rgb r g b)
            = look.paint (rgbParts rgb.toNat) := by
    unfold colorTokens
    by_cases hfg : fg = some rgb
    . rw [if_neg (fun hne => hne hfg)]
      refine ⟨rfl, ?_⟩
      rw [hfg, Option.map_some] at h
      rw [Display.final_nil, Look.paint, ← h]
    . rw [if_pos hfg, hparts]
      exact ⟨rfl, Terminal.sgr_colorParams look (byteParts r g b)⟩
  cases c with
  | text s => exact ⟨List.append_nil _, rfl, h⟩
  | translationTag id => exact ⟨List.append_nil _, rfl, h⟩
  | minecraftColor c =>
    rcases hcolor c.rgbParts_rgb.1 with ⟨hrender, hfinal⟩
    exact ⟨hrender, hfinal, rfl⟩
  | webColor c =>
    rcases hcolor c.rgbParts_rgb.1 with ⟨hrender, hfinal⟩
    exact ⟨hrender, hfinal, rfl⟩
  | formatting f =>
    cases f with
    | reset => exact ⟨rfl, rfl, rfl⟩
    | _ => exact ⟨rfl, rfl, h⟩

theorem render_ansiBody {fg : Option UInt32} {look : Look}
    (h : look.color = fg.map fun rgb => rgbParts rgb.toNat) (l : ComponentList)
    : Terminal.display.render look (ansiBody fg l) = (lookDisplay true).render look l := by
  induction l generalizing fg look with
  | nil => rfl
  | cons c l ih =>
    rcases look_stepAnsiTokens h c with ⟨hrender, hfinal, hcolor⟩
    rw [ansiBody, Display.render_append, hrender, hfinal, ih hcolor]
    rfl

theorem render_ansiTokens (l : ComponentList)
    : Terminal.display.render .plain (ansiTokens l) = (lookDisplay true).render .plain l := by
  rw [← @render_ansiBody none .plain rfl l, ansiTokens]
  split
  . rfl
  . rw [Display.render_append]
    exact List.append_nil _

theorem plain_stepAnsiTokens {c : MotdComponent} (h : Terminal.escape ∉ display.shows c)
    {fg : Option UInt32} {t : Terminal.Token} (ht : t ∈ stepAnsiTokens fg c) : t.Plain := by
  have hcolor {rgb : UInt32} {r g b : UInt8} (ht : t ∈ colorTokens fg rgb r g b) : t.Plain := by
    unfold colorTokens at ht
    split at ht
    . rw [List.mem_singleton.mp ht]
      exact Terminal.plain_colorParams (byteParts r g b)
    . exact absurd ht List.not_mem_nil
  cases c with
  | text s =>
    rw [List.mem_singleton.mp ht]
    exact h
  | translationTag id =>
    rw [List.mem_singleton.mp ht]
    exact h
  | minecraftColor c => exact hcolor ht
  | webColor c => exact hcolor ht
  | formatting f =>
    cases f with
    | obfuscated => exact absurd ht List.not_mem_nil
    | _ =>
      rw [List.mem_singleton.mp ht]
      change 'm' ∉ _
      decide

theorem plain_ansiBody {l : ComponentList} (h : ∀ c ∈ l, Terminal.escape ∉ display.shows c)
    {fg : Option UInt32} {t : Terminal.Token} (ht : t ∈ ansiBody fg l) : t.Plain := by
  induction l generalizing fg with
  | nil => exact absurd ht List.not_mem_nil
  | cons c l ih =>
    rcases List.mem_append.mp ht with ht | ht
    . exact plain_stepAnsiTokens (h c List.mem_cons_self) ht
    . exact ih (fun x hx => h x (List.mem_cons_of_mem c hx)) ht

theorem read_toAnsi {l : ComponentList} (h : ∀ c ∈ l, Terminal.escape ∉ display.shows c)
    : (Terminal.read .text .plain (toAnsi l)).1
        = Terminal.display.render .plain (ansiTokens l) := by
  rw [toAnsi_eq, Terminal.read_render]
  intro t ht
  unfold ansiTokens at ht
  dsimp only at ht
  split at ht
  . exact plain_ansiBody h ht
  . rcases List.mem_append.mp ht with ht | ht
    . exact plain_ansiBody h ht
    . rw [List.mem_singleton.mp ht]
      change 'm' ∉ ['0']
      decide

def colorPrefix : List Char :=
  "span style=\"color: #".toList

def styleColor? (body : List Char) : Option (Int × Int × Int) :=
  if colorPrefix <+: body then
    let value := (body.drop colorPrefix.length).takeWhile (· ≠ '\"')
    if value.length = 6 then (Numeral.nat? 16 value).map rgbParts else none
  else
    none

/-- The attribute of the `style` of a tag. Obfuscated text is left out. -/
def styleAttribute? (body : List Char) : Option Attribute :=
  if body = "span style=\"font-weight: bold\"".toList then
    some .bold
  else if body = "span style=\"font-style: italic\"".toList then
    some .italic
  else if body = "span style=\"text-decoration: underline\"".toList then
    some .underlined
  else if body = "span style=\"text-decoration: line-through\"".toList then
    some .crossedOut
  else
    none

def htmlStyles : Html.Styles where
  color? := styleColor?
  attribute? := styleAttribute?

theorem length_format06X {n : UInt32} (h : n.toNat < 2 ^ 24) : (format06X n).length = 6 := by
  have hdigits : (Nat.toDigits 16 n.toNat).length ≤ 6 :=
    (Nat.length_toDigits_le_iff (by decide) (by decide)).mpr h
  rw [format06X, List.length_append, List.length_replicate, List.length_map]
  omega

theorem colorTag_eq (rgb : UInt32) : colorTag rgb = colorPrefix ++ (format06X rgb ++ ['\"']) := by
  unfold colorTag
  rw [List.append_assoc]
  rfl

theorem quote_not_mem_format06X (n : UInt32) : '\"' ∉ format06X n := by
  intro hmem
  rcases List.mem_append.mp hmem with hzero | hdigit
  . exact absurd (List.eq_of_mem_replicate hzero) (by decide)
  . rcases List.mem_map.mp hdigit with ⟨c, hc, heq⟩
    rcases Html.mem_toDigits (by decide) _ hc with ⟨d, hd, rfl⟩
    have hdigits : ∀ d < 16, (Nat.digitChar d).toUpper ≠ '\"' := by decide
    exact hdigits d hd heq

theorem styleColor?_colorTag {rgb : UInt32} (h : rgb.toNat < 2 ^ 24)
    : styleColor? (colorTag rgb) = some (rgbParts rgb.toNat) := by
  have hvalue : (format06X rgb ++ ['\"']).takeWhile (· ≠ '\"') = format06X rgb := by
    rw [List.takeWhile_append_of_pos]
    . rw [List.takeWhile_cons_of_neg (by decide), List.append_nil]
    . intro c hc
      apply decide_eq_true
      rintro rfl
      exact quote_not_mem_format06X rgb hc
  rw [styleColor?, colorTag_eq, if_pos (List.prefix_append _ _), List.drop_left]
  dsimp only
  rw [hvalue, if_pos (length_format06X h), format06X, Numeral.nat?_zeros_toDigits, Option.map_some]

theorem styleAttribute?_colorTag (rgb : UInt32) : styleAttribute? (colorTag rgb) = none := by
  have hne {body : List Char} (h : colorPrefix.take 13 ≠ body.take 13) : colorTag rgb ≠ body := by
    rintro rfl
    apply h
    rw [colorTag_eq, List.take_append_of_le_length (by decide)]
  rw [styleAttribute?, if_neg (hne (by decide)), if_neg (hne (by decide)), if_neg (hne (by decide)),
    if_neg (hne (by decide))]

theorem look_formattingTag {f : Formatting} {body : List Char} (h : formattingTag? f = some body)
    (stack : List (List Char))
    : htmlStyles.look (body :: stack) = lookStep false (htmlStyles.look stack) (.formatting f) := by
  cases f <;> cases h
  . exact Html.Styles.look_attribute (by decide) (by decide) stack
  . exact Html.Styles.look_attribute (by decide) (by decide) stack
  . exact Html.Styles.look_attribute (by decide) (by decide) stack
  . exact Html.Styles.look_attribute (by decide) (by decide) stack
  . exact Html.Styles.look_none (by decide) (by decide) stack

theorem look_closeTokens {stack : List (List Char)} {n : Nat}
    (h : stack.map Html.tagName = List.replicate n "span".toList)
    : Html.display.final stack (closeTokens n) = []
        ∧ Html.display.render stack (closeTokens n) = [] := by
  have htokens : closeTokens n
      = ((List.replicate n "span".toList).map ('/' :: ·)).map Html.Token.tag := by
    rw [List.map_replicate, List.map_replicate]
    rfl
  rw [htokens]
  constructor
  . rw [Html.final_map_tag]
    exact Html.openTags_close (List.Perm.of_eq h)
  . exact Html.render_map_tag stack _

theorem look_stepTokens {stack : List (List Char)} {n : Nat}
    (h : stack.map Html.tagName = List.replicate n "span".toList) (c : MotdComponent)
    : Html.display.render stack (stepTokens n c) = (display.shows c).map (fun x => (x, stack))
        ∧ htmlStyles.look (Html.display.final stack (stepTokens n c))
            = lookStep false (htmlStyles.look stack) c
        ∧ (Html.display.final stack (stepTokens n c)).map Html.tagName
            = List.replicate (stepDepth n c) "span".toList := by
  rcases look_closeTokens h with ⟨hfinal, hrender⟩
  have hcolor {rgb : UInt32} (hrgb : rgb.toNat < 2 ^ 24)
      : Html.display.render stack (closeTokens n ++ [.tag (colorTag rgb)]) = []
        ∧ htmlStyles.look (Html.display.final stack (closeTokens n ++ [.tag (colorTag rgb)]))
            = Look.plain.paint (rgbParts rgb.toNat)
        ∧ (Html.display.final stack (closeTokens n ++ [.tag (colorTag rgb)])).map Html.tagName
            = ["span".toList] := by
    rw [Display.render_append, Display.final_append, hfinal, hrender]
    refine ⟨rfl, ?_, rfl⟩
    exact Html.Styles.look_color (styleColor?_colorTag hrgb) (styleAttribute?_colorTag rgb) []
  cases c with
  | text s => exact ⟨Html.render_escape stack s, rfl, h⟩
  | translationTag id => exact ⟨Html.render_escape stack id, rfl, h⟩
  | minecraftColor c => exact hcolor c.rgbParts_rgb.2
  | webColor c => exact hcolor c.rgbParts_rgb.2
  | formatting f =>
    rw [stepTokens, stepDepth]
    cases hf : formattingTag? f with
    | none =>
      cases f with
      | reset => exact ⟨hrender, by rw [hfinal]; rfl, by rw [hfinal]; rfl⟩
      | _ => cases hf
    | some body =>
      have hopen : Html.tagStep stack body = body :: stack ∧ Html.tagName body = "span".toList := by
        cases f <;> cases hf <;> exact ⟨rfl, by decide⟩
      have hstack : Html.display.final stack [.tag body] = body :: stack := hopen.1
      rw [hstack, List.map_cons, hopen.2, h]
      exact ⟨rfl, look_formattingTag hf stack, rfl⟩

theorem render_htmlTokens {stack : List (List Char)} {n : Nat}
    (h : stack.map Html.tagName = List.replicate n "span".toList) (l : ComponentList)
    : (Html.display.render stack (htmlTokens n l)).map (fun x => (x.1, htmlStyles.look x.2))
        = (lookDisplay false).render (htmlStyles.look stack) l := by
  induction l generalizing stack n with
  | nil =>
    rw [htmlTokens, (look_closeTokens h).2]
    rfl
  | cons c l ih =>
    rcases look_stepTokens h c with ⟨hrender, hlook, hnames⟩
    rw [htmlTokens, Display.render_append, List.map_append, hrender, ih hnames, hlook, List.map_map]
    rfl

/-- Every character that a terminal draws of the output of `to_ansi`, with its look. -/
def ansiLooks (l : ComponentList) : List (Char × Look) :=
  Terminal.display.render .plain (ansiTokens l)

/-- Every character of the output of `to_html`, with the look of the spans around it. -/
def htmlLooks (l : ComponentList) : List (Char × Look) :=
  (Html.display.render [] (htmlTokens 0 l)).map fun x => (x.1, htmlStyles.look x.2)

def SetsAttribute (a : Attribute) (c : MotdComponent) : Prop :=
  ∃ f, c = .formatting f ∧ f.attribute? = some a

def IsReset (c : MotdComponent) : Prop :=
  c = .formatting .reset

def IsResetOrColor (c : MotdComponent) : Prop :=
  c = .formatting .reset ∨ c.isColor = true

def KeepsFormatting (front : ComponentList) : Prop :=
  ∃ a, Display.Since (SetsAttribute a) IsReset front
    ∧ ¬ Display.Since (SetsAttribute a) IsResetOrColor front

theorem color_final {look look' : Look} (h : look.color = look'.color) (l : ComponentList)
    : ((lookDisplay true).final look l).color = ((lookDisplay false).final look' l).color := by
  induction l generalizing look look' with
  | nil => exact h
  | cons c l ih =>
    apply ih
    cases c with
    | text s => exact h
    | translationTag id => exact h
    | minecraftColor c => rfl
    | webColor c => rfl
    | formatting f =>
      cases f with
      | reset => rfl
      | _ => exact h

theorem mem_attributes_lookStep (keep : Bool) (look : Look) (c : MotdComponent) (a : Attribute)
    : a ∈ (lookStep keep look c).attributes
        ↔ SetsAttribute a c
          ∨ (a ∈ look.attributes ∧ ¬ (if keep then IsReset c else IsResetOrColor c)) := by
  have hempty : a ∉ Look.plain.attributes := Finset.notMem_empty a
  have hpaint (rgb : Int × Int × Int) : a ∈ ((if keep then look else .plain).paint rgb).attributes
      ↔ keep = true ∧ a ∈ look.attributes := by
    cases keep
    . exact ⟨fun h => absurd h hempty, fun h => by cases h.1⟩
    . exact ⟨fun h => ⟨rfl, h⟩, fun h => h.2⟩
  cases c with
  | text s =>
    cases keep <;> simp [lookStep, SetsAttribute, IsReset, IsResetOrColor, MotdComponent.isColor]
  | translationTag id =>
    cases keep <;> simp [lookStep, SetsAttribute, IsReset, IsResetOrColor, MotdComponent.isColor]
  | minecraftColor c =>
    apply Iff.trans (hpaint (rgbParts c.rgb.toNat))
    cases keep <;> simp [SetsAttribute, IsReset, IsResetOrColor, MotdComponent.isColor]
  | webColor c =>
    apply Iff.trans (hpaint (rgbParts c.rgb.toNat))
    cases keep <;> simp [SetsAttribute, IsReset, IsResetOrColor, MotdComponent.isColor]
  | formatting f =>
    cases f with
    | reset =>
      apply Iff.trans (iff_false_intro hempty)
      cases keep <;> simp [SetsAttribute, IsReset, IsResetOrColor, Formatting.attribute?]
    | _ =>
      cases keep <;> simp [lookStep, SetsAttribute, IsReset, IsResetOrColor, Formatting.attribute?,
        MotdComponent.isColor, Look.add, eq_comm]

theorem mem_attributes_final (keep : Bool) (l : ComponentList) (a : Attribute)
    : a ∈ ((lookDisplay keep).final .plain l).attributes
        ↔ Display.Since (SetsAttribute a)
          (fun c => if keep then IsReset c else IsResetOrColor c) l := by
  apply @Display.final_iff_since _ _ _ (lookDisplay keep) _ _ (fun look => a ∈ look.attributes)
  . intro look c
    exact mem_attributes_lookStep keep look c a
  . exact Finset.notMem_empty a

theorem final_eq_iff (front : ComponentList)
    : (lookDisplay true).final .plain front = (lookDisplay false).final .plain front
        ↔ ¬ KeepsFormatting front := by
  have hkept (a : Attribute) := mem_attributes_final true front a
  have hcleared (a : Attribute) := mem_attributes_final false front a
  constructor
  . rintro heq ⟨a, hset, hnot⟩
    apply hnot
    apply (hcleared a).mp
    rw [← heq]
    exact (hkept a).mpr hset
  . intro hno
    rw [Look.mk.injEq]
    refine ⟨color_final rfl front, ?_⟩
    ext a
    rw [hkept, hcleared]
    constructor
    . intro hset
      by_contra hnot
      exact hno ⟨a, hset, hnot⟩
    . rintro ⟨before, c, back, heq, hc, hback⟩
      exact ⟨before, c, back, heq, hc, fun x hx hreset => hback x hx (Or.inl hreset)⟩

/--
The two outputs look the same if and only if no text comes after a formatting that only a color has
ended.
-/
theorem toAnsi_toHtml_look_same_iff (l : ComponentList)
    : toAnsi l = Terminal.render (ansiTokens l)
        ∧ toHtml l = Html.render (htmlTokens 0 l)
        ∧ ((∀ c ∈ l, Terminal.escape ∉ display.shows c)
          → (Terminal.read .text .plain (toAnsi l)).1 = ansiLooks l)
        ∧ Html.tags (toHtml l) = Html.tagsOf (htmlTokens 0 l)
        ∧ (ansiLooks l = htmlLooks l
          ↔ ∀ front c back, l = front ++ c :: back → display.shows c ≠ []
            → ¬ KeepsFormatting front) := by
  refine ⟨toAnsi_eq l, toHtml_eq l, read_toAnsi, tags_toHtml l, ?_⟩
  have hhtml : htmlLooks l = (lookDisplay false).render .plain l :=
    @render_htmlTokens [] 0 rfl l
  have hshows : (lookDisplay false).shows = (lookDisplay true).shows := rfl
  rw [ansiLooks, render_ansiTokens, hhtml, Display.render_eq_render_iff hshows]
  constructor
  . intro hall front c back heq hc
    exact (final_eq_iff front).mp (hall front c back heq hc)
  . intro hall front c back heq hc
    exact (final_eq_iff front).mpr (hall front c back heq hc)

theorem toAnsi_toHtml_look_not_same
    : ¬ ∀ l, ansiLooks l = htmlLooks l := by
  intro h
  have heq := h [.formatting .bold, .minecraftColor .red, .text ['x']]
  revert heq
  decide

end Rust

end McStatus
