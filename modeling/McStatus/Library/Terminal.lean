import McStatus.Library.Look
import McStatus.Library.Numeral

/-!
This module contains a terminal that reads text with the escape sequences which select how it is
drawn.
-/

namespace McStatus

namespace Terminal

def escape : Char :=
  Char.ofNat 0x1B

inductive Token where
  /-- What stands between `ESC [` and `m`. -/
  | sgr (params : List Char)
  | text (s : List Char)
  deriving DecidableEq, Repr

def Token.render (t : Token) : List Char :=
  match t with
  | sgr params => escape :: '[' :: (params ++ ['m'])
  | text s => s

def render (ts : List Token) : List Char :=
  ts.flatMap Token.render

@[simp]
theorem render_nil : render [] = [] := rfl

@[simp]
theorem render_cons (t : Token) (ts : List Token) : render (t :: ts) = t.render ++ render ts := rfl

@[simp]
theorem render_append (ts us : List Token) : render (ts ++ us) = render ts ++ render us :=
  List.flatMap_append

def attribute? (n : Int) : Option Attribute :=
  match n with
  | 1 => some .bold
  | 3 => some .italic
  | 4 => some .underlined
  | 5 => some .blinking
  | 9 => some .crossedOut
  | _ => none

/-- A zero clears everything, `38;2` sets the foreground, and the others add an attribute. -/
def select (look : Look) (params : List Int) : Look :=
  match params with
  | [] => look
  | 0 :: params => select .plain params
  | 38 :: 2 :: r :: g :: b :: params => select (look.paint (r, g, b)) params
  | n :: params =>
    match attribute? n with
    | some a => select (look.add a) params
    | none => select look params

/-- An escape sequence whose parameters are no numbers is ignored. -/
def sgr (look : Look) (params : List Char) : Look :=
  match (params.splitOn ';').mapM Numeral.int? with
  | some params => select look params
  | none => look

def display : Display Token Look Char where
  apply look t :=
    match t with
    | .sgr params => sgr look params
    | .text _ => look
  shows t :=
    match t with
    | .sgr _ => []
    | .text s => s

inductive Mode where
  | text
  | escape
  | inside (params : List Char)
  deriving DecidableEq, Repr

def read (mode : Mode) (look : Look) (s : List Char) : List (Char × Look) × Look :=
  match s, mode with
  | [], _ => ([], look)
  | c :: s, .text =>
    if c = escape then
      read .escape look s
    else
      let (drawn, last) := read .text look s
      ((c, look) :: drawn, last)
  | c :: s, .escape => read (if c = '[' then .inside [] else .text) look s
  | c :: s, .inside params =>
    if c = 'm' then read .text (sgr look params) s else read (.inside (params ++ [c])) look s

theorem read_text {s : List Char} (h : escape ∉ s) (look : Look) (t : List Char)
    : read .text look (s ++ t)
        = (s.map (fun c => (c, look)) ++ (read .text look t).1, (read .text look t).2) := by
  induction s with
  | nil => rfl
  | cons c s ih =>
    rw [List.mem_cons, not_or] at h
    rw [List.cons_append, read, if_neg (Ne.symm h.1), ih h.2]
    rfl

theorem read_inside {s : List Char} (h : 'm' ∉ s) (params : List Char) (look : Look) (t : List Char)
    : read (.inside params) look (s ++ t) = read (.inside (params ++ s)) look t := by
  induction s generalizing params with
  | nil => rw [List.nil_append, List.append_nil]
  | cons c s ih =>
    rw [List.mem_cons, not_or] at h
    rw [List.cons_append, read, if_neg (Ne.symm h.1), ih h.2, List.append_assoc,
      List.singleton_append]

theorem read_sgr {params : List Char} (h : 'm' ∉ params) (look : Look) (t : List Char)
    : read .text look ((Token.sgr params).render ++ t) = read .text (sgr look params) t := by
  rw [Token.render, List.cons_append, read, if_pos rfl, List.cons_append, read, if_pos rfl,
    List.append_assoc, read_inside h, List.nil_append, List.singleton_append, read, if_pos rfl]

def Token.Plain (t : Token) : Prop :=
  match t with
  | sgr params => 'm' ∉ params
  | text s => escape ∉ s

theorem read_render {ts : List Token} (h : ∀ t ∈ ts, t.Plain) (look : Look)
    : read .text look (render ts) = (display.render look ts, display.final look ts) := by
  induction ts generalizing look with
  | nil => rfl
  | cons t ts ih =>
    have hrest := ih fun u hu => h u (List.mem_cons_of_mem t hu)
    have hplain := h t List.mem_cons_self
    rw [render_cons, Display.render_cons, Display.final_cons]
    cases t with
    | sgr params =>
      rw [read_sgr hplain, hrest]
      rfl
    | text s =>
      have hs : escape ∉ s := hplain
      rw [Token.render, read_text hs, hrest]
      rfl

def colorParams (rgb : Int × Int × Int) : List Char :=
  '3' :: '8' :: ';' :: '2' :: ';' :: (Numeral.decimal rgb.1 ++ ';' :: (Numeral.decimal rgb.2.1
    ++ ';' :: Numeral.decimal rgb.2.2))

theorem splitOn_colorParams (rgb : Int × Int × Int)
    : (colorParams rgb).splitOn ';'
        = [['3', '8'], ['2'], Numeral.decimal rgb.1, Numeral.decimal rgb.2.1,
          Numeral.decimal rgb.2.2] := by
  have hsep (n : Int) : ';' ∉ Numeral.decimal n :=
    Numeral.not_mem_decimal (by decide) (by decide) n
  have hstart : colorParams rgb = ['3', '8'] ++ ';' :: (['2'] ++ ';' :: (Numeral.decimal rgb.1
      ++ ';' :: (Numeral.decimal rgb.2.1 ++ ';' :: Numeral.decimal rgb.2.2))) := rfl
  rw [hstart, List.splitOn_append_cons_self_of_not_mem (by decide),
    List.splitOn_append_cons_self_of_not_mem (by decide),
    List.splitOn_append_cons_self_of_not_mem (hsep _),
    List.splitOn_append_cons_self_of_not_mem (hsep _), List.splitOn_eq_singleton (hsep _)]

theorem sgr_colorParams (look : Look) (rgb : Int × Int × Int)
    : sgr look (colorParams rgb) = look.paint rgb := by
  have hparams : ((colorParams rgb).splitOn ';').mapM Numeral.int?
      = some [38, 2, rgb.1, rgb.2.1, rgb.2.2] := by
    have hfirst : Numeral.int? ['3', '8'] = some 38 := by decide
    have hsecond : Numeral.int? ['2'] = some 2 := by decide
    rw [splitOn_colorParams]
    simp only [List.mapM_cons, List.mapM_nil, hfirst, hsecond, Numeral.int?_decimal]
    rfl
  rw [sgr, hparams]
  rfl

theorem plain_colorParams (rgb : Int × Int × Int) : (Token.sgr (colorParams rgb)).Plain := by
  have hend (n : Int) : 'm' ∉ Numeral.decimal n := Numeral.not_mem_decimal (by decide) (by decide) n
  unfold Token.Plain colorParams
  simp [hend]

end Terminal

end McStatus
