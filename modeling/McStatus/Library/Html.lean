import Mathlib.Algebra.Ring.Int.Defs
import Mathlib.Algebra.Ring.Nat
import Mathlib.Data.List.Basic
import Mathlib.Data.List.Infix

/-!
This module contains HTML as a sequence of tags and texts: the tags that stand in a string, when
they are properly nested, and the escaping of text.
-/

namespace McStatus

namespace Html

inductive Token where
  /-- What stands between `<` and `>`. -/
  | tag (body : List Char)
  | text (s : List Char)
  deriving DecidableEq, Repr

def Token.render (t : Token) : List Char :=
  match t with
  | tag body => '<' :: (body ++ ['>'])
  | text s => s

def render (ts : List Token) : List Char :=
  ts.flatMap Token.render

def Token.tag? (t : Token) : Option (List Char) :=
  match t with
  | tag body => some body
  | text _ => none

def Token.text? (t : Token) : Option (List Char) :=
  match t with
  | tag _ => none
  | text s => some s

def tagsOf (ts : List Token) : List (List Char) :=
  ts.filterMap Token.tag?

def textOf (ts : List Token) : List Char :=
  (ts.filterMap Token.text?).flatten

@[simp]
theorem render_nil : render [] = [] := rfl

@[simp]
theorem render_cons (t : Token) (ts : List Token) : render (t :: ts) = t.render ++ render ts := rfl

@[simp]
theorem render_append (ts us : List Token) : render (ts ++ us) = render ts ++ render us :=
  List.flatMap_append

@[simp]
theorem tagsOf_nil : tagsOf [] = [] := rfl

@[simp]
theorem tagsOf_tag (body : List Char) (ts : List Token)
    : tagsOf (.tag body :: ts) = body :: tagsOf ts := rfl

@[simp]
theorem tagsOf_text (s : List Char) (ts : List Token) : tagsOf (.text s :: ts) = tagsOf ts := rfl

@[simp]
theorem tagsOf_append (ts us : List Token) : tagsOf (ts ++ us) = tagsOf ts ++ tagsOf us :=
  List.filterMap_append

@[simp]
theorem tagsOf_replicate (n : Nat) (body : List Char)
    : tagsOf (List.replicate n (.tag body)) = List.replicate n body :=
  List.filterMap_replicate_of_some rfl

@[simp]
theorem tagsOf_map_tag (bodies : List (List Char)) : tagsOf (bodies.map .tag) = bodies := by
  rw [tagsOf, List.filterMap_map]
  exact List.filterMap_some

@[simp]
theorem textOf_nil : textOf [] = [] := rfl

@[simp]
theorem textOf_tag (body : List Char) (ts : List Token) : textOf (.tag body :: ts) = textOf ts :=
  rfl

@[simp]
theorem textOf_text (s : List Char) (ts : List Token)
    : textOf (.text s :: ts) = s ++ textOf ts := rfl

@[simp]
theorem textOf_append (ts us : List Token) : textOf (ts ++ us) = textOf ts ++ textOf us := by
  rw [textOf, List.filterMap_append, List.flatten_append]
  rfl

@[simp]
theorem textOf_replicate (n : Nat) (body : List Char)
    : textOf (List.replicate n (.tag body)) = [] := by
  rw [textOf, List.filterMap_replicate_of_none rfl]
  rfl

@[simp]
theorem textOf_map_tag (bodies : List (List Char)) : textOf (bodies.map .tag) = [] := by
  induction bodies with
  | nil => rfl
  | cons body bodies ih => rw [List.map_cons, textOf_tag, ih]

/-- The tags of a string, where `inside` is what was read of the tag that is not closed yet. -/
def tagsFrom (inside : Option (List Char)) (s : List Char) : List (List Char) :=
  match s, inside with
  | [], _ => []
  | c :: s, none => if c = '<' then tagsFrom (some []) s else tagsFrom none s
  | c :: s, some body =>
    if c = '>' then body :: tagsFrom none s else tagsFrom (some (body ++ [c])) s

/-- The tags of a string: each goes from a `<` to the next `>`. -/
def tags (s : List Char) : List (List Char) :=
  tagsFrom none s

theorem tagsFrom_text {s : List Char} (h : '<' ∉ s) (t : List Char)
    : tagsFrom none (s ++ t) = tagsFrom none t := by
  induction s with
  | nil => rfl
  | cons c s ih =>
    rw [List.mem_cons, not_or] at h
    rw [List.cons_append, tagsFrom, if_neg (Ne.symm h.1)]
    exact ih h.2

theorem tagsFrom_body {s : List Char} (h : '>' ∉ s) (body t : List Char)
    : tagsFrom (some body) (s ++ t) = tagsFrom (some (body ++ s)) t := by
  induction s generalizing body with
  | nil => rw [List.nil_append, List.append_nil]
  | cons c s ih =>
    rw [List.mem_cons, not_or] at h
    rw [List.cons_append, tagsFrom, if_neg (Ne.symm h.1), ih h.2, List.append_assoc,
      List.singleton_append]

theorem tagsFrom_tag {body : List Char} (h : '>' ∉ body) (t : List Char)
    : tagsFrom none ((Token.tag body).render ++ t) = body :: tagsFrom none t := by
  rw [Token.render, List.cons_append, tagsFrom, if_pos rfl, List.append_assoc, tagsFrom_body h,
    List.singleton_append, tagsFrom, if_pos rfl, List.nil_append]

/-- What stands in a tag that no other tag is mixed up with. -/
def PlainBody (body : List Char) : Prop :=
  '<' ∉ body ∧ '>' ∉ body

instance (body : List Char) : Decidable (PlainBody body) :=
  inferInstanceAs (Decidable ('<' ∉ body ∧ '>' ∉ body))

theorem PlainBody.append {body body' : List Char} (h : PlainBody body) (h' : PlainBody body')
    : PlainBody (body ++ body') := by
  constructor
  . rw [List.mem_append, not_or]
    exact ⟨h.1, h'.1⟩
  . rw [List.mem_append, not_or]
    exact ⟨h.2, h'.2⟩

def Token.Plain (t : Token) : Prop :=
  match t with
  | tag body => '>' ∉ body
  | text s => '<' ∉ s

theorem tags_render_append {ts : List Token} (h : ∀ t ∈ ts, t.Plain) (s : List Char)
    : tags (render ts ++ s) = tagsOf ts ++ tags s := by
  induction ts with
  | nil => rfl
  | cons t ts ih =>
    have hrest := ih fun u hu => h u (List.mem_cons_of_mem t hu)
    have hplain := h t List.mem_cons_self
    rw [tags] at hrest ⊢
    rw [render_cons, List.append_assoc]
    cases t with
    | tag body => rw [tagsFrom_tag hplain, hrest, tagsOf_tag, List.cons_append]
    | text s => rw [Token.render, tagsFrom_text hplain, hrest, tagsOf_text]

theorem tags_render {ts : List Token} (h : ∀ t ∈ ts, t.Plain) : tags (render ts) = tagsOf ts := by
  have := tags_render_append h []
  rwa [List.append_nil, show tags [] = [] from rfl, List.append_nil] at this

theorem mem_textOf {ts : List Token} {c : Char}
    : c ∈ textOf ts ↔ ∃ s, .text s ∈ ts ∧ c ∈ s := by
  rw [textOf, List.mem_flatten]
  constructor
  . rintro ⟨s, hs, hc⟩
    rcases List.mem_filterMap.mp hs with ⟨t, ht, htext⟩
    cases t with
    | tag body => cases htext
    | text s' =>
      cases htext
      exact ⟨s, ht, hc⟩
  . rintro ⟨s, hs, hc⟩
    exact ⟨s, List.mem_filterMap.mpr ⟨.text s, hs, rfl⟩, hc⟩

theorem mem_tagsOf {ts : List Token} {body : List Char} : body ∈ tagsOf ts ↔ .tag body ∈ ts := by
  rw [tagsOf, List.mem_filterMap]
  constructor
  . rintro ⟨t, ht, htag⟩
    cases t with
    | text s => cases htag
    | tag body' =>
      cases htag
      exact ht
  . intro h
    exact ⟨.tag body, h, rfl⟩

theorem count_tagsFrom (inside : Option (List Char)) (s : List Char)
    : (inside.map fun body => 1 + body.count '<').getD 0 + s.count '<'
        = ((tagsFrom inside (s ++ ['>'])).map fun body => 1 + body.count '<').sum := by
  induction s generalizing inside with
  | nil =>
    cases inside with
    | none => rfl
    | some body => simp [tagsFrom]
  | cons c s ih =>
    rw [List.cons_append]
    cases inside with
    | none =>
      by_cases hc : c = '<'
      . rw [tagsFrom, if_pos hc, ← ih (some []), hc, List.count_cons_self]
        simp
        omega
      . rw [tagsFrom, if_neg hc, ← ih none, List.count_cons_of_ne hc]
    | some body =>
      by_cases hc : c = '>'
      . have hne : c ≠ '<' := by
          rw [hc]
          decide
        rw [tagsFrom, if_pos hc, List.map_cons, List.sum_cons, ← ih none,
          List.count_cons_of_ne hne]
        simp
      . rw [tagsFrom, if_neg hc, ← ih (some (body ++ [c])), ← List.singleton_append,
          List.count_append]
        simp [List.count_append]
        omega

theorem count_render {ts : List Token} (h : ∀ body ∈ tagsOf ts, '<' ∉ body)
    : (render ts).count '<' = (tagsOf ts).length + (textOf ts).count '<' := by
  induction ts with
  | nil => rfl
  | cons t ts ih =>
    rw [render_cons, List.count_append]
    cases t with
    | tag body =>
      rw [tagsOf_tag] at h ⊢
      rw [ih fun b hb => h b (List.mem_cons_of_mem body hb), Token.render, textOf_tag,
        List.count_cons, List.count_append, List.count_eq_zero.mpr (h body List.mem_cons_self),
        List.length_cons]
      simp
      omega
    | text s =>
      rw [tagsOf_text] at h ⊢
      rw [ih h, textOf_text, List.count_append, Token.render]
      omega

theorem tags_render_iff {ts : List Token} {s : List Char} (hend : render ts = s ++ ['>'])
    (h : ∀ body ∈ tagsOf ts, PlainBody body)
    : tags (render ts) = tagsOf ts ↔ '<' ∉ textOf ts := by
  constructor
  . intro heq
    have hread := count_tagsFrom none s
    have hwritten := count_render fun body hbody => (h body hbody).1
    have hones : (tagsOf ts).map (fun body => 1 + body.count '<')
        = List.replicate (tagsOf ts).length 1 := by
      rw [List.eq_replicate_iff]
      refine ⟨List.length_map _, ?_⟩
      intro n hn
      rcases List.mem_map.mp hn with ⟨body, hbody, rfl⟩
      rw [List.count_eq_zero.mpr (h body hbody).1]
    rw [← hend, ← tags, heq, hones, List.sum_replicate_nat] at hread
    rw [hend, List.count_append] at hwritten
    apply List.count_eq_zero.mp
    simp at hread hwritten
    omega
  . intro htext
    apply tags_render
    intro t ht
    cases t with
    | tag body => exact (h body (mem_tagsOf.mpr ht)).2
    | text s => exact fun hmem => htext (mem_textOf.mpr ⟨s, ht, hmem⟩)

def tagName (body : List Char) : List Char :=
  body.takeWhile (· ≠ ' ')

def nest (stack : List (List Char)) (bodies : List (List Char)) : Option (List (List Char)) :=
  match bodies with
  | [] => some stack
  | ('/' :: name) :: bodies =>
    match stack with
    | [] => none
    | top :: stack => if name = top then nest stack bodies else none
  | body :: bodies => nest (tagName body :: stack) bodies

def WellNested (bodies : List (List Char)) : Prop :=
  nest [] bodies = some []

theorem nest_replicate_close (n : Nat) (name : List Char) (bodies : List (List Char))
    : nest (List.replicate n name) (List.replicate n ('/' :: name) ++ bodies) = nest [] bodies := by
  induction n with
  | zero => rfl
  | succ n ih =>
    rw [List.replicate_succ, List.replicate_succ, List.cons_append, nest, if_pos rfl, ih]

def entities : List (List Char) :=
  ["&amp;".toList, "&lt;".toList, "&gt;".toList, "&quot;".toList]

def escapeChar (c : Char) : List Char :=
  match c with
  | '&' => "&amp;".toList
  | '<' => "&lt;".toList
  | '>' => "&gt;".toList
  | '\"' => "&quot;".toList
  | c => [c]

def escape (s : List Char) : List Char :=
  s.flatMap escapeChar

def unescape (s : List Char) : List Char :=
  match s with
  | '&' :: 'a' :: 'm' :: 'p' :: ';' :: s => '&' :: unescape s
  | '&' :: 'l' :: 't' :: ';' :: s => '<' :: unescape s
  | '&' :: 'g' :: 't' :: ';' :: s => '>' :: unescape s
  | '&' :: 'q' :: 'u' :: 'o' :: 't' :: ';' :: s => '\"' :: unescape s
  | c :: s => c :: unescape s
  | [] => []

/-- No markup, and an `&` only where an entity starts. -/
def Escaped (s : List Char) : Prop :=
  match s with
  | [] => True
  | c :: s =>
    c ≠ '<' ∧ c ≠ '>' ∧ c ≠ '\"' ∧ (c = '&' → ∃ e ∈ entities, e <+: c :: s) ∧ Escaped s

instance instDecidableEscaped (s : List Char) : Decidable (Escaped s) :=
  match s with
  | [] => isTrue trivial
  | c :: s =>
    have := instDecidableEscaped s
    inferInstanceAs (Decidable (c ≠ '<' ∧ c ≠ '>' ∧ c ≠ '\"'
      ∧ (c = '&' → ∃ e ∈ entities, e <+: c :: s) ∧ Escaped s))

theorem escapeChar_of_ne {c : Char} (hamp : c ≠ '&') (hlt : c ≠ '<') (hgt : c ≠ '>')
    (hquot : c ≠ '\"') : escapeChar c = [c] := by
  unfold escapeChar
  split <;> simp_all

theorem escape_cons (c : Char) (s : List Char) : escape (c :: s) = escapeChar c ++ escape s := rfl

theorem unescape_escape_append (s t : List Char) : unescape (escape s ++ t) = s ++ unescape t := by
  induction s with
  | nil => rfl
  | cons c s ih =>
    rw [escape_cons, List.append_assoc, List.cons_append, ← ih]
    by_cases hamp : c = '&'
    . subst hamp
      rfl
    by_cases hlt : c = '<'
    . subst hlt
      rfl
    by_cases hgt : c = '>'
    . subst hgt
      rfl
    by_cases hquot : c = '\"'
    . subst hquot
      rfl
    rw [escapeChar_of_ne hamp hlt hgt hquot, List.singleton_append]
    rw [unescape]
    all_goals simp [hamp]

theorem Escaped.append {s t : List Char} (hs : Escaped s) (ht : Escaped t) : Escaped (s ++ t) := by
  induction s with
  | nil => exact ht
  | cons c s ih =>
    rcases hs with ⟨hlt, hgt, hquot, hamp, hrest⟩
    refine ⟨hlt, hgt, hquot, ?_, ih hrest⟩
    intro hc
    rcases hamp hc with ⟨e, he, hstart⟩
    exact ⟨e, he, hstart.trans (List.prefix_append (c :: s) t)⟩

theorem escaped_escapeChar (c : Char) : Escaped (escapeChar c) := by
  unfold escapeChar
  split
  . decide
  . decide
  . decide
  . decide
  . next hamp hlt hgt hquot => exact ⟨hlt, hgt, hquot, fun hc => absurd hc hamp, trivial⟩

theorem escaped_escape (s : List Char) : Escaped (escape s) := by
  induction s with
  | nil => trivial
  | cons c s ih => exact (escaped_escapeChar c).append ih

theorem Escaped.not_mem_lt {s : List Char} (h : Escaped s) : '<' ∉ s := by
  induction s with
  | nil => exact List.not_mem_nil
  | cons c s ih =>
    rw [List.mem_cons, not_or]
    exact ⟨Ne.symm h.1, ih h.2.2.2.2⟩

theorem mem_toDigits {b : Nat} (hb : 1 < b) (n : Nat) {c : Char} (h : c ∈ Nat.toDigits b n)
    : ∃ d < b, c = Nat.digitChar d := by
  induction n using Nat.strongRecOn with
  | ind n ih =>
    rw [Nat.toDigits_eq_if hb] at h
    split at h
    . next hlt => exact ⟨n, hlt, List.mem_singleton.mp h⟩
    . next hge =>
      rcases List.mem_append.mp h with hmem | hmem
      . exact ih (n / b) (Nat.div_lt_self (by omega) hb) hmem
      . exact ⟨n % b, Nat.mod_lt n (by omega), List.mem_singleton.mp hmem⟩

theorem plainBody_toDigits (n : Nat) : PlainBody (Nat.toDigits 10 n) := by
  have hdigits : ∀ d < 10, '<' ≠ Nat.digitChar d ∧ '>' ≠ Nat.digitChar d := by decide
  constructor
  . intro hmem
    rcases mem_toDigits (by decide) n hmem with ⟨d, hd, heq⟩
    exact (hdigits d hd).1 heq
  . intro hmem
    rcases mem_toDigits (by decide) n hmem with ⟨d, hd, heq⟩
    exact (hdigits d hd).2 heq

end Html

end McStatus
