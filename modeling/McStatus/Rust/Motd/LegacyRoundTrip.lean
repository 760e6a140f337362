import McStatus.Library.Text
import McStatus.Rust.Motd.Legacy

/-!
This module contains the proof that `to_minecraft` of what `parse_legacy_string` has read is read
as the same components again: only the way in which codes are spelled changes.
-/

namespace McStatus

namespace Rust

theorem parseHexU8_format02X (b : UInt8) : parseHexU8 (format02X b) = some b := by
  have hall : ∀ n < 256, parseHexU8 (format02X (UInt8.ofNat n)) = some (UInt8.ofNat n) := by
    decide +kernel
  have := hall b.toNat b.toNat_lt
  rwa [UInt8.ofNat_toNat] at this

theorem length_format02X (b : UInt8) : (format02X b).length = 2 := by
  have hall : ∀ n < 256, (format02X (UInt8.ofNat n)).length = 2 := by decide +kernel
  have := hall b.toNat b.toNat_lt
  rwa [UInt8.ofNat_toNat] at this

theorem hex_format02X (b : UInt8) : (format02X b).all (fun c => (hexDigit? c).isSome) = true := by
  have hall : ∀ n < 256,
      (format02X (UInt8.ofNat n)).all (fun c => (hexDigit? c).isSome) = true := by
    decide +kernel
  have := hall b.toNat b.toNat_lt
  rwa [UInt8.ofNat_toNat] at this

theorem encodeUpper_eq (c : WebColor)
    : encodeUpper [c.r, c.g, c.b] = format02X c.r ++ (format02X c.g ++ format02X c.b) := by
  simp [encodeUpper]

theorem webColorOf_encodeUpper (c : WebColor)
    : webColorOf (encodeUpper [c.r, c.g, c.b]) = some c
        ∧ (encodeUpper [c.r, c.g, c.b]).length = 6 := by
  have hr := length_format02X c.r
  have hg := length_format02X c.g
  have hb := length_format02X c.b
  rw [encodeUpper_eq]
  constructor
  . rw [webColorOf, if_pos (by simp only [List.all_append, hex_format02X, Bool.and_self])]
    have hred : (format02X c.r ++ (format02X c.g ++ format02X c.b)).take 2 = format02X c.r := by
      rw [← hr, List.take_left]
    have hgreen : ((format02X c.r ++ (format02X c.g ++ format02X c.b)).drop 2).take 2
        = format02X c.g := by
      rw [← hr, List.drop_left, hr, ← hg, List.take_left]
    have hblue : ((format02X c.r ++ (format02X c.g ++ format02X c.b)).drop 4).take 2
        = format02X c.b := by
      have hfour : 4 = (format02X c.r ++ format02X c.g).length := by
        rw [List.length_append, hr, hg]
      rw [← List.append_assoc, hfour, List.drop_left, ← hb, List.take_length]
    rw [hred, hgreen, hblue, parseHexU8_format02X, parseHexU8_format02X, parseHexU8_format02X]
    rfl
  . rw [List.length_append, List.length_append, hr, hg, hb]

theorem Spells.respelled {spelled : List Char} {component : MotdComponent}
    (h : Spells spelled component)
    : Spells (toMinecraft [component]) component
        ∧ (toMinecraft [component]).length = spelled.length := by
  have hstart : isCodeStart '§' = true := by decide
  cases h with
  | color c code color _ hcode =>
    refine ⟨.color '§' color.codeChar color hstart ?_, rfl⟩
    cases color <;> decide
  | formatting c code f _ hcolor hcode =>
    refine ⟨.formatting '§' f.codeChar f hstart ?_ ?_, rfl⟩
    . cases f <;> decide
    . cases f <;> decide
  | webColor c digits color _ hlen hcode =>
    rcases webColorOf_encodeUpper color with ⟨hweb, hsix⟩
    rw [Rust.toMinecraft, Rust.toMinecraft, List.append_nil]
    refine ⟨.webColor '§' _ color hstart hsix hweb, ?_⟩
    rw [List.length_cons, List.length_cons, List.length_cons, List.length_cons, hsix, hlen]

theorem toMinecraft_cons (component : MotdComponent) (l : ComponentList)
    : toMinecraft (component :: l) = toMinecraft [component] ++ toMinecraft l := by
  cases component <;> simp [toMinecraft]

inductive Respelled : List Char → List Char → Prop where
  | nil : Respelled [] []
  | char (c : Char) (s t : List Char) (hnone : codeAt (c :: s) = none) (h : Respelled s t)
      : Respelled (c :: s) (c :: t)
  | code (spelled spelled' s t : List Char) (component : MotdComponent)
      (hspells : Spells spelled component) (hspells' : Spells spelled' component)
      (hlen : spelled'.length = spelled.length) (h : Respelled s t)
      : Respelled (spelled ++ s) (spelled' ++ t)

theorem Respelled.of_plainText {s t : List Char} (h : Respelled (plainText s).2 t)
    : Respelled s ((plainText s).1 ++ t) := by
  induction s with
  | nil => exact h
  | cons c s ih =>
    cases hbreaks : breaksText (c :: s) with
    | true =>
      rw [plainText_of_breaksText hbreaks] at h ⊢
      exact h
    | false =>
      rw [plainText_cons hbreaks] at h ⊢
      exact .char c s _ (codeAt_of_not_breaksText hbreaks) (ih h)

theorem respelled_toMinecraft (s : List Char)
    : Respelled s (toMinecraft (parseLegacyString s)) := by
  unfold parseLegacyString
  induction s using step_induction with
  | hnil =>
    rw [parseLegacyString.go]
    exact .nil
  | hstep s component rest h ih =>
    rw [h.go_eq, toMinecraft_cons]
    cases h with
    | code spelled _ _ hspells =>
      rcases hspells.respelled with ⟨hspells', hlen⟩
      exact .code spelled _ rest _ component hspells hspells' hlen ih
    | literal c _ hstart hrest hcode => exact .char c rest _ hcode ih
    | text c rest htext =>
      rw [toMinecraft, toMinecraft, List.append_nil]
      exact .char c rest _ (codeAt_of_text htext) ih.of_plainText

theorem Respelled.length_eq {s t : List Char} (h : Respelled s t) : t.length = s.length := by
  induction h with
  | nil => rfl
  | char c s t hnone h ih => rw [List.length_cons, List.length_cons, ih]
  | code spelled spelled' s t component hspells hspells' hlen h ih =>
    rw [List.length_append, List.length_append, hlen, ih]

theorem code_of_isCodeStart {c : Char} (h : isCodeStart c = true)
    : MinecraftColor.fromCodeChar c = none ∧ Formatting.fromCodeChar c = none ∧ c ≠ '#'
        ∧ hexDigit? c = none := by
  have hsigns : c = '§' ∨ c = '&' := by simpa [isCodeStart] using h
  rcases hsigns with rfl | rfl
  . decide
  . decide

theorem Spells.head {spelled : List Char} {component : MotdComponent}
    (h : Spells spelled component)
    : ∃ c rest, spelled = c :: rest ∧ isCodeStart c = true
        ∧ ∀ x ∈ rest, isCodeStart x = false := by
  cases h with
  | color c code color hstart hcode =>
    refine ⟨c, [code], rfl, hstart, ?_⟩
    rw [List.forall_mem_singleton, ← Bool.not_eq_true]
    intro hsign
    rw [(code_of_isCodeStart hsign).1] at hcode
    cases hcode
  | formatting c code f hstart hcolor hcode =>
    refine ⟨c, [code], rfl, hstart, ?_⟩
    rw [List.forall_mem_singleton, ← Bool.not_eq_true]
    intro hsign
    rw [(code_of_isCodeStart hsign).2.1] at hcode
    cases hcode
  | webColor c digits color hstart hlen hcode =>
    refine ⟨c, '#' :: digits, rfl, hstart, ?_⟩
    rw [webColorOf] at hcode
    split at hcode
    . next hhex =>
      rw [List.forall_mem_cons]
      refine ⟨by decide, ?_⟩
      intro x hx
      have hdigit := List.all_eq_true.mp hhex x hx
      rw [← Bool.not_eq_true]
      intro hsign
      rw [(code_of_isCodeStart hsign).2.2.2] at hdigit
      cases hdigit
    . cases hcode

theorem Respelled.take_eq {s t : List Char} (h : Respelled s t) {k : Nat}
    (hk : ∀ c ∈ t.take k, isCodeStart c = false) : s.take k = t.take k := by
  induction h generalizing k with
  | nil => rfl
  | char c s t hnone h ih =>
    cases k with
    | zero => rfl
    | succ k =>
      rw [List.take_succ_cons, List.forall_mem_cons] at hk
      rw [List.take_succ_cons, List.take_succ_cons, ih hk.2]
  | code spelled spelled' s t component hspells hspells' hlen h ih =>
    cases k with
    | zero => rfl
    | succ k =>
      rcases hspells'.head with ⟨c, rest, rfl, hstart, _⟩
      rw [List.cons_append, List.take_succ_cons, List.forall_mem_cons, hstart] at hk
      exact absurd hk.1 (by decide)

theorem Respelled.codeAt_none {c : Char} {s t : List Char} (h : Respelled s t)
    (hnone : codeAt (c :: s) = none) : codeAt (c :: t) = none := by
  cases hat : codeAt (c :: t) with
  | none => rfl
  | some code =>
    rcases code with ⟨component, rest⟩
    rcases exists_of_codeAt hat with ⟨spelled, hspells, heq⟩
    rcases hspells.head with ⟨c', tail, rfl, hstart, htail⟩
    rw [List.cons_append, List.cons.injEq] at heq
    rcases heq with ⟨rfl, rfl⟩
    have htake : s.take tail.length = tail := by
      rw [h.take_eq, List.take_left]
      rwa [List.take_left]
    have hsome := codeAt_append hspells (s.drop tail.length)
    rw [List.cons_append] at hsome
    conv at hsome => enter [1, 1, 2, 1]; rw [← htake]
    rw [List.take_append_drop, hnone] at hsome
    cases hsome

theorem breaksText_of_codeAt {s : List Char} (h : codeAt s ≠ none) : breaksText s = true := by
  rw [← Bool.not_eq_false]
  intro hbreaks
  exact h (codeAt_of_not_breaksText hbreaks)

theorem breaksText_sign {x : Char} (h : isCodeStart x = true) (c : Char) (s : List Char)
    : breaksText (c :: x :: s) = false := by
  rcases code_of_isCodeStart h with ⟨hcolor, hformatting, hne, _⟩
  rw [breaksText, hcolor, hformatting]
  simp [hne]

theorem Respelled.breaksText_eq {s t : List Char} (h : Respelled s t)
    : breaksText t = breaksText s := by
  cases h with
  | nil => rfl
  | code spelled spelled' s t component hspells hspells' hlen h =>
    rw [breaksText_of_codeAt, breaksText_of_codeAt]
    . rw [codeAt_append hspells]
      exact Option.some_ne_none _
    . rw [codeAt_append hspells']
      exact Option.some_ne_none _
  | char c s t hnone h =>
    have hlen := h.length_eq
    cases h with
    | nil => rfl
    | char code s t hnone' h =>
      rw [List.length_cons, List.length_cons] at hlen
      rw [breaksText, breaksText, List.length_cons, List.length_cons, List.length_cons,
        List.length_cons, hlen]
    | code spelled spelled' s t component hspells hspells' hlen' h =>
      rcases hspells.head with ⟨x, rest, rfl, hstart, _⟩
      rcases hspells'.head with ⟨x', rest', rfl, hstart', _⟩
      rw [List.cons_append, List.cons_append, breaksText_sign hstart, breaksText_sign hstart']

theorem Respelled.plainText_eq {s t : List Char} (h : Respelled s t)
    : (plainText t).1 = (plainText s).1 ∧ Respelled (plainText s).2 (plainText t).2 := by
  induction h with
  | nil => exact ⟨rfl, .nil⟩
  | char c s t hnone h ih =>
    have hsame := (Respelled.char c s t hnone h).breaksText_eq
    cases hbreaks : breaksText (c :: s) with
    | true =>
      rw [hbreaks] at hsame
      rw [plainText_of_breaksText hbreaks, plainText_of_breaksText hsame]
      exact ⟨rfl, .char c s t hnone h⟩
    | false =>
      rw [hbreaks] at hsame
      rw [plainText_cons hbreaks, plainText_cons hsame]
      exact ⟨congrArg (c :: ·) ih.1, ih.2⟩
  | code spelled spelled' s t component hspells hspells' hlen h ih =>
    have hfirst : breaksText (spelled ++ s) = true := by
      apply breaksText_of_codeAt
      rw [codeAt_append hspells]
      exact Option.some_ne_none _
    have hsame :=
      (Respelled.code spelled spelled' s t component hspells hspells' hlen h).breaksText_eq
    rw [hfirst] at hsame
    rw [plainText_of_breaksText hfirst, plainText_of_breaksText hsame]
    exact ⟨rfl, .code spelled spelled' s t component hspells hspells' hlen h⟩

theorem Respelled.char_inv {c : Char} {s t : List Char} (h : Respelled (c :: s) t)
    (hnone : codeAt (c :: s) = none) : ∃ t', t = c :: t' ∧ Respelled s t' := by
  generalize hs : c :: s = s' at h
  cases h with
  | nil => cases hs
  | char c' s' t' _ h =>
    cases hs
    exact ⟨t', rfl, h⟩
  | code spelled spelled' s' t' component hspells hspells' hlen h =>
    rw [hs, codeAt_append hspells] at hnone
    cases hnone

theorem Respelled.code_inv {s rest t : List Char} {component : MotdComponent} (h : Respelled s t)
    (hsome : codeAt s = some (component, rest))
    : ∃ spelled' t', Spells spelled' component ∧ t = spelled' ++ t' ∧ Respelled rest t' := by
  cases h with
  | nil => cases hsome
  | char c s t hnone h =>
    rw [hnone] at hsome
    cases hsome
  | code spelled spelled' s t component' hspells hspells' hlen h =>
    rw [codeAt_append hspells] at hsome
    cases hsome
    exact ⟨spelled', t, hspells', rfl, h⟩

theorem Respelled.go_eq {s t : List Char} (h : Respelled s t)
    : parseLegacyString.go t = parseLegacyString.go s := by
  induction s using step_induction generalizing t with
  | hnil =>
    have hlen := h.length_eq
    rw [List.eq_nil_of_length_eq_zero hlen]
  | hstep s component rest hstep ih =>
    rw [hstep.go_eq]
    cases hstep with
    | code spelled _ _ hspells =>
      rcases h.code_inv (codeAt_append hspells rest) with ⟨spelled', t', hspells', rfl, h'⟩
      rw [(Step.code spelled' t' component hspells').go_eq, ih h']
    | literal c _ hstart hrest hcode =>
      rcases h.char_inv hcode with ⟨t', rfl, h'⟩
      have hne : t' ≠ [] := by
        rintro rfl
        have hlen := h'.length_eq
        exact hrest (List.eq_nil_of_length_eq_zero hlen.symm)
      rw [(Step.literal c t' hstart hne (h'.codeAt_none hcode)).go_eq, ih h']
    | text c rest htext =>
      rcases h.char_inv (codeAt_of_text htext) with ⟨t', rfl, h'⟩
      rcases h'.plainText_eq with ⟨hplain, hrest⟩
      have htext' : isCodeStart c = false ∨ t' = [] := by
        rcases htext with hc | rfl
        . exact Or.inl hc
        . exact Or.inr (List.eq_nil_of_length_eq_zero h'.length_eq)
      rw [go_text htext', hplain, ih hrest]

def isCodeLetter (c : Char) : Bool :=
  c ∈ "0123456789abcdefgABCDEFGklmnorKLMNOR".toList

/-- The length of the code that a string starts with: two, or eight for a hex code. -/
def codeLength (s : List Char) : Nat :=
  match s with
  | c :: code :: rest =>
    if c = '§' ∨ c = '&' then
      if isCodeLetter code then
        2
      else if code = '#' ∧ 6 ≤ rest.length ∧ (rest.take 6).all (fun c => (hexDigit? c).isSome) then
        8
      else
        0
    else
      0
  | _ => 0

def stripCodes (s : List Char) : List Char :=
  match s with
  | [] => []
  | c :: s =>
    if codeLength (c :: s) = 0 then c :: stripCodes s
    else stripCodes (s.drop (codeLength (c :: s) - 1))
termination_by s.length

theorem isCodeLetter_iff (c : Char)
    : isCodeLetter c = true
        ↔ MinecraftColor.fromCodeChar c ≠ none ∨ Formatting.fromCodeChar c ≠ none := by
  constructor
  . intro h
    have hall : "0123456789abcdefgABCDEFGklmnorKLMNOR".toList.all (fun c =>
        (MinecraftColor.fromCodeChar c).isSome || (Formatting.fromCodeChar c).isSome) = true := by
      decide
    have hc := List.all_eq_true.mp hall c (of_decide_eq_true h)
    rw [Bool.or_eq_true] at hc
    exact hc.imp Option.isSome_iff_ne_none.mp Option.isSome_iff_ne_none.mp
  . rintro (hcolor | hformatting)
    . have hmem : c.toLower ∈ "0123456789abcdefg".toList := by
        unfold MinecraftColor.fromCodeChar at hcolor
        split at hcolor
        case h_18 => exact absurd rfl hcolor
        all_goals
          next heq =>
            rw [heq]
            decide
      have hall : ("0123456789abcdefg".toList ++ "0123456789abcdefg".toList.map Char.toUpper).all
          isCodeLetter = true := by
        decide
      exact List.all_eq_true.mp hall c (mem_of_toLower_mem hmem)
    . unfold Formatting.fromCodeChar at hformatting
      split at hformatting
      case h_13 => exact absurd rfl hformatting
      all_goals decide

theorem Spells.codeLength_append {spelled : List Char} {component : MotdComponent}
    (h : Spells spelled component) (rest : List Char)
    : codeLength (spelled ++ rest) = spelled.length := by
  have hsign {c : Char} (hc : isCodeStart c = true) : c = '§' ∨ c = '&' := of_decide_eq_true hc
  cases h with
  | color c code color hstart hcode =>
    have hletter : isCodeLetter code = true := by
      rw [isCodeLetter_iff, hcode]
      exact Or.inl (Option.some_ne_none color)
    rw [List.cons_append, List.cons_append, codeLength, if_pos (hsign hstart), if_pos hletter]
    rfl
  | formatting c code f hstart hcolor hcode =>
    have hletter : isCodeLetter code = true := by
      rw [isCodeLetter_iff, hcode]
      exact Or.inr (Option.some_ne_none f)
    rw [List.cons_append, List.cons_append, codeLength, if_pos (hsign hstart), if_pos hletter]
    rfl
  | webColor c digits color hstart hlen hcode =>
    have hhash : ¬ isCodeLetter '#' = true := by decide
    have hhex : digits.all (fun c => (hexDigit? c).isSome) = true := by
      rw [webColorOf] at hcode
      split at hcode
      . assumption
      . cases hcode
    have htake : (digits ++ rest).take 6 = digits := by rw [← hlen, List.take_left]
    rw [List.cons_append, List.cons_append, codeLength, if_pos (hsign hstart), if_neg hhash, htake,
      if_pos ⟨rfl, by rw [List.length_append]; omega, hhex⟩, List.length_cons, List.length_cons,
        hlen]

theorem hexDigit?_lt {c : Char} {d : Nat} (h : hexDigit? c = some d) : d < 16 := by
  have hle (x y : Char) : x ≤ y ↔ x.toNat ≤ y.toNat := Iff.rfl
  unfold hexDigit? at h
  split at h
  . next hdigit =>
    have hrange : c.toNat ≤ '9'.toNat := by
      rw [Char.isDigit, Bool.and_eq_true, decide_eq_true_eq, decide_eq_true_eq] at hdigit
      exact hdigit.2
    cases h
    have : '9'.toNat = 57 := rfl
    have : '0'.toNat = 48 := rfl
    omega
  . split at h
    . next hlower =>
      rw [hle, hle] at hlower
      cases h
      have : 'f'.toNat = 102 := rfl
      have : 'a'.toNat = 97 := rfl
      omega
    . split at h
      . next hupper =>
        rw [hle, hle] at hupper
        cases h
        have : 'F'.toNat = 70 := rfl
        have : 'A'.toNat = 65 := rfl
        omega
      . cases h

theorem exists_parseHexU8 {a b : Char} (ha : (hexDigit? a).isSome = true)
    (hb : (hexDigit? b).isSome = true) : ∃ n, parseHexU8 [a, b] = some n := by
  rcases Option.isSome_iff_exists.mp ha with ⟨x, hx⟩
  rcases Option.isSome_iff_exists.mp hb with ⟨y, hy⟩
  have hxlt := hexDigit?_lt hx
  have hylt := hexDigit?_lt hy
  have hplus : a ≠ '+' := by
    rintro rfl
    cases hx
  refine ⟨UInt8.ofNat (16 * x + y), ?_⟩
  have hsize : UInt8.size = 256 := rfl
  unfold parseHexU8
  split
  . next heq => exact absurd (List.cons.inj heq).1 hplus
  . simp [hx, hy, hsize]
    omega

theorem exists_webColorOf {digits : List Char} (hlen : digits.length = 6)
    (hhex : digits.all (fun c => (hexDigit? c).isSome) = true)
    : ∃ color, webColorOf digits = some color := by
  match digits, hlen with
  | [d₁, d₂, d₃, d₄, d₅, d₆], _ =>
    rw [webColorOf, if_pos hhex]
    simp only [List.all_cons, List.all_nil, Bool.and_true, Bool.and_eq_true] at hhex
    rcases hhex with ⟨h₁, h₂, h₃, h₄, h₅, h₆⟩
    rcases exists_parseHexU8 h₁ h₂ with ⟨r, hr⟩
    rcases exists_parseHexU8 h₃ h₄ with ⟨g, hg⟩
    rcases exists_parseHexU8 h₅ h₆ with ⟨b, hb⟩
    exact ⟨{ r := r, g := g, b := b }, by simp [hr, hg, hb]⟩

theorem exists_spells {s : List Char} (h : codeLength s ≠ 0)
    : ∃ spelled component rest, Spells spelled component ∧ s = spelled ++ rest := by
  unfold codeLength at h
  split at h
  . next c code rest =>
    split at h
    . next hsign =>
      have hstart : isCodeStart c = true := decide_eq_true hsign
      split at h
      . next hletter =>
        cases hcolor : MinecraftColor.fromCodeChar code with
        | some color => exact ⟨_, _, rest, .color c code color hstart hcolor, rfl⟩
        | none =>
          cases hformatting : Formatting.fromCodeChar code with
          | some f => exact ⟨_, _, rest, .formatting c code f hstart hcolor hformatting, rfl⟩
          | none =>
            rcases (isCodeLetter_iff code).mp hletter with hne | hne
            . exact absurd hcolor hne
            . exact absurd hformatting hne
      . split at h
        . next hhash =>
          rcases hhash with ⟨rfl, hlen, hhex⟩
          have htake : (rest.take 6).length = 6 := by
            rw [List.length_take]
            omega
          rcases exists_webColorOf htake hhex with ⟨color, hcolor⟩
          refine ⟨_, _, rest.drop 6, .webColor c _ color hstart htake hcolor, ?_⟩
          rw [List.cons_append, List.cons_append, List.take_append_drop]
        . exact absurd rfl h
    . exact absurd rfl h
  . exact absurd rfl h

theorem stripCodes_code {spelled : List Char} {component : MotdComponent}
    (h : Spells spelled component) (rest : List Char)
    : stripCodes (spelled ++ rest) = stripCodes rest := by
  have hlen := h.codeLength_append rest
  have htwo := h.length
  rcases h.head with ⟨c, tail, rfl, _⟩
  rw [List.cons_append] at hlen ⊢
  rw [stripCodes, hlen, if_neg (by omega), List.length_cons, Nat.add_sub_cancel, List.drop_left]

theorem stripCodes_char {c : Char} {s : List Char} (h : codeAt (c :: s) = none)
    : stripCodes (c :: s) = c :: stripCodes s := by
  have hlen : codeLength (c :: s) = 0 := by
    by_contra hne
    rcases exists_spells hne with ⟨spelled, component, rest, hspells, heq⟩
    rw [heq, codeAt_append hspells] at h
    cases h
  rw [stripCodes, if_pos hlen]

def textsOf (l : ComponentList) : List Char :=
  match l with
  | [] => []
  | .text s :: l => s ++ textsOf l
  | _ :: l => textsOf l

theorem stripCodes_plainText (s : List Char)
    : stripCodes s = (plainText s).1 ++ stripCodes (plainText s).2 := by
  induction s with
  | nil => rfl
  | cons c s ih =>
    cases h : breaksText (c :: s) with
    | true => rw [plainText_of_breaksText h, List.nil_append]
    | false =>
      rw [plainText_cons h, stripCodes_char (codeAt_of_not_breaksText h), ih, List.cons_append]

theorem textsOf_parseLegacyString (s : List Char)
    : textsOf (parseLegacyString s) = stripCodes s := by
  unfold parseLegacyString
  induction s using step_induction with
  | hnil =>
    rw [parseLegacyString.go, stripCodes]
    rfl
  | hstep s component rest h ih =>
    rw [h.go_eq]
    cases h with
    | code spelled _ _ hspells =>
      rw [stripCodes_code hspells, ← ih]
      cases hspells <;> rfl
    | literal c _ hstart hrest hcode =>
      rw [stripCodes_char hcode, ← ih]
      rfl
    | text c rest htext =>
      rw [stripCodes_char (codeAt_of_text htext), stripCodes_plainText rest, ← ih]
      rfl

theorem parseLegacyString_normalises (s : List Char)
    : (toMinecraft (parseLegacyString s)).length = s.length
        ∧ parseLegacyString (toMinecraft (parseLegacyString s)) = parseLegacyString s
        ∧ textsOf (parseLegacyString s) = stripCodes s :=
  ⟨(respelled_toMinecraft s).length_eq, (respelled_toMinecraft s).go_eq,
    textsOf_parseLegacyString s⟩

end Rust

end McStatus
