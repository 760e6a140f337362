import Mathlib.Data.List.TakeWhile
import McStatus.Library.Runs
import McStatus.Python.Motd.Impl

/-!
This module contains where `_parse_as_str` sees a code: how the regular expression splits a string
that is put together, and which pieces become a color or a formatting.
-/

namespace McStatus

namespace Python

namespace Motd

def IsSign (c : Char) : Prop :=
  c = '&' ∨ c = '§'

instance (c : Char) : Decidable (IsSign c) :=
  inferInstanceAs (Decidable (c = '&' ∨ c = '§'))

def lowerChar (c : Char) : Char :=
  if c.toNat = 0x212A then 'k' else c.toLower

theorem lower_eq (s : List Char) : lower s = s.map lowerChar := rfl

/-- The color or the formatting of a letter. Colors are looked up first. -/
def componentOf? (v : Char) : Option ParsedMotdComponent :=
  match MinecraftColor.ofValue [v] with
  | some color => some (.minecraftColor color)
  | none => (Formatting.ofValue [v]).map .formatting

structure IsCode (piece signs : List Char) (letter : Char) (component : ParsedMotdComponent)
    : Prop where
  eq : piece = signs ++ [letter]
  signs_ne_nil : signs ≠ []
  isSign : ∀ c ∈ signs, IsSign c
  component_eq : componentOf? (lowerChar letter) = some component

theorem exists_ofValue_color {value : List Char} {c : MinecraftColor}
    (h : MinecraftColor.ofValue value = some c) : ∃ v, value = [v] := by
  rcases Option.map_eq_some_iff.mp h with ⟨m, hm, _⟩
  have hvalue := List.find?_some hm
  exact ⟨m.2.2, (of_decide_eq_true hvalue).symm⟩

theorem exists_ofValue_formatting {value : List Char} {f : Formatting}
    (h : Formatting.ofValue value = some f) : ∃ v, value = [v] := by
  have hvalue := List.find?_some h
  exact ⟨f.value, (of_decide_eq_true hvalue).symm⟩

theorem not_isSign_of_component {letter : Char} {component : ParsedMotdComponent}
    (h : componentOf? (lowerChar letter) = some component) : ¬ IsSign letter := by
  rintro (rfl | rfl)
  . exact absurd h (by rw [show componentOf? (lowerChar '&') = none by decide]; exact nofun)
  . exact absurd h (by rw [show componentOf? (lowerChar '§') = none by decide]; exact nofun)

theorem IsCode.dropWhile_eq {piece signs : List Char} {letter : Char}
    {component : ParsedMotdComponent} (h : IsCode piece signs letter component)
    : piece.dropWhile (fun c => c = '&' ∨ c = '§') = [letter] := by
  have hletter : ¬ (letter = '&' ∨ letter = '§') := not_isSign_of_component h.component_eq
  have hsigns : ∀ c ∈ signs, decide (c = '&' ∨ c = '§') = true :=
    fun c hc => decide_eq_true (h.isSign c hc)
  rw [h.eq, List.dropWhile_append_of_pos hsigns,
    List.dropWhile_cons_of_neg (by simpa using hletter)]

theorem map_signs {signs : List Char} (h : ∀ c ∈ signs, IsSign c)
    : signs.map (fun c => lowerChar (if c = '&' then '§' else c))
        = List.replicate signs.length '§' := by
  rw [List.eq_replicate_iff]
  refine ⟨List.length_map _, ?_⟩
  intro c hc
  rcases List.mem_map.mp hc with ⟨c', hc', rfl⟩
  rcases h c' hc' with rfl | rfl <;> decide

theorem IsCode.standardized_eq {piece signs : List Char} {letter : Char}
    {component : ParsedMotdComponent} (h : IsCode piece signs letter component)
    : lower (piece.map fun c => if c = '&' then '§' else c)
        = List.replicate signs.length '§' ++ [lowerChar letter] := by
  have hletter : letter ≠ '&' := fun heq => not_isSign_of_component h.component_eq (Or.inl heq)
  rw [lower_eq, List.map_map, h.eq, List.map_append, List.map_singleton, ← map_signs h.isSign]
  rw [Function.comp_apply, if_neg hletter]
  rfl

/-- Only one sign and a `g` is not a code, and that on Java. -/
def IsJavaGold (signs : List Char) (letter : Char) (bedrock : Bool) : Prop :=
  signs.length = 1 ∧ lowerChar letter = 'g' ∧ bedrock = false

theorem IsCode.parseElement_eq {piece signs : List Char} {letter : Char}
    {component : ParsedMotdComponent} (h : IsCode piece signs letter component) {bedrock : Bool}
    (hgold : ¬ IsJavaGold signs letter bedrock) : parseElement bedrock piece = component := by
  have hclean : lower (piece.dropWhile fun c => c = '&' ∨ c = '§') = [lowerChar letter] := by
    rw [h.dropWhile_eq]
    rfl
  have hno : ¬ (List.replicate signs.length '§' ++ [lowerChar letter] = ['§', 'g']
      ∧ ¬ bedrock = true) := by
    rintro ⟨heq, hbedrock⟩
    have hlen := congrArg List.length heq
    have hlast := congrArg List.getLast? heq
    rw [List.getLast?_concat] at hlast
    simp at hlen
    exact hgold ⟨hlen, Option.some.inj hlast, by simpa using hbedrock⟩
  have hhead : (List.replicate signs.length '§' ++ [lowerChar letter]).head? = some '§' := by
    have hpos := List.length_pos_of_ne_nil h.signs_ne_nil
    rw [← Nat.sub_add_cancel hpos, List.replicate_succ]
    rfl
  have hcomponent := h.component_eq
  unfold parseElement
  dsimp only
  rw [h.standardized_eq, hclean, if_neg hno, if_pos hhead]
  unfold componentOf? at hcomponent
  cases hcolor : MinecraftColor.ofValue [lowerChar letter] with
  | some color =>
    rw [hcolor] at hcomponent
    exact Option.some.inj hcomponent
  | none =>
    rw [hcolor] at hcomponent
    rcases Option.map_eq_some_iff.mp hcomponent with ⟨f, hf, rfl⟩
    rw [hf]

theorem exists_isCode_of_clean {piece : List Char} {v : Char} {component : ParsedMotdComponent}
    (hclean : lower (piece.dropWhile fun c => c = '&' ∨ c = '§') = [v])
    (hcomponent : componentOf? v = some component)
    (hhead : (lower (piece.map fun c => if c = '&' then '§' else c)).head? = some '§')
    : ∃ signs letter, IsCode piece signs letter component := by
  have hsplit := List.takeWhile_append_dropWhile (p := fun c => c = '&' ∨ c = '§') (l := piece)
  have hsigns : ∀ c ∈ piece.takeWhile (fun c => c = '&' ∨ c = '§'), IsSign c := by
    intro c hc
    exact of_decide_eq_true (List.mem_takeWhile_imp (p := fun c => c = '&' ∨ c = '§') hc)
  rcases List.map_eq_singleton_iff.mp hclean with ⟨letter, hletter, rfl⟩
  refine ⟨_, letter, ?_, ?_, hsigns, hcomponent⟩
  . rw [← hletter, hsplit]
  . intro hnil
    rw [hnil, hletter, List.nil_append] at hsplit
    rw [← hsplit] at hhead
    have hsign : lowerChar letter = '§' := by
      by_cases hamp : letter = '&'
      . exact absurd (Or.inl hamp) (not_isSign_of_component hcomponent)
      . rw [List.map_singleton, if_neg hamp] at hhead
        exact Option.some.inj hhead
    change componentOf? (lowerChar letter) = some component at hcomponent
    rw [hsign] at hcomponent
    cases hcomponent

theorem exists_isCode {bedrock : Bool} {piece : List Char}
    (h : parseElement bedrock piece ≠ .str piece)
    : ∃ signs letter component, IsCode piece signs letter component
        ∧ ¬ IsJavaGold signs letter bedrock := by
  unfold parseElement at h
  dsimp only at h
  split at h
  . exact absurd rfl h
  . next hgold =>
    have hjava {signs : List Char} {letter : Char} {component : ParsedMotdComponent}
        (hcode : IsCode piece signs letter component) : ¬ IsJavaGold signs letter bedrock := by
      rintro ⟨hone, hg, hjava⟩
      rw [hcode.standardized_eq, hone, hg, hjava] at hgold
      exact hgold ⟨rfl, Bool.false_ne_true⟩
    split at h
    . next hhead =>
      split at h
      . next color hcolor =>
        rcases exists_ofValue_color hcolor with ⟨v, hv⟩
        rw [hv] at hcolor
        have hcomponent : componentOf? v = some (.minecraftColor color) := by
          rw [componentOf?, hcolor]
        rcases exists_isCode_of_clean hv hcomponent hhead with ⟨signs, letter, hcode⟩
        exact ⟨signs, letter, _, hcode, hjava hcode⟩
      . next hcolor =>
        split at h
        . next f hf =>
          rcases exists_ofValue_formatting hf with ⟨v, hv⟩
          rw [hv] at hcolor hf
          have hcomponent : componentOf? v = some (.formatting f) := by
            rw [componentOf?, hcolor, hf]
            rfl
          rcases exists_isCode_of_clean hv hcomponent hhead with ⟨signs, letter, hcode⟩
          exact ⟨signs, letter, _, hcode, hjava hcode⟩
        . exact absurd rfl h
    . exact absurd rfl h

def IsMatch (c code : Char) : Prop :=
  isCodeStart c = true ∧ Motd.isCode code = true

instance (c code : Char) : Decidable (IsMatch c code) :=
  inferInstanceAs (Decidable (isCodeStart c = true ∧ Motd.isCode code = true))

theorem splitCodes_match {c code : Char} (h : IsMatch c code) (text rest : List Char)
    : splitCodes text (c :: code :: rest) = text :: [c, code] :: splitCodes [] rest := by
  rw [splitCodes]
  exact if_pos h

theorem splitCodes_next {c code : Char} (h : ¬ IsMatch c code) (text rest : List Char)
    : splitCodes text (c :: code :: rest) = splitCodes (text ++ [c]) (code :: rest) := by
  rw [splitCodes]
  exact if_neg h

def StartsWithCode (s : List Char) : Prop :=
  ∃ c code rest, s = c :: code :: rest ∧ IsMatch c code

def EndsWithCode (s : List Char) : Prop :=
  ∃ front c code, s = front ++ [c, code] ∧ IsMatch c code

theorem isCode_of_isCodeStart {c : Char} (h : isCodeStart c = true) : Motd.isCode c = false := by
  have hsigns : c = '§' ∨ c = '|' ∨ c = '&' := of_decide_eq_true h
  rcases hsigns with rfl | rfl | rfl <;> decide

theorem not_startsWithCode_cons {c code : Char} {rest : List Char} (h : ¬ IsMatch c code)
    : ¬ StartsWithCode (c :: code :: rest) := by
  rintro ⟨c', code', rest', heq, hmatch⟩
  cases heq
  exact h hmatch

theorem exists_first_piece (raw : List Char)
    : ∃ first pieces, (∀ text, splitCodes text raw = (text ++ first) :: pieces)
        ∧ (first = [] ↔ raw = [] ∨ StartsWithCode raw) := by
  match raw with
  | [] => exact ⟨[], [], fun text => by rw [splitCodes, List.append_nil], by simp⟩
  | [c] =>
    refine ⟨[c], [], fun text => by rw [splitCodes], ?_⟩
    constructor
    . intro h
      cases h
    . rintro (h | ⟨c', code, rest, heq, _⟩)
      . cases h
      . cases heq
  | c :: code :: rest =>
    by_cases hmatch : IsMatch c code
    . refine ⟨[], [c, code] :: splitCodes [] rest, ?_, ?_⟩
      . intro text
        rw [splitCodes_match hmatch, List.append_nil]
      . exact ⟨fun _ => Or.inr ⟨c, code, rest, rfl, hmatch⟩, fun _ => rfl⟩
    . rcases exists_first_piece (code :: rest) with ⟨first, pieces, hsplit, _⟩
      refine ⟨c :: first, pieces, ?_, ?_⟩
      . intro text
        rw [splitCodes_next hmatch, hsplit, List.append_assoc, List.singleton_append]
      . constructor
        . intro h
          cases h
        . rintro (h | h)
          . cases h
          . exact absurd h (not_startsWithCode_cons hmatch)

theorem endsWithCode_cons_cons {c code : Char} {rest : List Char} (h : ¬ IsMatch c code)
    : EndsWithCode (c :: code :: rest) ↔ EndsWithCode (code :: rest) := by
  constructor
  . rintro ⟨front, c', code', heq, hmatch⟩
    cases front with
    | nil =>
      cases heq
      exact absurd hmatch h
    | cons x front =>
      rw [List.cons_append, List.cons.injEq] at heq
      exact ⟨front, c', code', heq.2, hmatch⟩
  . rintro ⟨front, c', code', heq, hmatch⟩
    exact ⟨c :: front, c', code', by rw [heq, List.cons_append], hmatch⟩

theorem endsWithCode_match {c code : Char} {rest : List Char} (h : IsMatch c code)
    : EndsWithCode (c :: code :: rest) ↔ rest = [] ∨ EndsWithCode rest := by
  constructor
  . rintro ⟨front, c', code', heq, hmatch⟩
    match front with
    | [] =>
      cases heq
      exact Or.inl rfl
    | [x] =>
      cases heq
      have := isCode_of_isCodeStart hmatch.1
      rw [h.2] at this
      cases this
    | x :: y :: front =>
      rw [List.cons_append, List.cons_append, List.cons.injEq, List.cons.injEq] at heq
      exact Or.inr ⟨front, c', code', heq.2.2, hmatch⟩
  . rintro (rfl | ⟨front, c', code', rfl, hmatch⟩)
    . exact ⟨[], c, code, rfl, h⟩
    . exact ⟨c :: code :: front, c', code', rfl, hmatch⟩

/-- The last character of the string is not the start of a code that goes on behind it. -/
def Ends (s : List Char) : Prop :=
  ∀ c, s.getLast? = some c → isCodeStart c = false

theorem EndsWithCode.ends {s : List Char} (h : EndsWithCode s) : Ends s := by
  rcases h with ⟨front, c, code, rfl, hmatch⟩
  have hlast : (front ++ [c, code]).getLast? = some code := by simp
  intro x hx
  rw [hlast, Option.some.injEq] at hx
  subst hx
  rw [← Bool.not_eq_true]
  intro hstart
  have := isCode_of_isCodeStart hstart
  rw [hmatch.2] at this
  cases this

/-- No match starts in the first string and goes on in the second. -/
def NoMatchAcross (s t : List Char) : Prop :=
  ∀ c code, s.getLast? = some c → t.head? = some code → ¬ IsMatch c code

theorem Ends.noMatchAcross {s : List Char} (h : Ends s) (t : List Char) : NoMatchAcross s t := by
  intro c code hc _ hmatch
  have hstart := h c hc
  rw [hmatch.1] at hstart
  cases hstart

theorem not_endsWithCode_of_length {s : List Char} (h : s.length < 2) : ¬ EndsWithCode s := by
  rintro ⟨front, c, code, rfl, _⟩
  rw [List.length_append, List.length_cons, List.length_cons] at h
  omega

structure LastPiece (text raw : List Char) (pieces : List (List Char)) (last : List Char)
    : Prop where
  splitCodes_eq : splitCodes text raw = pieces ++ [last]
  splitCodes_append : ∀ t, NoMatchAcross raw t →
    splitCodes text (raw ++ t) = pieces ++ splitCodes last t
  eq_nil_iff : last = [] ↔ (text = [] ∧ raw = []) ∨ EndsWithCode raw
  getLast?_eq : last ≠ [] → raw ≠ [] → last.getLast? = raw.getLast?

namespace LastPiece

theorem nil (text : List Char) : LastPiece text [] [] text where
  splitCodes_eq := rfl
  splitCodes_append := fun _ _ => rfl
  eq_nil_iff := by simp [not_endsWithCode_of_length]
  getLast?_eq := fun _ h => absurd rfl h

theorem singleton (text : List Char) (c : Char) : LastPiece text [c] [] (text ++ [c]) where
  splitCodes_eq := rfl
  splitCodes_append := by
    intro t hacross
    cases t with
    | nil => rfl
    | cons code t =>
      rw [List.singleton_append, splitCodes_next (hacross c code rfl rfl)]
      rfl
  eq_nil_iff := by simp [not_endsWithCode_of_length]
  getLast?_eq := by
    intro _ _
    rw [List.getLast?_concat]
    rfl

variable {text rest last : List Char} {pieces : List (List Char)} {c code : Char}

theorem cons_match (hmatch : IsMatch c code) (h : LastPiece [] rest pieces last)
    : LastPiece text (c :: code :: rest) (text :: [c, code] :: pieces) last where
  splitCodes_eq := by
    rw [splitCodes_match hmatch, h.splitCodes_eq]
    rfl
  splitCodes_append := by
    intro t hacross
    have hrest : NoMatchAcross rest t := by
      intro x y hx
      apply hacross x y
      rw [List.getLast?_cons, List.getLast?_cons, hx]
      rfl
    rw [List.cons_append, List.cons_append, splitCodes_match hmatch, h.splitCodes_append t hrest]
    rfl
  eq_nil_iff := by
    rw [h.eq_nil_iff, endsWithCode_match hmatch]
    simp
  getLast?_eq := by
    intro hne _
    have hrest : rest ≠ [] := by
      rintro rfl
      exact hne (h.eq_nil_iff.mpr (Or.inl ⟨rfl, rfl⟩))
    rw [h.getLast?_eq hne hrest, List.getLast?_cons_of_ne_nil (List.cons_ne_nil code rest),
      List.getLast?_cons_of_ne_nil hrest]

theorem cons_next (hmatch : ¬ IsMatch c code)
    (h : LastPiece (text ++ [c]) (code :: rest) pieces last)
    : LastPiece text (c :: code :: rest) pieces last where
  splitCodes_eq := by rw [splitCodes_next hmatch, h.splitCodes_eq]
  splitCodes_append := by
    intro t hacross
    rw [List.cons_append, List.cons_append, splitCodes_next hmatch, ← List.cons_append]
    apply h.splitCodes_append
    intro x y hx
    apply hacross x y
    rwa [List.getLast?_cons_of_ne_nil (List.cons_ne_nil code rest)]
  eq_nil_iff := by
    rw [h.eq_nil_iff, endsWithCode_cons_cons hmatch]
    simp
  getLast?_eq := by
    intro hne _
    rw [h.getLast?_eq hne (List.cons_ne_nil code rest),
      List.getLast?_cons_of_ne_nil (List.cons_ne_nil code rest)]

end LastPiece

theorem exists_lastPiece (text raw : List Char)
    : ∃ pieces last, LastPiece text raw pieces last := by
  fun_induction splitCodes text raw with
  | case1 text => exact ⟨_, _, .nil text⟩
  | case2 text c => exact ⟨_, _, .singleton text c⟩
  | case3 text c code rest h ih =>
    rcases ih with ⟨pieces, last, hlast⟩
    exact ⟨_, _, hlast.cons_match h⟩
  | case4 text c code rest h ih =>
    rcases ih with ⟨pieces, last, hlast⟩
    exact ⟨_, _, hlast.cons_next h⟩

end Motd

end Python

end McStatus
