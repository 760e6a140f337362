import Mathlib.Data.Finset.Lattice.Lemmas
import McStatus.Python.Motd.Events

/-!
This module shows for which dict MOTDs the parsed list displays every text with its own
formattings.
-/

namespace McStatus

namespace Python

namespace Motd

def tags : Display ParsedMotdComponent (Finset Formatting) Char where
  apply formattings c :=
    match c with
    | .formatting .reset => ∅
    | .formatting f => insert f formattings
    | .minecraftColor _ => ∅
    | _ => formattings
  shows := display.shows

theorem render_tags (s : Style) (parsed : List ParsedMotdComponent)
    : (display.render s parsed).map (fun x => (x.1, x.2.formattings))
        = tags.render s.formattings parsed := by
  apply Display.render_map
  . intro s c
    cases c with
    | formatting f => cases f <;> rfl
    | _ => rfl
  . rfl

section Text

theorem flatten_splitCodes (text raw : List Char)
    : (splitCodes text raw).flatten = text ++ raw := by
  fun_induction splitCodes text raw with
  | case1 text => simp
  | case2 text c => simp
  | case3 text c code rest h ih => simp [ih]
  | case4 text c code rest h ih => simp [ih]

theorem eq_of_parseElement {bedrock : Bool} {element s : List Char}
    (h : parseElement bedrock element = .str s) : s = element := by
  unfold parseElement at h
  dsimp only at h
  repeat' split at h
  all_goals simp at h
  all_goals exact h.symm

theorem render_str (F : Finset Formatting) (pieces : List (List Char))
    : tags.render F (pieces.map .str) = pieces.flatten.map (fun x => (x, F))
        ∧ tags.final F (pieces.map .str) = F := by
  induction pieces with
  | nil => exact ⟨rfl, rfl⟩
  | cons piece pieces ih =>
    rw [List.map_cons, List.flatten_cons, List.map_append, ← ih.1]
    exact ⟨rfl, ih.2⟩

theorem render_parseAsStr {text : List Char} {bedrock : Bool} (h : FreeOfCodes text bedrock)
    (F : Finset Formatting)
    : tags.render F (parseAsStr text bedrock) = text.map (fun x => (x, F))
        ∧ tags.final F (parseAsStr text bedrock) = F := by
  have hpieces : parseAsStr text bedrock
      = ((splitCodes [] text).filter fun element => !element.isEmpty).map .str := by
    apply List.map_congr_left
    intro element hmem
    rcases h _ (List.mem_map_of_mem hmem) with ⟨s, hs⟩
    rw [hs, eq_of_parseElement hs]
  have hflatten : ((splitCodes [] text).filter fun element => !element.isEmpty).flatten = text := by
    rw [List.flatten_filter_not_isEmpty, flatten_splitCodes, List.nil_append]
  have := render_str F ((splitCodes [] text).filter fun element => !element.isEmpty)
  rw [hpieces, this.1, this.2, hflatten]
  exact ⟨rfl, rfl⟩

end Text

section Styled

/-- What a dict sets is appended to the list, also when it is no boolean. -/
def adds (f : Formatting) (item : Dict) : Bool :=
  match item.get f.key with
  | none | some .none | some (.bool false) => false
  | some _ => true

theorem addStyle_cases (item : Dict) (f : Formatting)
    : (ownFlag f item = some false ∧ adds f item = false
          ∧ ∀ parsed, addStyle item parsed f = parsed.erase (.formatting f))
        ∨ (ownFlag f item ≠ some false ∧ adds f item = false
          ∧ ∀ parsed, addStyle item parsed f = parsed)
        ∨ (ownFlag f item ≠ some false ∧ adds f item = true
          ∧ ∀ parsed, addStyle item parsed f = parsed ++ [.formatting f]) := by
  unfold ownFlag adds addStyle
  cases item.get f.key with
  | none => exact Or.inr (Or.inl ⟨by simp, rfl, fun _ => rfl⟩)
  | some v =>
    cases v with
    | none => exact Or.inr (Or.inl ⟨by simp, rfl, fun _ => rfl⟩)
    | bool b =>
      cases b with
      | false => exact Or.inl ⟨rfl, rfl, fun _ => rfl⟩
      | true => exact Or.inr (Or.inr ⟨by simp, rfl, fun _ => rfl⟩)
    | _ => exact Or.inr (Or.inr ⟨by simp, rfl, fun _ => rfl⟩)

theorem parseColor_cases {name : List Char} {c : ParsedMotdComponent} (h : parseColor name = .ok c)
    : (∃ color, c = .minecraftColor color) ∨ (∃ color, c = .webColor color)
        ∨ c = .formatting .reset := by
  unfold parseColor at h
  split at h
  . rw [Except.ok.injEq] at h
    exact Or.inl ⟨_, h.symm⟩
  . split at h
    . rw [Except.ok.injEq] at h
      exact Or.inr (Or.inr h.symm)
    . split at h
      . rw [Except.ok.injEq] at h
        exact Or.inr (Or.inl ⟨_, h.symm⟩)
      . simp at h

theorem ownColor_cases (item : Dict)
    : ownColor item = [] ∨ (∃ c, ownColor item = [.minecraftColor c])
        ∨ (∃ c, ownColor item = [.webColor c]) ∨ ownColor item = [.formatting .reset] := by
  unfold ownColor
  split
  . next color hcolor =>
    unfold addColor at hcolor
    split at hcolor
    . rw [Except.ok.injEq] at hcolor
      exact Or.inl hcolor.symm
    . rw [Except.ok.injEq] at hcolor
      exact Or.inl hcolor.symm
    . rcases Fallible.bind_eq_ok.mp hcolor with ⟨c, hc, hcolor⟩
      rw [Fallible.pure_eq_ok, List.nil_append, Except.ok.injEq] at hcolor
      rw [← hcolor]
      rcases parseColor_cases hc with ⟨color, rfl⟩ | ⟨color, rfl⟩ | rfl
      . exact Or.inr (Or.inl ⟨color, rfl⟩)
      . exact Or.inr (Or.inr (Or.inl ⟨color, rfl⟩))
      . exact Or.inr (Or.inr (Or.inr rfl))
    . simp at hcolor
  . exact Or.inl rfl

theorem not_mem_ownColor {item : Dict} {f : Formatting} (h : f ≠ .reset)
    : .formatting f ∉ ownColor item := by
  rcases ownColor_cases item with hc | ⟨c, hc⟩ | ⟨c, hc⟩ | hc
  all_goals rw [hc]
  all_goals simp [h]

structure Styled (item : Dict) (auto_add : List ParsedMotdComponent) (done : List Formatting)
    (parsed front color : List ParsedMotdComponent) : Prop where
  parsed_eq : parsed = front ++ (color ++ (done.filter (adds · item)).map .formatting)
  isAutoAdd_front : ∀ e ∈ front, isAutoAdd e = true
  color_eq : color = if .reset ∈ done ∧ ownFlag .reset item = some false then
      (ownColor item).erase (.formatting .reset) else ownColor item
  count_front : ∀ f, f ≠ .reset →
    front.count (.formatting f) = if f ∈ done ∧ ownFlag f item = some false then
      auto_add.count (.formatting f) - 1 else auto_add.count (.formatting f)

theorem styled_nil {item : Dict} {auto_add : List ParsedMotdComponent}
    (h : ∀ e ∈ auto_add, isAutoAdd e = true)
    : Styled item auto_add [] (auto_add ++ ownColor item) auto_add (ownColor item) :=
  { parsed_eq := by simp, isAutoAdd_front := h, color_eq := by simp, count_front := by simp }

variable {item : Dict} {auto_add parsed front color : List ParsedMotdComponent}
variable {done : List Formatting} {f : Formatting}

theorem Styled.not_mem_color (h : Styled item auto_add done parsed front color)
    (hf : f ≠ .reset) : .formatting f ∉ color := by
  intro hmem
  apply @not_mem_ownColor item f hf
  have hcolor := h.color_eq
  split at hcolor
  . rw [hcolor] at hmem
    exact List.mem_of_mem_erase hmem
  . rw [hcolor] at hmem
    exact hmem

theorem Styled.reset_not_mem_front (h : Styled item auto_add done parsed front color)
    : .formatting .reset ∉ front := by
  intro hmem
  have := h.isAutoAdd_front _ hmem
  simp [isAutoAdd] at this

theorem not_mem_filter_map (hf : f ∉ done)
    : ParsedMotdComponent.formatting f ∉ (done.filter (adds · item)).map .formatting := by
  intro hmem
  rcases List.mem_map.mp hmem with ⟨g, hg, heq⟩
  rw [ParsedMotdComponent.formatting.injEq] at heq
  rw [heq, List.mem_filter] at hg
  exact hf hg.1

theorem Styled.filter_concat (hadds : adds f item = false)
    : (done ++ [f]).filter (adds · item) = done.filter (adds · item) := by
  rw [List.filter_append, List.filter_cons_of_neg (by simp [hadds]), List.filter_nil,
    List.append_nil]

theorem Styled.erase (h : Styled item auto_add done parsed front color) (hf : f ∉ done)
    (hne : f ≠ .reset) (hflag : ownFlag f item = some false) (hadds : adds f item = false)
    : Styled item auto_add (done ++ [f]) (parsed.erase (.formatting f))
        (front.erase (.formatting f)) color := by
  -- `remove` takes the first copy, and only the inherited ones are copies of `f`
  have hrest : .formatting f ∉ color ++ (done.filter (adds · item)).map .formatting := by
    rw [List.mem_append, not_or]
    exact ⟨h.not_mem_color hne, not_mem_filter_map hf⟩
  refine { parsed_eq := ?_, isAutoAdd_front := ?_, color_eq := ?_, count_front := ?_ }
  . rw [filter_concat hadds, h.parsed_eq]
    by_cases hmem : .formatting f ∈ front
    . rw [List.erase_append_left _ hmem]
    . rw [List.erase_append_right _ hmem, List.erase_of_not_mem hrest, List.erase_of_not_mem hmem]
  . intro e he
    exact h.isAutoAdd_front e (List.mem_of_mem_erase he)
  . have hreset : .reset ∈ done ++ [f] ↔ .reset ∈ done := by
      simp [Ne.symm hne]
    simp only [hreset]
    exact h.color_eq
  . intro g hg
    by_cases hfg : g = f
    . subst hfg
      rw [List.count_erase_self, h.count_front g hg, if_neg (fun hmem => hf hmem.1),
        if_pos ⟨by simp, hflag⟩]
    . have hmem : g ∈ done ++ [f] ↔ g ∈ done := by
        simp [hfg]
      rw [List.count_erase_of_ne (by simpa using hfg), h.count_front g hg]
      simp only [hmem]

theorem Styled.eraseReset (h : Styled item auto_add done parsed front color)
    (hf : .reset ∉ done) (hflag : ownFlag .reset item = some false)
    (hadds : adds .reset item = false)
    : Styled item auto_add (done ++ [.reset]) (parsed.erase (.formatting .reset)) front
        (color.erase (.formatting .reset)) := by
  have hcolor : color = ownColor item := by
    rw [h.color_eq, if_neg fun hmem => hf hmem.1]
  refine {
    parsed_eq := ?_
    isAutoAdd_front := h.isAutoAdd_front
    color_eq := ?_
    count_front := ?_
  }
  . rw [filter_concat hadds, h.parsed_eq, List.erase_append_right _ h.reset_not_mem_front]
    by_cases hmem : .formatting .reset ∈ color
    . rw [List.erase_append_left _ hmem]
    . rw [List.erase_append_right _ hmem, List.erase_of_not_mem (not_mem_filter_map hf),
        List.erase_of_not_mem hmem]
  . rw [hcolor, if_pos ⟨by simp, hflag⟩]
  . intro g hg
    have hmem : g ∈ done ++ [.reset] ↔ g ∈ done := by
      simp [hg]
    rw [h.count_front g hg]
    simp only [hmem]

theorem Styled.keep (h : Styled item auto_add done parsed front color)
    (hflag : ownFlag f item ≠ some false) {parsed' : List ParsedMotdComponent}
    (hparsed : parsed' = front ++ (color ++ ((done ++ [f]).filter (adds · item)).map .formatting))
    : Styled item auto_add (done ++ [f]) parsed' front color := by
  refine {
    parsed_eq := hparsed
    isAutoAdd_front := h.isAutoAdd_front
    color_eq := ?_
    count_front := ?_
  }
  . have hmem : (.reset ∈ done ++ [f] ∧ ownFlag .reset item = some false)
        ↔ (.reset ∈ done ∧ ownFlag .reset item = some false) := by
      rw [List.mem_append, List.mem_singleton]
      constructor
      . rintro ⟨hdone | rfl, hreset⟩
        . exact ⟨hdone, hreset⟩
        . exact absurd hreset hflag
      . rintro ⟨hdone, hreset⟩
        exact ⟨Or.inl hdone, hreset⟩
    simp only [hmem]
    exact h.color_eq
  . intro g hg
    have hmem : (g ∈ done ++ [f] ∧ ownFlag g item = some false)
        ↔ (g ∈ done ∧ ownFlag g item = some false) := by
      rw [List.mem_append, List.mem_singleton]
      constructor
      . rintro ⟨hdone | rfl, hfalse⟩
        . exact ⟨hdone, hfalse⟩
        . exact absurd hfalse hflag
      . rintro ⟨hdone, hfalse⟩
        exact ⟨Or.inl hdone, hfalse⟩
    simp only [hmem]
    exact h.count_front g hg

theorem Styled.step (h : Styled item auto_add done parsed front color) (hf : f ∉ done)
    : ∃ front' color', Styled item auto_add (done ++ [f]) (addStyle item parsed f)
        front' color' := by
  rcases addStyle_cases item f with ⟨hflag, hadds, heq⟩ | ⟨hflag, hadds, heq⟩ | ⟨hflag, hadds, heq⟩
  . rw [heq]
    by_cases hne : f = .reset
    . subst hne
      exact ⟨_, _, h.eraseReset hf hflag hadds⟩
    . exact ⟨_, _, h.erase hf hne hflag hadds⟩
  . rw [heq]
    refine ⟨_, _, h.keep hflag ?_⟩
    rw [filter_concat hadds]
    exact h.parsed_eq
  . rw [heq]
    refine ⟨_, _, h.keep hflag ?_⟩
    rw [h.parsed_eq]
    simp [List.filter_append, hadds]

theorem Styled.foldl (h : Styled item auto_add done parsed front color) {fs : List Formatting}
    (hnodup : (done ++ fs).Nodup)
    : ∃ front' color', Styled item auto_add (done ++ fs) (fs.foldl (addStyle item) parsed)
        front' color' := by
  induction fs generalizing done parsed front color with
  | nil =>
    rw [List.append_nil]
    exact ⟨front, color, h⟩
  | cons f fs ih =>
    have hf : f ∉ done := by
      rw [List.nodup_append] at hnodup
      intro hmem
      exact hnodup.2.2 f hmem f List.mem_cons_self rfl
    rcases h.step hf with ⟨front', color', hstep⟩
    rw [List.append_cons] at hnodup ⊢
    exact ih hstep hnodup

theorem isAutoAdd_autoAdd (path : List Dict) : ∀ e ∈ autoAdd path, isAutoAdd e = true := by
  intro e he
  cases path with
  | nil => simp [autoAdd] at he
  | cons item path =>
    rw [autoAdd, List.mem_filter] at he
    exact he.2

theorem exists_styled (item : Dict) (parents : List Dict)
    : ∃ front color, Styled item (autoAdd parents) Formatting.members
        (styled item (autoAdd parents)) front color := by
  have hnil := @styled_nil item _ (isAutoAdd_autoAdd parents)
  exact hnil.foldl (by decide)

end Styled

section Reading

/--
How often a formatting is passed on to the elements of the first dict of the path: every dict that
sets it passes it on once more, and a `false` takes one of them away.
-/
def active (f : Formatting) (path : List Dict) : Nat :=
  match path with
  | [] => 0
  | item :: path =>
    if ownFlag f item = some false then
      active f path - 1
    else if adds f item then
      active f path + 1
    else
      active f path

theorem adds_of_ownFlag {f : Formatting} {item : Dict} (h : ownFlag f item = some false)
    : adds f item = false := by
  rcases addStyle_cases item f with ⟨_, hadds, _⟩ | ⟨hflag, _, _⟩ | ⟨hflag, _, _⟩
  . exact hadds
  . exact absurd h hflag
  . exact absurd h hflag

theorem count_filter_map {f : Formatting} (item : Dict) {fs : List Formatting} (hnodup : fs.Nodup)
    (hf : f ∈ fs)
    : ((fs.filter (adds · item)).map ParsedMotdComponent.formatting).count (.formatting f)
        = if adds f item then 1 else 0 := by
  have hinj : Function.Injective ParsedMotdComponent.formatting := by
    intro g g' hg
    exact ParsedMotdComponent.formatting.inj hg
  rw [List.count_map_of_injective _ _ hinj]
  split
  . next hadds =>
    exact List.count_eq_one_of_mem (hnodup.filter _) (List.mem_filter.mpr ⟨hf, hadds⟩)
  . next hadds =>
    rw [List.count_eq_zero]
    intro hmem
    exact hadds (List.mem_filter.mp hmem).2

theorem mem_members (f : Formatting) : f ∈ Formatting.members := by
  cases f <;> decide

theorem count_autoAdd {f : Formatting} (hf : f ≠ .reset) (path : List Dict)
    : (autoAdd path).count (.formatting f) = active f path := by
  induction path with
  | nil => rfl
  | cons item path ih =>
    rcases exists_styled item path with ⟨front, color, h⟩
    have hauto : isAutoAdd (.formatting f) = true := by
      simp [isAutoAdd, hf]
    rw [autoAdd, List.count_filter hauto, h.parsed_eq, List.count_append, List.count_append,
      List.count_eq_zero_of_not_mem (h.not_mem_color hf), h.count_front f hf,
      count_filter_map item (by decide) (mem_members f), ih, active]
    by_cases hflag : ownFlag f item = some false
    . rw [if_pos ⟨mem_members f, hflag⟩, if_pos hflag, adds_of_ownFlag hflag]
      simp
    . rw [if_neg fun hmem => hflag hmem.2, if_neg hflag]
      split <;> simp

def clears (item : Dict) : Bool :=
  match ownColor item with
  | [.minecraftColor _] => true
  | [.formatting .reset] => ownFlag .reset item ≠ some false
  | _ => false

theorem exists_of_isAutoAdd {e : ParsedMotdComponent} (h : isAutoAdd e = true)
    : ∃ f, e = .formatting f ∧ f ≠ .reset := by
  cases e with
  | formatting f => exact ⟨f, rfl, by simpa [isAutoAdd] using h⟩
  | _ => simp [isAutoAdd] at h

theorem tags_apply {f : Formatting} (hf : f ≠ .reset) (F : Finset Formatting)
    : tags.apply F (.formatting f) = insert f F := by
  cases f <;> first | rfl | simp at hf

theorem mem_final_autoAdd {l : List ParsedMotdComponent} (h : ∀ e ∈ l, isAutoAdd e = true)
    (f : Formatting) (F : Finset Formatting)
    : f ∈ tags.final F l ↔ f ∈ F ∨ 0 < l.count (.formatting f) := by
  induction l generalizing F with
  | nil => simp
  | cons e l ih =>
    rcases exists_of_isAutoAdd (h e List.mem_cons_self) with ⟨g, rfl, hg⟩
    rw [Display.final_cons, ih (fun e he => h e (List.mem_cons_of_mem _ he)), tags_apply hg,
      Finset.mem_insert, List.count_cons]
    by_cases hfg : f = g
    . subst hfg
      simp
    . have hne : ¬ ((ParsedMotdComponent.formatting g == .formatting f) = true) := by
        simpa using Ne.symm hfg
      rw [if_neg hne, Nat.add_zero]
      simp only [hfg, false_or]

theorem reset_not_mem_final {F : Finset Formatting} (h : .reset ∉ F)
    (l : List ParsedMotdComponent) : .reset ∉ tags.final F l := by
  induction l generalizing F with
  | nil => exact h
  | cons e l ih =>
    apply ih
    cases e with
    | formatting f => cases f <;> simp [tags, h]
    | minecraftColor c => simp [tags]
    | _ => exact h

variable {item : Dict} {auto_add parsed front color : List ParsedMotdComponent}

theorem Styled.final_color (h : Styled item auto_add Formatting.members parsed front color)
    (F : Finset Formatting)
    : tags.final F color = if clears item then ∅ else F := by
  have hcolor := h.color_eq
  unfold clears
  rcases ownColor_cases item with hc | ⟨c, hc⟩ | ⟨c, hc⟩ | hc
  . rw [hc] at hcolor ⊢
    split at hcolor <;> rw [hcolor] <;> rfl
  . rw [hc] at hcolor ⊢
    split at hcolor <;> rw [hcolor] <;> rfl
  . rw [hc] at hcolor ⊢
    split at hcolor <;> rw [hcolor] <;> rfl
  . rw [hc] at hcolor ⊢
    by_cases hflag : ownFlag .reset item = some false
    . rw [if_pos ⟨by decide, hflag⟩] at hcolor
      rw [hcolor]
      simp [hflag]
    . rw [if_neg fun hmem => hflag hmem.2] at hcolor
      rw [hcolor]
      simp [hflag, tags]

theorem mem_final_adds (item : Dict) {f : Formatting} (hf : f ≠ .reset) (F : Finset Formatting)
    : f ∈ tags.final F ((Formatting.members.filter (adds · item)).map .formatting)
        ↔ adds .reset item = false ∧ (adds f item = true ∨ f ∈ F) := by
  -- `reset` is the last member, so what it clears was set before it
  have hmembers : Formatting.members = Formatting.members.dropLast ++ [.reset] := rfl
  have hauto : ∀ e ∈ (Formatting.members.dropLast.filter (adds · item)).map
      ParsedMotdComponent.formatting, isAutoAdd e = true := by
    intro e he
    rcases List.mem_map.mp he with ⟨g, hg, rfl⟩
    have hmem := (List.mem_filter.mp hg).1
    have hne : g ≠ .reset := by
      rintro rfl
      exact absurd hmem (by decide)
    simp [isAutoAdd, hne]
  have hmem : f ∈ Formatting.members.dropLast := by
    cases f <;> first | decide | simp at hf
  rw [hmembers, List.filter_append, List.map_append, Display.final_append]
  cases hreset : adds .reset item with
  | true =>
    have hlast : [Formatting.reset].filter (adds · item) = [.reset] := by simp [hreset]
    rw [hlast]
    simp [tags]
  | false =>
    have hlast : [Formatting.reset].filter (adds · item) = [] := by simp [hreset]
    rw [hlast, List.map_nil, Display.final_nil, mem_final_autoAdd hauto,
      count_filter_map item (by decide) hmem, or_comm]
    cases adds f item <;> simp

theorem mem_final_styled {item : Dict} {parents : List Dict} {f : Formatting} (hf : f ≠ .reset)
    (F : Finset Formatting)
    : f ∈ tags.final F (styled item (autoAdd parents))
        ↔ adds .reset item = false ∧ (adds f item = true
          ∨ clears item = false ∧ (f ∈ F ∨ 0 < active f (item :: parents))) := by
  rcases exists_styled item parents with ⟨front, color, h⟩
  rw [h.parsed_eq, Display.final_append, Display.final_append, mem_final_adds item hf,
    h.final_color]
  cases hclears : clears item with
  | true => simp
  | false =>
    rw [if_neg (by simp), mem_final_autoAdd h.isAutoAdd_front, h.count_front f hf,
      count_autoAdd hf, active]
    cases hadds : adds f item with
    | true => simp
    | false =>
      have hmem := mem_members f
      simp [hmem]

theorem shows_of_mem_styled {item : Dict} {parents : List Dict} {e : ParsedMotdComponent}
    (he : e ∈ styled item (autoAdd parents)) : tags.shows e = [] := by
  rcases exists_styled item parents with ⟨front, color, h⟩
  rw [h.parsed_eq, List.mem_append, List.mem_append] at he
  rcases he with he | he | he
  . rcases exists_of_isAutoAdd (h.isAutoAdd_front e he) with ⟨f, rfl, -⟩
    rfl
  . have hmem : e ∈ ownColor item := by
      have hcolor := h.color_eq
      split at hcolor
      . rw [hcolor] at he
        exact List.mem_of_mem_erase he
      . rw [hcolor] at he
        exact he
    rcases ownColor_cases item with hc | ⟨c, hc⟩ | ⟨c, hc⟩ | hc
    all_goals rw [hc] at hmem
    . simp at hmem
    all_goals
      rw [List.mem_singleton] at hmem
      rw [hmem]
      rfl
  . rcases List.mem_map.mp he with ⟨f, -, rfl⟩
    rfl

theorem render_dict {item : Dict} {parents : List Dict} {bedrock : Bool}
    (hfree : FreeOfCodes (ownText item) bedrock) (F : Finset Formatting)
    : tags.render F (Event.emit (.dict item parents bedrock))
          = (ownText item).map (fun x => (x, tags.final F (styled item (autoAdd parents))))
        ∧ tags.final F (Event.emit (.dict item parents bedrock)) = ∅ := by
  have hsilent : ∀ e ∈ addTranslate item [] ++ [.formatting .reset], tags.shows e = [] := by
    intro e he
    rw [List.mem_append, List.mem_singleton] at he
    rcases he with he | rfl
    . unfold addTranslate at he
      split at he <;> simp at he <;> subst he <;> rfl
    . rfl
  rcases render_parseAsStr hfree (tags.final F (styled item (autoAdd parents)))
    with ⟨hrender, hfinal⟩
  constructor
  . rw [Event.emit, Display.render_append, Display.render_append, Display.final_append, hfinal,
      hrender, Display.render_of_forall_silent _ (fun e he => shows_of_mem_styled he),
      Display.render_of_forall_silent _ hsilent, List.nil_append, List.append_nil]
  . rw [Event.emit, Display.final_append, Display.final_append]
    rfl

theorem render_string {path : List Dict} {s : List Char} {bedrock : Bool}
    (hfree : FreeOfCodes s bedrock) (F : Finset Formatting)
    : tags.render F (Event.emit (.string path s bedrock))
          = s.map (fun x => (x, tags.final F (autoAdd path)))
        ∧ tags.final F (Event.emit (.string path s bedrock)) = tags.final F (autoAdd path) := by
  have hsilent : ∀ e ∈ autoAdd path, tags.shows e = [] := by
    intro e he
    rcases exists_of_isAutoAdd (isAutoAdd_autoAdd path e he) with ⟨f, rfl, -⟩
    rfl
  rcases render_parseAsStr hfree (tags.final F (autoAdd path)) with ⟨hrender, hfinal⟩
  constructor
  . rw [Event.emit, Display.render_append, hrender, Display.render_of_forall_silent _ hsilent,
      List.nil_append]
  . rw [Event.emit, Display.final_append, hfinal]

end Reading

section Right

/--
Whether `f` is right for the text of a dict, after strings in the first dicts of the paths `since`
that nothing closed. The dict must be able to set it behind its color, or not pass it on.
-/
def TextRight (since : List (List Dict)) (item : Dict) (parents : List Dict) (f : Formatting)
    : Prop :=
  if f ∈ formattingsOf (item :: parents) then
    adds .reset item = false ∧ (adds f item = true ∨ clears item = false)
  else
    adds .reset item = true ∨ (adds f item = false ∧ (clears item = true
      ∨ (active f (item :: parents) = 0 ∧ ∀ path ∈ since, active f path = 0)))

def StringRight (since : List (List Dict)) (path : List Dict) (f : Formatting) : Prop :=
  f ∈ formattingsOf path ∨ (active f path = 0 ∧ ∀ p ∈ since, active f p = 0)

def AllRight (since : List (List Dict)) (es : List Event) : Prop :=
  match es with
  | [] => True
  | .dict item parents _ :: es =>
    (ownText item ≠ [] → ∀ f, f ≠ .reset → TextRight since item parents f) ∧ AllRight [] es
  | .string path s _ :: es =>
    (s ≠ [] → ∀ f, f ≠ .reset → StringRight since path f) ∧ AllRight (path :: since) es

structure Open (since : List (List Dict)) (F : Finset Formatting) : Prop where
  reset : .reset ∉ F
  mem : ∀ f, f ≠ .reset → (f ∈ F ↔ ∃ path ∈ since, 0 < active f path)

theorem open_nil : Open [] ∅ :=
  { reset := by simp, mem := by simp }

theorem Open.cons {since : List (List Dict)} {F : Finset Formatting} (h : Open since F)
    (path : List Dict) : Open (path :: since) (tags.final F (autoAdd path)) := by
  refine { reset := reset_not_mem_final h.reset _, mem := ?_ }
  intro f hf
  rw [mem_final_autoAdd (isAutoAdd_autoAdd path), count_autoAdd hf, h.mem f hf, or_comm]
  simp only [List.mem_cons, exists_eq_or_imp]

theorem mem_formattingsOf {f : Formatting} (hf : f ≠ .reset) (path : List Dict)
    : f ∈ formattingsOf path ↔ path.findSome? (ownFlag f) = some true := by
  simp [formattingsOf, mem_members, hf]

theorem reset_not_mem_formattingsOf (path : List Dict) : .reset ∉ formattingsOf path := by
  simp [formattingsOf]

theorem active_pos {f : Formatting} {path : List Dict} (hf : f ≠ .reset)
    (h : f ∈ formattingsOf path) : 0 < active f path := by
  rw [mem_formattingsOf hf] at h
  induction path with
  | nil => simp at h
  | cons item path ih =>
    rw [List.findSome?_cons] at h
    rw [active]
    rcases addStyle_cases item f with ⟨hflag, _, _⟩ | ⟨hflag, hadds, _⟩ | ⟨hflag, hadds, _⟩
    . simp [hflag] at h
    . rw [if_neg hflag, hadds, if_neg Bool.false_ne_true]
      apply ih
      cases hown : ownFlag f item with
      | none => rwa [hown] at h
      | some b =>
        -- a boolean is either appended or taken away
        cases b with
        | false => exact absurd hown hflag
        | true =>
          unfold ownFlag at hown
          unfold adds at hadds
          split at hown <;> simp_all
    . rw [if_neg hflag, if_pos hadds]
      apply Nat.succ_pos

variable {since : List (List Dict)} {F : Finset Formatting}

theorem mem_iff_textRight (h : Open since F) (item : Dict) (parents : List Dict) {f : Formatting}
    (hf : f ≠ .reset)
    : (f ∈ tags.final F (styled item (autoAdd parents)) ↔ f ∈ formattingsOf (item :: parents))
        ↔ TextRight since item parents f := by
  unfold TextRight
  rw [mem_final_styled hf, h.mem f hf]
  split
  . next hmem =>
    have hactive := active_pos hf hmem
    simp [hmem, hactive]
  . next hmem =>
    cases adds .reset item <;> cases adds f item <;> cases clears item
    all_goals simp [hmem, and_comm]

theorem mem_iff_stringRight (h : Open since F) (path : List Dict) {f : Formatting}
    (hf : f ≠ .reset)
    : (f ∈ tags.final F (autoAdd path) ↔ f ∈ formattingsOf path) ↔ StringRight since path f := by
  unfold StringRight
  rw [(h.cons path).mem f hf]
  by_cases hmem : f ∈ formattingsOf path
  . have hactive := active_pos hf hmem
    simp [hmem, hactive]
  . simp [hmem]

theorem eq_iff_forall_mem {F G : Finset Formatting} (hF : .reset ∉ F) (hG : .reset ∉ G)
    : F = G ↔ ∀ f, f ≠ .reset → (f ∈ F ↔ f ∈ G) := by
  constructor
  . rintro rfl f _
    rfl
  . intro h
    ext f
    by_cases hf : f = .reset
    . subst hf
      simp [hF, hG]
    . exact h f hf

def Event.Free (e : Event) : Prop :=
  match e with
  | dict item _ bedrock => FreeOfCodes (ownText item) bedrock
  | string _ s bedrock => FreeOfCodes s bedrock

theorem free_of_mem_events {item : Dict} {bedrock : Bool} (h : DictMotd item bedrock)
    (path : List Dict) : ∀ e ∈ events item bedrock path, e.Free := by
  induction h generalizing path with
  | dict item bedrock _ _ hfree _ hkind hstr _ ih =>
    intro e he
    rw [events_eq, List.mem_cons, List.mem_flatMap] at he
    rcases he with rfl | ⟨element, hmem, he⟩
    . exact hfree
    . rcases hkind element hmem with ⟨s, rfl⟩ | ⟨fields, rfl⟩
      . rw [elementEvents, List.mem_singleton] at he
        rw [he]
        exact hstr s hmem
      . exact ih fields hmem _ e he

theorem render_emit_iff {es : List Event} (hfree : ∀ e ∈ es, e.Free) (h : Open since F)
    : tags.render F (es.flatMap Event.emit) = expected es ↔ AllRight since es := by
  induction es generalizing since F with
  | nil => simp [expected, AllRight]
  | cons e es ih =>
    have hfree' : ∀ e ∈ es, e.Free := fun x hx => hfree x (List.mem_cons_of_mem e hx)
    have he := hfree e List.mem_cons_self
    rw [List.flatMap_cons, Display.render_append]
    cases e with
    | dict item parents bedrock =>
      have hreset := reset_not_mem_final h.reset (styled item (autoAdd parents))
      rw [(render_dict he F).1, (render_dict he F).2, expected, AllRight, Display.append_map_iff,
        ih hfree' open_nil, eq_iff_forall_mem hreset (reset_not_mem_formattingsOf _)]
      apply and_congr_left'
      apply forall_congr'
      intro _
      apply forall_congr'
      intro f
      apply forall_congr'
      intro hf
      exact mem_iff_textRight h item parents hf
    | string path s bedrock =>
      rw [(render_string he F).1, (render_string he F).2, expected, AllRight,
        Display.append_map_iff,
        ih hfree' (h.cons path),
        eq_iff_forall_mem (h.cons path).reset (reset_not_mem_formattingsOf _)]
      apply and_congr_left'
      apply forall_congr'
      intro _
      apply forall_congr'
      intro f
      apply forall_congr'
      intro hf
      exact mem_iff_stringRight h path hf

end Right

/--
The list that `_parse_as_dict` returns displays every text with the formattings that the nearest
dicts say, exactly when they are all right.
-/
theorem parseAsDict_displays_iff {item : Dict} {bedrock : Bool} (h : DictMotd item bedrock)
    : (∃ parsed, parseAsDict item bedrock [] = .ok parsed
          ∧ (display.render Style.plain parsed).map (fun x => (x.1, x.2.formattings))
            = expected (events item bedrock []))
        ↔ AllRight [] (events item bedrock []) := by
  have hparse := parseAsDict_eq_emit h []
  rw [← render_emit_iff (free_of_mem_events h []) open_nil]
  constructor
  . rintro ⟨parsed, hrun, hrender⟩
    rw [autoAdd, hrun, Except.ok.injEq] at hparse
    rw [render_tags, hparse] at hrender
    exact hrender
  . intro hrender
    refine ⟨_, hparse, ?_⟩
    rw [render_tags]
    exact hrender

def redText : Dict :=
  [("color".toList, .str "red".toList), ("text".toList, .str "not top".toList)]

def boldTop : Dict :=
  [
    ("text".toList, .str "top".toList),
    ("bold".toList, .bool true),
    ("extra".toList, .list [.dict redText])
  ]

theorem freeOfCodes_of_eq {text : List Char} {bedrock : Bool}
    (h : parseAsStr text bedrock = [.str text]) : FreeOfCodes text bedrock := by
  intro c hc
  rw [h, List.mem_singleton] at hc
  exact ⟨text, hc⟩

theorem dictMotd_boldTop : DictMotd boldTop false := by
  apply DictMotd.dict boldTop false ⟨_, rfl⟩ ⟨_, rfl⟩ (freeOfCodes_of_eq (by decide)) ⟨_, rfl⟩
  . intro element hmem
    exact Or.inr ⟨redText, List.mem_singleton.mp hmem⟩
  . intro s hmem
    simpa using List.mem_singleton.mp hmem
  . intro fields hmem
    have heq : fields = redText := Json.dict.inj (List.mem_singleton.mp hmem)
    rw [heq]
    apply DictMotd.dict redText false ⟨_, rfl⟩ ⟨_, rfl⟩ (freeOfCodes_of_eq (by decide)) ⟨_, rfl⟩
    all_goals
      intro x hmem
      exact absurd hmem List.not_mem_nil

theorem parseAsDict_displays_boldTop
    : (∃ parsed, parseAsDict boldTop false [] = .ok parsed
          ∧ (display.render Style.plain parsed).map (fun x => (x.1, x.2.formattings))
            = expected (events boldTop false []))
        ↔ AllRight [] (events boldTop false []) :=
  parseAsDict_displays_iff dictMotd_boldTop

/-- The color of the red text is behind the formatting it inherits, and clears it. -/
theorem parseAsDict_boldTop
    : parseAsDict boldTop false []
          = .ok [
              .formatting .bold, .str "top".toList, .formatting .reset,
              .formatting .bold, .minecraftColor .red, .str "not top".toList, .formatting .reset
            ]
        ∧ ¬ ∀ item bedrock, DictMotd item bedrock →
          ∃ parsed, parseAsDict item bedrock [] = .ok parsed
            ∧ (display.render Style.plain parsed).map (fun x => (x.1, x.2.formattings))
              = expected (events item bedrock []) := by
  have hparse : parseAsDict boldTop false []
      = .ok [
          .formatting .bold, .str "top".toList, .formatting .reset,
          .formatting .bold, .minecraftColor .red, .str "not top".toList, .formatting .reset
        ] := by
    decide +kernel
  refine ⟨hparse, fun h => ?_⟩
  rcases h boldTop false dictMotd_boldTop with ⟨parsed, hrun, hrender⟩
  rw [hparse, Except.ok.injEq] at hrun
  subst hrun
  revert hrender
  decide +kernel

end Motd

end Python

end McStatus
