import McStatus.Library.Loop
import McStatus.Python.Motd.Transformers

/-!
This module contains when the transformers to HTML and to ANSI return a string: a color that is not
in the table of the edition raises a `KeyError`, and nothing else is raised.
-/

namespace McStatus

open Fallible

namespace Python

def MinecraftColor.bedrockOnly (c : MinecraftColor) : Bool :=
  match c with
  | minecoinGold | materialQuartz | materialIron | materialNetherite | materialRedstone
  | materialCopper | materialGold | materialEmerald | materialDiamond | materialLapis
  | materialAmethyst | materialResin => true
  | _ => false

def Unknown (bedrock : Bool) (c : MinecraftColor) : Prop :=
  bedrock = false ∧ c.bedrockOnly = true

instance (bedrock : Bool) (c : MinecraftColor) : Decidable (Unknown bedrock c) :=
  inferInstanceAs (Decidable (bedrock = false ∧ c.bedrockOnly = true))

theorem lookupColor_of_unknown {bedrock : Bool} {c : MinecraftColor} (h : Unknown bedrock c)
    : lookupColor bedrock c = .error (.keyError c.name) := by
  rcases h with ⟨rfl, hc⟩
  cases c <;> first | rfl | cases hc

theorem lookupColor_of_not_unknown {bedrock : Bool} {c : MinecraftColor} (h : ¬ Unknown bedrock c)
    : ∃ colors, lookupColor bedrock c = .ok colors := by
  cases bedrock <;> cases c <;> first | exact ⟨_, rfl⟩ | exact absurd ⟨rfl, rfl⟩ h

def IsOk {α : Type} (x : Except Exception α) : Prop :=
  ∃ a, x = .ok a

theorem isOk_bind {α β : Type} {x : Except Exception α} {f : α → Except Exception β}
    (hf : ∀ a, IsOk (f a)) : IsOk (x >>= f) ↔ IsOk x := by
  cases x with
  | error e => exact ⟨fun ⟨_, h⟩ => (by cases h), fun ⟨_, h⟩ => (by cases h)⟩
  | ok a => exact ⟨fun _ => ⟨a, rfl⟩, fun _ => hf a⟩

theorem isOk_lookupColor (bedrock : Bool) (c : MinecraftColor)
    : IsOk (lookupColor bedrock c) ↔ ¬ Unknown bedrock c := by
  constructor
  . rintro ⟨colors, hok⟩ hunknown
    rw [lookupColor_of_unknown hunknown] at hok
    cases hok
  . exact lookupColor_of_not_unknown

def HasUnknown (bedrock : Bool) (l : List ParsedMotdComponent) : Prop :=
  ∃ c, .minecraftColor c ∈ l ∧ Unknown bedrock c

theorem hasUnknown_append {bedrock : Bool} {l r : List ParsedMotdComponent}
    : HasUnknown bedrock (l ++ r) ↔ HasUnknown bedrock l ∨ HasUnknown bedrock r := by
  simp only [HasUnknown, List.mem_append, or_and_right, exists_or]

theorem hasUnknown_cons {bedrock : Bool} {component : ParsedMotdComponent}
    {l : List ParsedMotdComponent}
    : HasUnknown bedrock (component :: l) ↔ HasUnknown bedrock [component] ∨ HasUnknown bedrock l :=
  hasUnknown_append (l := [component])

theorem hasUnknown_flatten {bedrock : Bool} {ls : List (List ParsedMotdComponent)}
    : HasUnknown bedrock ls.flatten ↔ ∃ l ∈ ls, HasUnknown bedrock l := by
  constructor
  . rintro ⟨c, hmem, hc⟩
    rcases List.mem_flatten.mp hmem with ⟨l, hl, hmem⟩
    exact ⟨l, hl, c, hmem, hc⟩
  . rintro ⟨l, hl, c, hmem, hc⟩
    exact ⟨c, List.mem_flatten.mpr ⟨l, hl, hmem⟩, hc⟩

theorem not_hasUnknown_singleton {bedrock : Bool} {component : ParsedMotdComponent}
    (h : ∀ c, component ≠ .minecraftColor c) : ¬ HasUnknown bedrock [component] := by
  rintro ⟨c, hmem, _⟩
  exact h c (List.mem_singleton.mp hmem).symm

theorem not_hasUnknown_formatting (bedrock : Bool) (f : Formatting)
    : ¬ HasUnknown bedrock [.formatting f] :=
  not_hasUnknown_singleton fun _ => nofun

theorem not_hasUnknown_translationTag (bedrock : Bool) (id : Option (List Char))
    : ¬ HasUnknown bedrock [.translationTag id] :=
  not_hasUnknown_singleton fun _ => nofun

theorem hasUnknown_minecraftColor {bedrock : Bool} {c : MinecraftColor}
    : HasUnknown bedrock [.minecraftColor c] ↔ Unknown bedrock c := by
  constructor
  . rintro ⟨c', hmem, hc⟩
    rw [List.mem_singleton, ParsedMotdComponent.minecraftColor.injEq] at hmem
    rwa [hmem] at hc
  . intro hc
    exact ⟨c, List.mem_singleton.mpr rfl, hc⟩

namespace Transformer

variable {σ : Type}

def RaisesAtUnknown (t : Transformer σ) (bedrock : Bool) : Prop :=
  ∀ component s, IsOk (t.handleComponent component s) ↔ ¬ HasUnknown bedrock [component]

theorem RaisesAtUnknown.handleComponents {t : Transformer σ} {bedrock : Bool}
    (h : t.RaisesAtUnknown bedrock) (l : List ParsedMotdComponent) (s : σ)
    : IsOk (t.handleComponents l s) ↔ ¬ HasUnknown bedrock l := by
  induction l generalizing s with
  | nil =>
    constructor
    . rintro _ ⟨c, hmem, _⟩
      exact List.not_mem_nil hmem
    . intro _
      exact ⟨_, rfl⟩
  | cons component l ih =>
    rw [hasUnknown_cons, not_or, ← h component s]
    unfold Transformer.handleComponents
    cases hfirst : t.handleComponent component s with
    | error e =>
      constructor
      . rintro ⟨r, hr⟩
        cases hr
      . rintro ⟨⟨r, hr⟩, _⟩
        cases hr
    | ok handled =>
      rw [ok_bind]
      have hrest : IsOk (t.handleComponents l handled.2) ↔ ¬ HasUnknown bedrock l := ih handled.2
      have hfinish := isOk_bind (x := t.handleComponents l handled.2)
        (f := fun results => .ok (handled.1 ++ results.1, results.2)) fun results => ⟨_, rfl⟩
      constructor
      . intro hok
        exact ⟨⟨handled, rfl⟩, hrest.mp (hfinish.mp hok)⟩
      . rintro ⟨_, hl⟩
        exact hfinish.mpr (hrest.mpr hl)

theorem RaisesAtUnknown.transform {t : Transformer σ} {bedrock : Bool}
    (h : t.RaisesAtUnknown bedrock) (l : List ParsedMotdComponent)
    : IsOk (t.transform l) ↔ ¬ HasUnknown bedrock l := by
  rw [← h.handleComponents l t.start]
  exact isOk_bind fun results => ⟨_, rfl⟩

theorem raisesAtUnknown_of_lookups {t : Transformer σ} {bedrock : Bool}
    (hcolor : ∀ c s, IsOk (t.handleComponent (.minecraftColor c) s) ↔ IsOk (lookupColor bedrock c))
    (hother : ∀ component s, (∀ c, component ≠ .minecraftColor c) →
      IsOk (t.handleComponent component s))
    : t.RaisesAtUnknown bedrock := by
  intro component s
  by_cases h : ∃ c, component = .minecraftColor c
  . rcases h with ⟨c, rfl⟩
    rw [hasUnknown_minecraftColor, ← isOk_lookupColor]
    exact hcolor c s
  . have hne : ∀ c, component ≠ .minecraftColor c := fun c hc => h ⟨c, hc⟩
    exact ⟨fun _ => not_hasUnknown_singleton hne, fun _ => hother component s hne⟩

end Transformer

theorem raisesAtUnknown_htmlTransformer (bedrock : Bool)
    : (htmlTransformer bedrock).RaisesAtUnknown bedrock := by
  apply Transformer.raisesAtUnknown_of_lookups
  . intro c on_reset
    apply Iff.trans (isOk_bind fun handled => ⟨_, rfl⟩)
    exact isOk_bind fun colors => ⟨_, rfl⟩
  . intro component on_reset hne
    cases component with
    | minecraftColor c => exact absurd rfl (hne c)
    | formatting f => cases f <;> exact ⟨_, rfl⟩
    | webColor c => exact ⟨_, rfl⟩
    | translationTag id => exact ⟨_, rfl⟩
    | str s => exact ⟨_, rfl⟩

theorem raisesAtUnknown_ansiTransformer (bedrock : Bool)
    : (ansiTransformer bedrock).RaisesAtUnknown bedrock := by
  apply Transformer.raisesAtUnknown_of_lookups
  . intro c s
    apply Iff.trans (isOk_bind fun handled => ⟨_, rfl⟩)
    apply Iff.trans (isOk_bind fun handled => ⟨_, rfl⟩)
    exact isOk_bind fun colors => ⟨_, rfl⟩
  . intro component s hne
    cases component with
    | minecraftColor c => exact absurd rfl (hne c)
    | formatting f => cases f <;> exact ⟨_, rfl⟩
    | webColor c => exact ⟨_, rfl⟩
    | translationTag id => exact ⟨_, rfl⟩
    | str s => exact ⟨_, rfl⟩

end Python

end McStatus
