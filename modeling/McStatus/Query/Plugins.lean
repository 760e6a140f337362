import McStatus.Library.Split
import McStatus.Query.Wire

/-!
This module contains the value of the key `plugins`: the brand of the server, a colon, and the names
of the plugins with semicolons between them.
-/

namespace McStatus

namespace Query

/-- The ASCII characters that Python strips off a string, which are more than Rust trims. -/
def isSpace (c : Char) : Bool :=
  (0x09 ≤ c.toNat && c.toNat ≤ 0x0D) || (0x1C ≤ c.toNat && c.toNat ≤ 0x20)

theorem sendable_of_all {s : List Char} (h : s.all (fun c => 1 ≤ c.toNat && c.toNat < 0x80) = true)
    : Sendable s := by
  intro c hc
  have hrange := List.all_eq_true.mp h c hc
  simpa using hrange

/-- A brand or a name, in a place that ends at `sep`. -/
structure Word (sep : Char) where
  chars : List Char
  ne_nil : chars ≠ []
  sendable : Sendable chars
  sep_free : sep ∉ chars
  head : ∀ c ∈ chars.head?, isSpace c = false
  last : ∀ c ∈ chars.getLast?, isSpace c = false

/-- The brand alone, or the brand and the names of the plugins. -/
def pluginsLine (brand : Word ':') (plugins : List (Word ';')) : List Char :=
  if plugins = [] then
    brand.chars
  else
    brand.chars ++ ':' :: ' ' :: [';', ' '].intercalate (plugins.map Word.chars)

theorem sendable_pluginsLine (brand : Word ':') (plugins : List (Word ';'))
    : Sendable (pluginsLine brand plugins) := by
  unfold pluginsLine
  split
  . exact brand.sendable
  . have hnames : Sendable ([';', ' '].intercalate (plugins.map Word.chars)) := by
      refine forall_mem_intercalate (sendable_of_all (by decide)) fun part hpart => ?_
      rcases List.mem_map.mp hpart with ⟨w, _, rfl⟩
      exact w.sendable
    rw [Sendable, List.forall_mem_append, List.forall_mem_cons, List.forall_mem_cons]
    exact ⟨brand.sendable, by decide, by decide, hnames⟩

theorem Word.strip_chars {sep : Char} (w : Word sep) {p : Char → Bool}
    (hp : ∀ c, c.toNat < 0x80 → p c = true → isSpace c = true) : strip p w.chars = w.chars := by
  have hno (c : Char) (hmem : c ∈ w.chars) (hspace : isSpace c = false) : p c = false := by
    rw [← Bool.not_eq_true]
    intro hc
    rw [hp c (w.sendable c hmem).2 hc] at hspace
    cases hspace
  apply strip_eq_self
  . exact fun c hc => hno c (List.mem_of_head? hc) (w.head c hc)
  . exact fun c hc => hno c (List.mem_of_getLast? hc) (w.last c hc)

theorem map_strip_splitOn (plugins : List (Word ';')) (hne : plugins ≠ []) {p : Char → Bool}
    (hp : ∀ c, c.toNat < 0x80 → p c = true → isSpace c = true) (hblank : p ' ' = true)
    : ((' ' :: [';', ' '].intercalate (plugins.map Word.chars)).splitOn ';').map (strip p)
        = plugins.map Word.chars := by
  have hchars : plugins.map Word.chars ≠ [] := by simpa using hne
  have hjoin := @append_intercalate_append Char ';' [' '] _ hchars
  rw [List.singleton_append] at hjoin
  rw [hjoin, List.splitOn_intercalate, List.map_map, List.map_map]
  . apply List.map_congr_left
    intro w _
    rw [Function.comp_apply, Function.comp_apply, strip_append_of_forall, w.strip_chars hp]
    simpa using hblank
  . intro part hpart
    rcases List.mem_map.mp hpart with ⟨chars, hchars, rfl⟩
    rcases List.mem_map.mp hchars with ⟨w, _, rfl⟩
    simpa using w.sep_free
  . simpa using hne

end Query

end McStatus
