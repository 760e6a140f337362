import Mathlib.Data.List.TakeWhile
import McStatus.Library.Text

/-!
This module contains text that ends at the first NUL of a byte sequence.
-/

namespace McStatus

/-- The bytes in front of the first NUL, or all of them if there is none. -/
def nulText (s : List UInt8) : List UInt8 :=
  s.takeWhile (· != 0)

theorem take_findIdx_eq_nulText (s : List UInt8) : s.take (s.findIdx (· == 0)) = nulText s := by
  have hnot : (fun b : UInt8 => !(b != 0)) = (· == 0) := by
    funext b
    simp [bne]
  rw [nulText, List.takeWhile_eq_take_findIdx_not, hnot]

theorem nulText_append {t : List UInt8} (h : 0 ∉ t) (r : List UInt8)
    : nulText (t ++ 0 :: r) = t := by
  have hall : ∀ b ∈ t, (b != 0) = true := by
    intro b hb
    have : b ≠ 0 := fun h0 => h (h0 ▸ hb)
    simp [this]
  rw [nulText, List.takeWhile_append_of_pos hall]
  simp

theorem nulText_cases (s : List UInt8)
    : s = nulText s ∨ ∃ r, s = nulText s ++ 0 :: r := by
  have happ := List.takeWhile_append_dropWhile (p := (· != (0 : UInt8))) (l := s)
  cases hd : s.dropWhile (· != 0) with
  | nil =>
    rw [hd] at happ
    exact Or.inl (by simpa [nulText] using happ.symm)
  | cons b r =>
    have hb : b = 0 := by
      have := List.head?_dropWhile_not (· != (0 : UInt8)) s
      simpa [hd] using this
    rw [hd, hb] at happ
    exact Or.inr ⟨r, happ.symm⟩

theorem length_nulText_le (s : List UInt8) : (nulText s).length ≤ s.length :=
  (List.takeWhile_prefix _).length_le

@[simp]
theorem nulText_nil : nulText [] = [] := rfl

@[simp]
theorem nulText_zero (r : List UInt8) : nulText (0 :: r) = [] := rfl

theorem nulText_eq_nil {s : List UInt8} : nulText s = [] ↔ s = [] ∨ ∃ r, s = 0 :: r := by
  constructor
  . intro h
    have := nulText_cases s
    simpa [h] using this
  . intro h
    rcases h with rfl | ⟨r, rfl⟩
    . rfl
    . rfl

/-- How far the UTF-8 length of `text` and its NUL reach, when `text` is read as ISO-8859-1. -/
def advance (text : List UInt8) : Nat :=
  utf8Len (Latin1.decode text) + 1

theorem length_lt_advance (text : List UInt8) : text.length < advance text := by
  have := length_le_utf8Len (Latin1.decode text)
  simp only [Latin1.length_decode] at this
  simp only [advance]
  omega

theorem advance_eq_iff {text : List UInt8}
    : advance text = text.length + 1 ↔ ∀ b ∈ text, b < 0x80 := by
  have hcount : text.countP (0x80 ≤ ·) = 0 ↔ ∀ b ∈ text, b < 0x80 := by
    simp [List.countP_eq_zero]
  rw [← hcount, advance, Latin1.utf8Len_decode]
  omega

end McStatus
