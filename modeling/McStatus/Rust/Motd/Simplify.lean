import Mathlib.Data.List.DropRight
import McStatus.Library.Sweep
import McStatus.Rust.Motd.Components

/-!
This module contains the passes of `src/motd/simplify.rs`.
-/

namespace McStatus

namespace Rust

def isDouble (a b : MotdComponent) : Bool :=
  match a, b with
  | .formatting a, .formatting b => a = b
  | .minecraftColor a, .minecraftColor b => a = b
  | .webColor a, .webColor b => a = b
  | _, _ => false

def isDoubleAt (components : ComponentList) (i : Nat) : Bool :=
  match components[i - 1]?, components[i]? with
  | some a, some b => isDouble a b
  | _, _ => false

def removeDoubleItems (components : ComponentList) : ComponentList :=
  sweep (eraseIf isDoubleAt) (eraseIf_shrinks _) 1 components

/-- The look-ahead of `remove_double_colors`, at `components[j..]`: `j` and `only_formatting`. -/
def lookAhead (rest : ComponentList) (j : Nat) : Nat × Bool :=
  match rest with
  | [] => (j, true)
  | .text _ :: _ => (j, false)
  | .minecraftColor _ :: _ | .webColor _ :: _ => (j, true)
  | .formatting _ :: rest => lookAhead rest (j + 1)
  | .translationTag _ :: _ => (j, false)

def isDoubleColorAt (components : ComponentList) (i : Nat) : Bool :=
  match components[i]? with
  | some c =>
    let (j, only_formatting) := lookAhead (components.drop (i + 1)) (i + 1)
    c.isColor && (only_formatting && j < components.length)
  | none => false

def removeDoubleColors (components : ComponentList) : ComponentList :=
  sweep (eraseIf isDoubleColorAt) (eraseIf_shrinks _) 0 components

def foundColor (rest : ComponentList) : Bool :=
  match rest with
  | [] => false
  | .text _ :: _ | .translationTag _ :: _ => false
  | .minecraftColor _ :: _ | .webColor _ :: _ => true
  | .formatting _ :: rest => foundColor rest

def isFormattingBeforeColorAt (components : ComponentList) (i : Nat) : Bool :=
  match components[i]? with
  | some c => c.isFormatting && foundColor (components.drop (i + 1))
  | none => false

def removeFormattingBeforeColor (components : ComponentList) : ComponentList :=
  sweep (eraseIf isFormattingBeforeColorAt) (eraseIf_shrinks _) 0 components

def walkBackward (before : ComponentList) (active_color : Option ColorState)
    (active_formatting : List Formatting) : Option ColorState × List Formatting :=
  match before with
  | [] => (active_color, active_formatting)
  | .minecraftColor c :: _ => (some (.minecraft c), active_formatting)
  | .webColor c :: _ => (some (.web c), active_formatting)
  | .formatting .reset :: before => walkBackward before none []
  | .formatting f :: before =>
    if f ∈ active_formatting then
      walkBackward before active_color active_formatting
    else
      walkBackward before active_color (active_formatting ++ [f])
  | .text _ :: before | .translationTag _ :: before =>
    walkBackward before active_color active_formatting

def reAppliesSame (c : MotdComponent) (active_color : Option ColorState) : Bool :=
  match c, active_color with
  | .minecraftColor c, some (.minecraft ac) => c = ac
  | .webColor c, some (.web ac) => c = ac
  | _, _ => false

/-- The reset at `i - 1` and the color at `i` that sets what was active before the reset. -/
def removeReset (components : ComponentList) (i : Nat) : Option ComponentList :=
  match components[i - 1]?, components[i]? with
  | some (.formatting .reset), some c =>
    let (active_color, _) := walkBackward (components.take (i - 1)).reverse none []
    if reAppliesSame c active_color then
      some ((components.eraseIdx i).eraseIdx (i - 1))
    else
      none
  | _, _ => none

theorem removeReset_shrinks : Shrinks removeReset := by
  intro l i l' hi h
  unfold removeReset at h
  split at h
  . dsimp only at h
    split at h
    . rw [Option.some.injEq] at h
      have hle := List.length_eraseIdx_le (l.eraseIdx i) (i - 1)
      have hlt := List.length_eraseIdx_of_lt hi
      rw [← h]
      omega
    . simp at h
  . simp at h

def removeMeaninglessResetsAndColors (components : ComponentList) : ComponentList :=
  sweep removeReset removeReset_shrinks 1 (components.dropWhile (· = .formatting .reset))

def removeEndNonText (components : ComponentList) : ComponentList :=
  components.rdropWhile fun c => !c.isText

def squash (components : ComponentList) (i : Nat) : Option ComponentList :=
  match components[i - 1]?, components[i]? with
  | some (.text a), some (.text b) => some ((components.set (i - 1) (.text (a ++ b))).eraseIdx i)
  | _, _ => none

theorem squash_shrinks : Shrinks squash := by
  intro l i l' hi h
  unfold squash at h
  split at h
  . next a b _ _ =>
    rw [Option.some.injEq] at h
    have hset : i < (l.set (i - 1) (.text (a ++ b))).length := by
      rw [List.length_set]
      exact hi
    have hlt := List.length_eraseIdx_of_lt hset
    rw [List.length_set] at hlt
    rw [← h]
    omega
  . simp at h

def squashNearbyStrings (components : ComponentList) : ComponentList :=
  sweep squash squash_shrinks 1 components

def simplifyRound (components : ComponentList) : ComponentList :=
  let components := removeDoubleItems components
  let components := removeDoubleColors components
  let components := removeFormattingBeforeColor components
  let components := removeMeaninglessResetsAndColors components
  removeEndNonText components

theorem length_removeMeaninglessResetsAndColors_le (components : ComponentList)
    : (removeMeaninglessResetsAndColors components).length ≤ components.length := by
  apply Nat.le_trans length_sweep_le
  exact (List.dropWhile_suffix _).length_le

theorem length_simplifyRound_le (components : ComponentList)
    : (simplifyRound components).length ≤ components.length := by
  apply Nat.le_trans (List.rdropWhile_prefix _ _).length_le
  apply Nat.le_trans (length_removeMeaninglessResetsAndColors_le _)
  apply Nat.le_trans length_sweep_le
  apply Nat.le_trans length_sweep_le
  exact length_sweep_le

def simplify.loop (components : ComponentList) : ComponentList :=
  if (simplifyRound components).length = components.length then
    simplifyRound components
  else
    loop (simplifyRound components)
termination_by components.length
decreasing_by
  have := length_simplifyRound_le components
  omega

def simplify (components : ComponentList) : ComponentList :=
  squashNearbyStrings (simplify.loop components)

end Rust

end McStatus
