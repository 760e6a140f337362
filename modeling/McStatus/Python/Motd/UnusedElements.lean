import McStatus.Python.Motd.Simplify

/-!
This module shows which elements `get_unused_elements` finds, by what is before and behind them.
-/

namespace McStatus

namespace Python

namespace Motd

def colorBeforeStr (parsed : List ParsedMotdComponent) : Bool :=
  match parsed with
  | [] => false
  | item :: parsed => item.isColor || (!item.isStr && colorBeforeStr parsed)

def isWord (item : ParsedMotdComponent) : Bool :=
  match item with
  | .str s => !isspace s
  | _ => false

def colorBeforeWord (parsed : List ParsedMotdComponent) : Bool :=
  match parsed with
  | [] => false
  | item :: parsed => item.isColor || (!isWord item && colorBeforeWord parsed)

def overridden (item : ParsedMotdComponent) (parsed : List ParsedMotdComponent) : Bool :=
  (item.isColor && colorBeforeStr parsed) || (item.isFormatting && colorBeforeWord parsed)

/-- One of the passes removes the item, in front of `parsed`. -/
def isUnused (active : Active) (item : ParsedMotdComponent) (parsed : List ParsedMotdComponent)
    : Bool :=
  overridden item parsed || active.repeats item
    || (item.isCode && (parsed.head? = some item || !parsed.any (·.isStr)))

def clean (active : Active) (parsed : List ParsedMotdComponent) : List ParsedMotdComponent :=
  match parsed with
  | [] => []
  | item :: parsed =>
    if isUnused active item parsed then
      clean (active.next item) parsed
    else
      item :: clean (active.next item) parsed

theorem isCode_of_isUnused {active : Active} {item : ParsedMotdComponent}
    {rest : List ParsedMotdComponent} (h : isUnused active item rest = true)
    : item.isCode = true := by
  cases item <;> first | rfl | simp [isUnused, overridden, Active.repeats,
    ParsedMotdComponent.isCode, ParsedMotdComponent.isColor, ParsedMotdComponent.isFormatting] at h

section Passes

variable {index i : Nat} {parsed : List ParsedMotdComponent}

theorem mem_getDoubleItems
    : i ∈ getDoubleItems index parsed
        ↔ IndexOf (fun _ item rest => item.isCode = true ∧ rest.head? = some item) index parsed i
    := by
  induction parsed generalizing index with
  | nil => simp [getDoubleItems, not_indexOf_nil]
  | cons item parsed ih =>
    rw [indexOf_cons, ← ih]
    cases parsed with
    | nil => simp [getDoubleItems]
    | cons next_item parsed =>
      rw [getDoubleItems, List.head?_cons, Option.some.injEq, eq_comm (a := next_item)]
      split
      . next h => rw [Finset.mem_insert, and_iff_left h]
      . next h => simp [h]

theorem mem_getDoubleColors {prev_color : Option Nat}
    : i ∈ getDoubleColors prev_color index parsed
        ↔ (prev_color = some i ∧ colorBeforeStr parsed = true)
          ∨ IndexOf (fun _ item rest => item.isColor = true ∧ colorBeforeStr rest = true) index
            parsed i := by
  induction parsed generalizing prev_color index with
  | nil => simp [getDoubleColors, colorBeforeStr, not_indexOf_nil]
  | cons item parsed ih =>
    rw [indexOf_cons, getDoubleColors, colorBeforeStr]
    cases hcolor : item.isColor with
    | true =>
      rw [if_pos rfl]
      cases prev_color with
      | none => simp [ih, eq_comm (a := i)]
      | some prev_color => simp [ih, eq_comm (a := i)]
    | false =>
      rw [if_neg Bool.false_ne_true]
      split
      . next hstr => simp [ih, hstr]
      . next hstr => simp [ih, hstr]

theorem mem_getFormattingBeforeColor {collected_formattings : Finset Nat}
    : i ∈ getFormattingBeforeColor collected_formattings index parsed
        ↔ (i ∈ collected_formattings ∧ colorBeforeWord parsed = true)
          ∨ IndexOf (fun _ item rest => item.isFormatting = true ∧ colorBeforeWord rest = true)
            index
            parsed i := by
  induction parsed generalizing collected_formattings index with
  | nil => simp [getFormattingBeforeColor, colorBeforeWord, not_indexOf_nil]
  | cons item parsed ih =>
    rw [indexOf_cons, colorBeforeWord]
    cases item with
    | formatting f =>
      simp only [getFormattingBeforeColor, ih, Finset.mem_insert, ParsedMotdComponent.isColor,
        isWord, ParsedMotdComponent.isFormatting]
      grind
    | str s =>
      have hcolor : (ParsedMotdComponent.str s).isColor = false := rfl
      have hformatting : (ParsedMotdComponent.str s).isFormatting = false := rfl
      have hword : isWord (.str s) = !isspace s := rfl
      simp only [getFormattingBeforeColor, hcolor, hformatting, hword]
      split
      . next hspace => simp [ih, hspace]
      . next hspace => simp [ih, hspace]
    | _ =>
      simp [getFormattingBeforeColor, ih, ParsedMotdComponent.isColor, isWord,
        ParsedMotdComponent.isFormatting]

theorem mem_getMeaninglessResetsAndColors {active : Active}
    : i ∈ getMeaninglessResetsAndColors active index parsed
        ↔ IndexOf (fun front item _ => (front.foldl Active.next active).repeats item = true) index
          parsed i := by
  induction parsed generalizing active index with
  | nil => simp [getMeaninglessResetsAndColors, not_indexOf_nil]
  | cons item parsed ih =>
    rw [indexOf_cons, getMeaninglessResetsAndColors]
    simp only [List.foldl_cons, List.foldl_nil]
    rw [← ih]
    split
    . next h => rw [Finset.mem_insert, and_iff_left h]
    . next h => simp [h]

theorem mem_getEndNonText_go {rev_index : Nat}
    : i ∈ getEndNonText.go (parsed.length + rev_index) rev_index parsed.reverse
        ↔ IndexOf (fun _ item rest => item.isCode = true ∧ rest.any (·.isStr) = false)
            0 parsed i := by
  -- the loop goes through the list from its end
  induction parsed using List.reverseRecOn generalizing rev_index with
  | nil => simp [getEndNonText.go, not_indexOf_nil]
  | append_singleton parsed item ih =>
    have hlen : (parsed ++ [item]).length + rev_index = parsed.length + (rev_index + 1) := by
      rw [List.length_append, List.length_singleton]
      omega
    have hindex : parsed.length + (rev_index + 1) - 1 - rev_index = parsed.length := by omega
    rw [indexOf_concat, List.reverse_append, List.reverse_singleton, List.singleton_append, hlen]
    cases hstr : item.isStr with
    | true =>
      cases item with
      | str s =>
        simp [getEndNonText.go, ParsedMotdComponent.isCode, ParsedMotdComponent.isStr, IndexOf]
      | _ => simp [ParsedMotdComponent.isStr] at hstr
    | false =>
      have hgo : getEndNonText.go (parsed.length + (rev_index + 1)) rev_index
            (item :: parsed.reverse)
          = if item.isCode then
              insert parsed.length (getEndNonText.go (parsed.length + (rev_index + 1))
                (rev_index + 1) parsed.reverse)
            else
              getEndNonText.go (parsed.length + (rev_index + 1)) (rev_index + 1) parsed.reverse
          := by
        cases item with
        | str s => simp [ParsedMotdComponent.isStr] at hstr
        | _ => simp [getEndNonText.go]
      rw [hgo]
      split
      . next h => simp [ih, hstr, h, or_comm]
      . next h => simp [ih, hstr, h]

theorem mem_getUnusedElements
    : i ∈ getUnusedElements parsed
        ↔ IndexOf (fun front item rest =>
            isUnused (front.foldl Active.next .nothing) item rest = true)
          0 parsed i := by
  have hend := @mem_getEndNonText_go i parsed 0
  rw [Nat.add_zero] at hend
  unfold getUnusedElements getEndNonText
  simp only [Finset.mem_union, mem_getDoubleItems, mem_getDoubleColors,
    mem_getFormattingBeforeColor, mem_getMeaninglessResetsAndColors, hend, reduceCtorEq, false_and,
    Finset.notMem_empty, false_or, indexOf_or]
  unfold isUnused overridden
  apply iff_of_eq
  congr 1
  funext front item rest
  grind

theorem removeUnused_eq_clean (parsed : List ParsedMotdComponent)
    : removeUnused parsed = clean .nothing parsed := by
  have hrest : ∀ front rest, parsed = front ++ rest →
      leaveOut front.length rest (getUnusedElements parsed)
        = clean (front.foldl Active.next .nothing) rest := by
    intro front rest h
    induction rest generalizing front with
    | nil => rfl
    | cons item rest ih =>
      have hmem : front.length ∈ getUnusedElements parsed
          ↔ isUnused (front.foldl Active.next .nothing) item rest = true := by
        have happend := @indexOf_append _
          (fun front item rest => isUnused (front.foldl Active.next .nothing) item rest = true) 0
          item front rest
        rw [Nat.zero_add] at happend
        rw [mem_getUnusedElements, h, happend]
      have hnext := ih (front ++ [item]) (by rw [h, List.append_assoc, List.singleton_append])
      rw [List.length_append, List.length_singleton, List.foldl_append, List.foldl_cons,
        List.foldl_nil] at hnext
      unfold leaveOut clean
      simp only [hmem, hnext]
  exact hrest [] parsed rfl

end Passes

end Motd

end Python

end McStatus
