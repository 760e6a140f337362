import McStatus.Python.Motd.Simplify

/-!
This module contains what `squash_nearby_strings` makes of a list when Python goes through the set
of fillers in ascending order, and that it keeps what is displayed then.
-/

namespace McStatus

namespace Python

def SetIter.Ascending (setIter : SetIter) (s : Finset Nat) : Prop :=
  (setIter.iterate s).Pairwise (· < ·)

/--
No index is popped out of a list of more than that many elements. An order that does not ascend can
make an index negative, which counts from the end of the list then.
-/
def SetIter.StaysInside (setIter : SetIter) : Prop :=
  ∀ s n, (∀ i ∈ s, i + 1 < n) → ∀ k i, (setIter.iterate s)[k]? = some i → 2 * k ≤ n + i

theorem le_of_ascending {l : List Nat} (h : l.Pairwise (· < ·)) {m : Nat} (hm : ∀ i ∈ l, m ≤ i)
    {k i : Nat} (hk : l[k]? = some i) : m + k ≤ i := by
  induction l generalizing m k with
  | nil => cases hk
  | cons a l ih =>
    rw [List.pairwise_cons] at h
    cases k with
    | zero =>
      rw [List.getElem?_cons_zero, Option.some.injEq] at hk
      rw [← hk]
      exact hm a List.mem_cons_self
    | succ k =>
      have ha := hm a List.mem_cons_self
      have := @ih h.2 (m + 1) (fun j hj => Nat.lt_of_le_of_lt ha (h.1 j hj)) k hk
      omega

theorem SetIter.Ascending.staysInside {setIter : SetIter} (h : ∀ s, setIter.Ascending s)
    : setIter.StaysInside := by
  intro s n hs k i hk
  have hle := le_of_ascending (h s) (fun j _ => Nat.zero_le j) hk
  have := hs i ((setIter.mem_iff s i).mp (List.mem_of_getElem? hk))
  omega

theorem pop_ok {α : Type} {l : List α} {index : Int} (hlow : -l.length ≤ index)
    (hhigh : index < l.length) : ∃ i < l.length, pop l index = .ok (l.eraseIdx i) := by
  unfold pop
  split
  . refine ⟨(index + l.length).toNat, by omega, ?_⟩
    rw [if_pos (by omega)]
  . refine ⟨index.toNat, by omega, ?_⟩
    rw [if_pos (by omega)]

theorem pop_eq {α : Type} (front : List α) (a : α) (back : List α)
    : pop (front ++ a :: back) front.length = .ok (front ++ back) := by
  have hneg : ¬ (front.length : Int) < 0 := by omega
  have hlt : (front.length : Int) < front.length + (back.length + 1) := by omega
  simp [pop, hneg, hlt, List.eraseIdx_append_of_length_le (Nat.le_refl front.length)]

namespace Motd

def mergeItem (item : ParsedMotdComponent) (joined : List ParsedMotdComponent)
    : List ParsedMotdComponent :=
  match item, joined with
  | .str s, .str t :: joined => .str (s ++ t) :: joined
  | item, joined => item :: joined

def mergeStrings (parsed : List ParsedMotdComponent) : List ParsedMotdComponent :=
  parsed.foldr mergeItem []

example : mergeStrings [.str ['a'], .str ['b'], .formatting .bold, .str ['c']]
    = [.str ['a', 'b'], .formatting .bold, .str ['c']] := by decide

theorem mergeItem_mergeItem (s t : List Char) (joined : List ParsedMotdComponent)
    : mergeItem (.str s) (mergeItem (.str t) joined) = mergeItem (.str (s ++ t)) joined := by
  cases joined with
  | nil => rfl
  | cons item joined => cases item <;> simp [mergeItem]

theorem mergeItem_of_not_str {item next_item : ParsedMotdComponent}
    (h : ∀ s t, item = .str s → next_item ≠ .str t)
    (joined : List ParsedMotdComponent)
    : mergeItem item (mergeItem next_item joined) = item :: mergeItem next_item joined := by
  cases item with
  | str s =>
    cases next_item with
    | str t => exact absurd rfl (h s t rfl)
    | _ => rfl
  | _ => rfl

theorem render_mergeItem (item : ParsedMotdComponent) (joined : List ParsedMotdComponent)
    (style : Style) : display.render style (mergeItem item joined)
      = display.render style (item :: joined) := by
  unfold mergeItem
  split
  . next s t joined =>
    have hshows : display.shows (.str (s ++ t))
        = display.shows (.str s) ++ display.shows (.str t) := rfl
    rw [Display.render_cons, Display.render_cons, Display.render_cons, hshows, List.map_append,
      List.append_assoc]
    rfl
  . rfl

theorem render_mergeStrings (parsed : List ParsedMotdComponent) (style : Style)
    : display.render style (mergeStrings parsed) = display.render style parsed := by
  induction parsed generalizing style with
  | nil => rfl
  | cons item parsed ih =>
    have hmerge : mergeStrings (item :: parsed) = mergeItem item (mergeStrings parsed) := rfl
    rw [hmerge, render_mergeItem, Display.render_cons, ih, Display.render_cons]

theorem popFillers_eq {front parsed : List ParsedMotdComponent} {fillers : List Nat}
    {index already_removed : Nat} (hindex : front.length + already_removed = index)
    (hascending : fillers.Pairwise (· < ·)) (hle : ∀ i ∈ fillers, index ≤ i)
    (hlt : ∀ i ∈ fillers, i < index + parsed.length)
    : popFillers (front ++ parsed) already_removed fillers
        = .ok (front ++ leaveOut index parsed fillers.toFinset) := by
  -- `front` is what was kept before the indices that are done, and `kept` what the next one keeps
  induction fillers generalizing front parsed index already_removed with
  | nil => rw [popFillers, leaveOut_eq_self (by simp)]
  | cons i fillers ih =>
    rw [List.pairwise_cons] at hascending
    have hi := hle i List.mem_cons_self
    have hi' := hlt i List.mem_cons_self
    rcases @exists_split _ parsed (i - index) (by omega) with ⟨kept, item, back, rfl, hlen⟩
    have hindex' : index + kept.length = i := by omega
    have hkept : leaveOut index kept (i :: fillers).toFinset = kept := by
      apply leaveOut_eq_self_of_not_mem
      intro j hj _
      rcases List.mem_cons.mp (List.mem_toFinset.mp hj) with rfl | hmem
      . omega
      . have := hascending.1 j hmem
        omega
    have hrest : leaveOut (i + 1) back (i :: fillers).toFinset
        = leaveOut (i + 1) back fillers.toFinset := by
      apply leaveOut_congr
      intro j hj
      have hne : j ≠ i := by omega
      simp [hne]
    have hpop : ((i : Int) - already_removed) = ((front ++ kept).length : Nat) := by
      rw [List.length_append]
      omega
    rw [popFillers, hpop, ← List.append_assoc, pop_eq, leaveOut_append, hindex', hkept,
      leaveOut_cons_of_mem (by simp), hrest, ← List.append_assoc]
    apply ih
    . rw [List.length_append]
      omega
    . exact hascending.2
    . exact hascending.1
    . intro j hj
      have := hlt j (List.mem_cons_of_mem i hj)
      rw [List.length_append, List.length_cons] at this
      omega

theorem popFillers_ok {parsed : List ParsedMotdComponent} {already_removed : Nat}
    {fillers : List Nat}
    (h : ∀ k i, fillers[k]? = some i → i < parsed.length + already_removed
      ∧ 2 * (already_removed + k) ≤ parsed.length + already_removed + i)
    : ∃ popped, popFillers parsed already_removed fillers = .ok popped ∧ popped.Sublist parsed := by
  induction fillers generalizing parsed already_removed with
  | nil => exact ⟨parsed, rfl, List.Sublist.refl parsed⟩
  | cons i fillers ih =>
    have hfirst := h 0 i rfl
    have hpop := @pop_ok _ parsed ((i : Int) - already_removed) (by omega) (by omega)
    rcases hpop with ⟨j, hj, hpop⟩
    have hlen : (parsed.eraseIdx j).length + 1 = parsed.length := by
      rw [List.length_eraseIdx_of_lt hj]
      omega
    have hrest := @ih (parsed.eraseIdx j) (already_removed + 1) (by
      intro k i' hk
      have := h (k + 1) i' hk
      omega)
    rcases hrest with ⟨popped, hok, hsublist⟩
    refine ⟨popped, ?_, hsublist.trans (List.eraseIdx_sublist parsed j)⟩
    rw [popFillers, hpop]
    exact hok

theorem mem_fillValues {index : Nat} {item c : ParsedMotdComponent}
    {parsed : List ParsedMotdComponent} (hc : c.isStr = false)
    (h : c ∈ (fillValues index item parsed).1) : c ∈ item :: parsed := by
  fun_induction fillValues index item parsed with
  | case1 index item => exact h
  | case2 index parsed s next filled fillers heq ih =>
    rw [heq] at ih
    rcases List.mem_cons.mp h with rfl | hmem
    . cases hc
    . rcases List.mem_cons.mp (ih hmem) with rfl | hrest
      . cases hc
      . exact List.mem_cons_of_mem _ (List.mem_cons_of_mem _ hrest)
  | case3 index item next_item parsed filled fillers heq _ ih =>
    rcases List.mem_cons.mp h with rfl | hmem
    . exact List.mem_cons_self
    . exact List.mem_cons_of_mem _ (ih hmem)

theorem fillValues_spec (index : Nat) (item : ParsedMotdComponent)
    (parsed : List ParsedMotdComponent)
    : (fillValues index item parsed).1.length = parsed.length + 1
        ∧ ∀ i ∈ (fillValues index item parsed).2, index ≤ i ∧ i < index + parsed.length := by
  fun_induction fillValues index item parsed with
  | case1 index item => exact ⟨rfl, by simp⟩
  | case2 index parsed s next filled fillers heq ih =>
    rw [heq] at ih
    rcases ih with ⟨hlen, hmem⟩
    refine ⟨by rw [List.length_cons, hlen, List.length_cons], ?_⟩
    intro i hi
    rw [List.length_cons]
    rcases Finset.mem_insert.mp hi with rfl | hi
    . omega
    . have := hmem i hi
      omega
  | case3 index item next_item parsed filled fillers heq hnot ih =>
    rcases ih with ⟨hlen, hmem⟩
    refine ⟨by rw [List.length_cons, hlen, List.length_cons], ?_⟩
    intro i hi
    have := hmem i hi
    rw [List.length_cons]
    omega

theorem leaveOut_fillValues (index : Nat) (item : ParsedMotdComponent)
    (parsed : List ParsedMotdComponent)
    : leaveOut index (fillValues index item parsed).1 (fillValues index item parsed).2
      = mergeStrings (item :: parsed) := by
  fun_induction fillValues index item parsed with
  | case1 index item =>
    rw [leaveOut_eq_self (by simp)]
    cases item <;> rfl
  | case2 index parsed s next filled fillers heq ih =>
    rw [heq] at ih
    have hcongr : leaveOut (index + 1) filled (insert index fillers)
        = leaveOut (index + 1) filled fillers := by
      apply leaveOut_congr
      intro i hi
      rw [Finset.mem_insert, or_iff_right (by omega)]
    rw [leaveOut_cons_of_mem (Finset.mem_insert_self index fillers), hcongr, ih]
    exact (mergeItem_mergeItem s next _).symm
  | case3 index item next_item parsed filled fillers heq hnot ih =>
    have hindex : index ∉ (fillValues (index + 1) next_item parsed).2 := by
      intro hi
      have := (fillValues_spec (index + 1) next_item parsed).2 index hi
      omega
    rw [leaveOut_cons_of_not_mem hindex, ih]
    exact (mergeItem_of_not_str (fun s t hs ht => hnot s t hs ht) _).symm

theorem squashNearbyStrings_ok {setIter : SetIter} (hinside : setIter.StaysInside)
    (parsed : List ParsedMotdComponent)
    : ∃ squashed, squashNearbyStrings setIter parsed = .ok squashed
        ∧ ∀ c ∈ squashed, c.isStr = false → c ∈ parsed := by
  cases parsed with
  | nil => exact ⟨[], rfl, fun c hc => absurd hc List.not_mem_nil⟩
  | cons item parsed =>
    rcases fillValues_spec 0 item parsed with ⟨hlen, hmem⟩
    have hbound : ∀ i ∈ (fillValues 0 item parsed).2, i + 1 < parsed.length + 1 := by
      intro i hi
      have := hmem i hi
      omega
    have hpop := @popFillers_ok (fillValues 0 item parsed).1 0
      (setIter.iterate (fillValues 0 item parsed).2) (by
        intro k i hk
        have horder := hinside _ _ hbound k i hk
        have := hmem i ((setIter.mem_iff _ _).mp (List.mem_of_getElem? hk))
        omega)
    rcases hpop with ⟨popped, hok, hsublist⟩
    exact ⟨popped, hok, fun c hc hstr => mem_fillValues hstr (hsublist.subset hc)⟩

def OrderOf (fillers : Finset Nat) (order : List Nat) : Prop :=
  order.Nodup ∧ ∀ i, i ∈ order ↔ i ∈ fillers

theorem popFillers_of_ascending {item : ParsedMotdComponent} {parsed : List ParsedMotdComponent}
    {order : List Nat} (horder : OrderOf (fillValues 0 item parsed).2 order)
    (hascending : order.Pairwise (· < ·))
    : popFillers (fillValues 0 item parsed).1 0 order = .ok (mergeStrings (item :: parsed)) := by
  have htoFinset : order.toFinset = (fillValues 0 item parsed).2 := by
    ext i
    rw [List.mem_toFinset, horder.2]
  have hpop := @popFillers_eq [] (fillValues 0 item parsed).1 order 0 0 rfl hascending
    (fun i _ => Nat.zero_le i) fun i hi => by
      have hspec := fillValues_spec 0 item parsed
      have := hspec.2 i ((horder.2 i).mp hi)
      omega
  rw [htoFinset, leaveOut_fillValues] at hpop
  exact hpop

def fillers (parsed : List ParsedMotdComponent) : Finset Nat :=
  match parsed with
  | [] => ∅
  | item :: parsed => (fillValues 0 item parsed).2

theorem squashNearbyStrings_of_ascending {setIter : SetIter} {parsed : List ParsedMotdComponent}
    (h : setIter.Ascending (fillers parsed))
    : squashNearbyStrings setIter parsed = .ok (mergeStrings parsed) := by
  cases parsed with
  | nil => rfl
  | cons item parsed => exact popFillers_of_ascending ⟨setIter.nodup _, setIter.mem_iff _⟩ h

theorem squashNearbyStrings_render {setIter : SetIter} {parsed : List ParsedMotdComponent}
    (h : setIter.Ascending (fillers parsed))
    : ∃ squashed, squashNearbyStrings setIter parsed = .ok squashed
        ∧ ∀ s, display.render s squashed = display.render s parsed :=
  ⟨_, squashNearbyStrings_of_ascending h, render_mergeStrings parsed⟩

end Motd

end Python

end McStatus
