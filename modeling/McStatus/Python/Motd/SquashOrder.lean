import Mathlib.Order.Lattice.Nat
import McStatus.Library.Loop
import McStatus.Python.Motd.SimplifySound

/-!
This module contains the lists for which `squash_nearby_strings` is right in whatever order Python
goes through the set of fillers.
-/

namespace McStatus

open Fallible

namespace Python

namespace Motd

def StrAt (parsed : List ParsedMotdComponent) (i : Nat) : Prop :=
  ∃ s, parsed[i]? = some (.str s)

def PairAt (parsed : List ParsedMotdComponent) (i : Nat) : Prop :=
  StrAt parsed i ∧ StrAt parsed (i + 1)

section Join

variable {item next_item : ParsedMotdComponent} {parsed : List ParsedMotdComponent} {i : Nat}

@[simp]
theorem strAt_zero : StrAt (item :: parsed) 0 ↔ ∃ s, item = .str s := by
  simp [StrAt]

@[simp]
theorem strAt_succ : StrAt (item :: parsed) (i + 1) ↔ StrAt parsed i := by
  simp [StrAt]

@[simp]
theorem not_strAt_nil : ¬ StrAt [] i := by
  simp [StrAt]

theorem exists_fillValues (index : Nat) (item : ParsedMotdComponent)
    (parsed : List ParsedMotdComponent)
    : ∃ filled, (fillValues index item parsed).1 = item :: filled := by
  fun_induction fillValues index item parsed <;> exact ⟨_, rfl⟩

theorem strAt_fillValues (index : Nat) (item : ParsedMotdComponent)
    (parsed : List ParsedMotdComponent) (i : Nat)
    : StrAt (fillValues index item parsed).1 i ↔ StrAt (item :: parsed) i := by
  fun_induction fillValues index item parsed generalizing i with
  | case1 index item => rfl
  | case2 index parsed s next filled fillers heq ih =>
    rw [heq] at ih
    cases i with
    | zero => simp
    | succ i =>
      rw [strAt_succ, strAt_succ, ih]
      cases i <;> simp
  | case3 index item next_item parsed filled fillers heq hnot ih =>
    cases i with
    | zero => simp
    | succ i => rw [strAt_succ, strAt_succ, ih]

@[simp]
theorem pairAt_succ : PairAt (item :: parsed) (i + 1) ↔ PairAt parsed i := by
  simp [PairAt]

theorem pairAt_str_congr (s t : List Char) (parsed : List ParsedMotdComponent) (i : Nat)
    : PairAt (.str s :: parsed) i ↔ PairAt (.str t :: parsed) i := by
  cases i <;> simp [PairAt]

theorem mem_fillValues_iff (index : Nat) (item : ParsedMotdComponent)
    (parsed : List ParsedMotdComponent) (i : Nat)
    : i ∈ (fillValues index item parsed).2 ↔ ∃ j, i = index + j ∧ PairAt (item :: parsed) j := by
  fun_induction fillValues index item parsed generalizing i with
  | case1 index item => simp [PairAt]
  | case2 index parsed s next filled fillers heq ih =>
    rw [heq] at ih
    rw [Finset.mem_insert, ih]
    constructor
    . rintro (rfl | ⟨j, rfl, hj⟩)
      . exact ⟨0, rfl, by simp [PairAt]⟩
      . refine ⟨j + 1, by omega, ?_⟩
        rwa [pairAt_succ, pairAt_str_congr next (s ++ next)]
    . rintro ⟨j, rfl, hj⟩
      cases j with
      | zero => exact Or.inl rfl
      | succ j =>
        rw [pairAt_succ, pairAt_str_congr next (s ++ next)] at hj
        exact Or.inr ⟨j, by omega, hj⟩
  | case3 index item next_item parsed filled fillers heq hnot ih =>
    rw [ih]
    constructor
    . rintro ⟨j, rfl, hj⟩
      exact ⟨j + 1, by omega, pairAt_succ.mpr hj⟩
    . rintro ⟨j, rfl, hj⟩
      cases j with
      | zero =>
        rcases hj with ⟨hitem, hnext⟩
        rw [strAt_zero] at hitem
        rw [strAt_succ, strAt_zero] at hnext
        rcases hitem with ⟨s, rfl⟩
        rcases hnext with ⟨t, rfl⟩
        exact absurd rfl (hnot s t rfl)
      | succ j => exact ⟨j, by omega, pairAt_succ.mp hj⟩

end Join

def AnyOrder (parsed : List ParsedMotdComponent) : Prop :=
  ∀ setIter, squashNearbyStrings setIter parsed = .ok (mergeStrings parsed)

section Order

variable {item : ParsedMotdComponent} {parsed : List ParsedMotdComponent} {order : List Nat}

theorem SetIter.exists_of_orderOf {fillers : Finset Nat} (h : OrderOf fillers order)
    : ∃ setIter : SetIter, setIter.iterate fillers = order := by
  refine ⟨{
    iterate := fun s => if s = fillers then order else SetIter.sorted.iterate s
    nodup := ?_
    mem_iff := ?_ }, if_pos rfl⟩
  . intro s
    split
    . exact h.1
    . exact SetIter.sorted.nodup s
  . intro s i
    split
    . next hs =>
      rw [hs]
      exact h.2 i
    . exact SetIter.sorted.mem_iff s i

theorem anyOrder_iff_forall
    : AnyOrder (item :: parsed)
      ↔ ∀ order, OrderOf (fillValues 0 item parsed).2 order →
        popFillers (fillValues 0 item parsed).1 0 order = .ok (mergeStrings (item :: parsed)) := by
  constructor
  . intro h order horder
    rcases SetIter.exists_of_orderOf horder with ⟨setIter, hiter⟩
    have hsquash := h setIter
    rw [squashNearbyStrings] at hsquash
    dsimp only at hsquash
    rwa [hiter] at hsquash
  . intro h setIter
    exact h _ ⟨setIter.nodup _, setIter.mem_iff _⟩

theorem popFillers_append (parsed : List ParsedMotdComponent) (already_removed : Nat)
    (order order' : List Nat)
    : popFillers parsed already_removed (order ++ order')
      = popFillers parsed already_removed order >>= fun popped =>
        popFillers popped (already_removed + order.length) order' := by
  induction order generalizing parsed already_removed with
  | nil => rfl
  | cons i order ih =>
    rw [List.cons_append, popFillers, popFillers]
    cases pop parsed (i - already_removed) with
    | error e => rfl
    | ok popped =>
      rw [ok_bind, ok_bind, ih, List.length_cons, Nat.add_assoc, Nat.add_comm 1]

theorem length_pop {l popped : List ParsedMotdComponent} {index : Int}
    (h : pop l index = .ok popped)
    : popped.length + 1 = l.length := by
  unfold pop at h
  dsimp only at h
  generalize (if index < 0 then index + (l.length : Int) else index) = i at h
  split at h
  . next hrange =>
    rw [Except.ok.injEq] at h
    rw [← h, List.length_eraseIdx_of_lt (by omega)]
    omega
  . cases h

theorem length_popFillers {already_removed : Nat} {popped : List ParsedMotdComponent}
    (h : popFillers parsed already_removed order = .ok popped)
    : popped.length + order.length = parsed.length := by
  induction order generalizing parsed already_removed with
  | nil =>
    cases h
    rfl
  | cons i order ih =>
    rcases bind_eq_ok.mp h with ⟨rest, hpop, hrest⟩
    have := length_pop hpop
    have := ih hrest
    rw [List.length_cons]
    omega

theorem pop_neg_one {α : Type} {l : List α} (h : l ≠ []) : pop l (-1) = .ok l.dropLast := by
  have hlen := List.length_pos_of_ne_nil h
  have hindex : (-1 + (l.length : Int)).toNat + 1 = l.length := by omega
  unfold pop
  dsimp only
  rw [if_pos (show (-1 : Int) < 0 by decide), if_pos (by omega), List.eraseIdx_eq_dropLast hindex]

theorem popFillers_swapped_concat (front : List ParsedMotdComponent) (w x : ParsedMotdComponent)
    (mid : List ParsedMotdComponent) (z : ParsedMotdComponent) (back : List ParsedMotdComponent)
    {already_removed a b : Nat} (ha : a = already_removed + front.length + 1)
    (hb : b = a + mid.length + 1)
    : popFillers (front ++ [w] ++ x :: (mid ++ z :: back)) already_removed [b, a]
      = .ok (front ++ x :: (mid ++ back)) := by
  have hfirst := pop_eq (front ++ [w] ++ x :: mid) z back
  have hsecond := pop_eq front w (x :: (mid ++ back))
  have hb' : (b : Int) - already_removed = (front ++ [w] ++ x :: mid).length := by
    simp
    omega
  have ha' : (a : Int) - (already_removed + 1 : Nat) = front.length := by omega
  rw [popFillers, hb']
  simp only [List.append_assoc, List.cons_append, List.nil_append] at hfirst ⊢
  rw [hfirst, ok_bind, popFillers, ha', hsecond]
  rfl

theorem popFillers_swapped_nil (x : ParsedMotdComponent) (mid : List ParsedMotdComponent)
    (z : ParsedMotdComponent) (back : List ParsedMotdComponent) {a b : Nat}
    (hb : b = a + mid.length + 1)
    : popFillers (x :: (mid ++ z :: back)) a [b, a] = .ok (x :: (mid ++ back)).dropLast := by
  have hfirst := pop_eq (x :: mid) z back
  have hb' : (b : Int) - a = (x :: mid).length := by
    simp
    omega
  have ha' : (a : Int) - (a + 1 : Nat) = -1 := by omega
  rw [popFillers, hb']
  rw [List.cons_append, List.cons_append] at hfirst
  rw [hfirst, ok_bind, popFillers, ha', pop_neg_one (List.cons_ne_nil x _)]
  rfl

theorem popFillers_pair (front : List ParsedMotdComponent) (x : ParsedMotdComponent)
    (mid : List ParsedMotdComponent) (z : ParsedMotdComponent) (back : List ParsedMotdComponent)
    {already_removed a b : Nat} (ha : a = already_removed + front.length)
    (hb : b = a + mid.length + 1)
    : popFillers (front ++ x :: (mid ++ z :: back)) already_removed [a, b]
      = .ok (front ++ (mid ++ back)) := by
  have hfirst := pop_eq front x (mid ++ z :: back)
  have hsecond := pop_eq (front ++ mid) z back
  have ha' : (a : Int) - already_removed = front.length := by omega
  have hb' : (b : Int) - (already_removed + 1 : Nat) = (front ++ mid).length := by
    simp
    omega
  rw [popFillers, ha', hfirst, ok_bind, popFillers, hb', ← List.append_assoc, hsecond,
    List.append_assoc]
  rfl

theorem mem_fillers_iff {i : Nat}
    : i ∈ (fillValues 0 item parsed).2 ↔ PairAt (fillValues 0 item parsed).1 i := by
  rw [mem_fillValues_iff]
  simp only [Nat.zero_add, exists_eq_left', PairAt, strAt_fillValues]

theorem OrderOf.perm {fillers : Finset Nat} {order' : List Nat} (h : OrderOf fillers order)
    (hperm : order'.Perm order) : OrderOf fillers order' :=
  ⟨hperm.nodup_iff.mpr h.1, fun i => hperm.mem_iff.trans (h.2 i)⟩

theorem orderOf_sorted (fillers : Finset Nat) : OrderOf fillers (SetIter.sorted.iterate fillers) :=
  ⟨SetIter.sorted.nodup fillers, SetIter.sorted.mem_iff fillers⟩

theorem all_eq_of_dropLast {α : Type} {x : α} {l : List α} (h : (x :: l).dropLast = l)
    : ∀ y ∈ l, y = x := by
  induction l generalizing x with
  | nil => exact fun y hy => absurd hy List.not_mem_nil
  | cons z l ih =>
    rw [List.dropLast_cons_of_ne_nil (List.cons_ne_nil z l), List.cons.injEq] at h
    rcases h with ⟨rfl, hrest⟩
    exact List.forall_mem_cons.mpr ⟨rfl, ih hrest⟩

theorem isStr_of_strAt {i : Nat} {c : ParsedMotdComponent} (h : StrAt parsed i)
    (hc : parsed[i]? = some c) : c.isStr = true := by
  rcases h with ⟨s, hs⟩
  rw [hc, Option.some.injEq] at hs
  rw [hs]
  rfl

theorem strAt_of_isStr {i : Nat} {c : ParsedMotdComponent} (hc : parsed[i]? = some c)
    (h : c.isStr = true) : StrAt parsed i := by
  cases c <;> first | exact ⟨_, hc⟩ | cases h

/-- The fillers of a list: those before, and the last two, which are the places of `x` and `z`. -/
structure LastTwo (before : List Nat) (front : List ParsedMotdComponent) (x : ParsedMotdComponent)
    (mid : List ParsedMotdComponent) (z : ParsedMotdComponent) (back : List ParsedMotdComponent)
    : Prop where
  mem_iff : ∀ i, i ∈ before ++ [front.length, front.length + mid.length + 1]
    ↔ PairAt (front ++ x :: (mid ++ z :: back)) i
  ascending : before.Pairwise (· < ·)
  lt : ∀ i ∈ before, i < front.length

namespace LastTwo

variable {before : List Nat} {front mid back : List ParsedMotdComponent} {x z : ParsedMotdComponent}
variable {kept joined : List ParsedMotdComponent} {w : ParsedMotdComponent}

theorem strAt_of_mem (h : LastTwo before front x mid z back) {i : Nat} (hi : i ∈ before)
    : StrAt (front ++ x :: (mid ++ z :: back)) i :=
  ((h.mem_iff i).mp (List.mem_append_left _ hi)).1

theorem mem_before (h : LastTwo before front x mid z back) {i : Nat}
    (hi : PairAt (front ++ x :: (mid ++ z :: back)) i) (hlt : i < front.length) : i ∈ before := by
  rcases List.mem_append.mp ((h.mem_iff i).mpr hi) with hbefore | hlast
  . exact hbefore
  . simp only [List.mem_cons, List.not_mem_nil, or_false] at hlast
    omega

theorem strAt_front (h : LastTwo before front x mid z back)
    : StrAt (front ++ x :: (mid ++ z :: back)) front.length :=
  ((h.mem_iff _).mp (by simp)).1

theorem isStr_x (h : LastTwo before front x mid z back) : x.isStr = true :=
  isStr_of_strAt h.strAt_front (by simp)

theorem isStr_z (h : LastTwo before front x mid z back) : z.isStr = true := by
  apply isStr_of_strAt ((h.mem_iff (front.length + mid.length + 1)).mp (by simp)).1
  rw [← List.cons_append, ← List.append_assoc, List.getElem?_append_right (by simp; omega)]
  simp [Nat.add_assoc]

theorem popFillers_before (h : LastTwo before front x mid z back)
    : popFillers (front ++ x :: (mid ++ z :: back)) 0 before
      = .ok (leaveOut 0 front before.toFinset ++ x :: (mid ++ z :: back)) := by
  have hbefore := @popFillers_eq [] (front ++ x :: (mid ++ z :: back)) before 0 0 rfl h.ascending
    (fun i _ => Nat.zero_le i) fun i hi => by
      have := h.lt i hi
      rw [List.length_append]
      omega
  have hbehind : leaveOut (0 + front.length) (x :: (mid ++ z :: back)) before.toFinset
      = x :: (mid ++ z :: back) := by
    apply leaveOut_eq_self_of_not_mem
    intro i hi hle
    have := h.lt i (List.mem_toFinset.mp hi)
    omega
  rw [List.nil_append, List.nil_append, leaveOut_append, hbehind] at hbefore
  exact hbefore

theorem length_kept (h : LastTwo before front x mid z back)
    : (leaveOut 0 front before.toFinset).length + before.length = front.length := by
  have := length_popFillers h.popFillers_before
  rw [List.length_append, List.length_append] at this
  omega

theorem not_isStr_of_kept (h : LastTwo before front x mid z back)
    (hlast : leaveOut 0 front before.toFinset = kept ++ [w]) : w.isStr = false := by
  rcases last_of_leaveOut hlast with ⟨i, hget, hnot, hall⟩
  simp only [Nat.zero_add, List.mem_toFinset] at hnot hall
  rcases List.getElem?_eq_some_iff.mp hget with ⟨hi, -⟩
  have hget' : (front ++ x :: (mid ++ z :: back))[i]? = some w := by
    rw [List.getElem?_append_left hi, hget]
  have hstr : StrAt (front ++ x :: (mid ++ z :: back)) (i + 1) := by
    rcases Nat.lt_or_eq_of_le (Nat.succ_le_of_lt hi) with hlt | heq
    . exact h.strAt_of_mem (hall (i + 1) (Nat.lt_succ_self i) hlt)
    . have := h.strAt_front
      rwa [← heq] at this
  rw [Bool.eq_false_iff]
  intro hw
  exact hnot (h.mem_before ⟨strAt_of_isStr hget' hw, hstr⟩ hi)

theorem swapped_ne_of_concat (h : LastTwo before front x mid z back)
    (hkept : leaveOut 0 front before.toFinset = kept ++ [w])
    (hright : popFillers (front ++ x :: (mid ++ z :: back)) 0
      (before ++ [front.length, front.length + mid.length + 1]) = .ok joined)
    : popFillers (front ++ x :: (mid ++ z :: back)) 0
      (before ++ [front.length + mid.length + 1, front.length]) ≠ .ok joined := by
  intro hswapped
  have hlen := h.length_kept
  rw [hkept, List.length_append, List.length_singleton] at hlen
  rw [popFillers_append, h.popFillers_before, ok_bind, Nat.zero_add, hkept] at hright hswapped
  rw [popFillers_pair _ x mid z back (by simp; omega) rfl, Except.ok.injEq] at hright
  rw [popFillers_swapped_concat _ w x mid z back (by omega) rfl, Except.ok.injEq, ← hright,
    List.append_assoc, List.append_cancel_left_eq, List.singleton_append, List.cons.injEq]
    at hswapped
  have hw := h.not_isStr_of_kept hkept
  rw [← hswapped.1, h.isStr_x] at hw
  cases hw

theorem eq_of_swapped_of_nil (h : LastTwo before front x mid z back)
    (hnil : leaveOut 0 front before.toFinset = [])
    (hright : popFillers (front ++ x :: (mid ++ z :: back)) 0
      (before ++ [front.length, front.length + mid.length + 1]) = .ok joined)
    (hswapped : popFillers (front ++ x :: (mid ++ z :: back)) 0
      (before ++ [front.length + mid.length + 1, front.length]) = .ok joined)
    : ∀ c ∈ mid ++ back, c = x := by
  have hcount := h.length_kept
  rw [hnil, List.length_nil, Nat.zero_add] at hcount
  rw [popFillers_append, h.popFillers_before, ok_bind, Nat.zero_add, hnil, hcount,
    List.nil_append] at hright hswapped
  have hpair : popFillers (x :: (mid ++ z :: back)) front.length
      [front.length, front.length + mid.length + 1] = .ok (mid ++ back) :=
    popFillers_pair [] x mid z back rfl rfl
  rw [hpair, Except.ok.injEq] at hright
  rw [popFillers_swapped_nil x mid z back rfl, Except.ok.injEq, ← hright] at hswapped
  exact all_eq_of_dropLast hswapped

theorem isStr_of_nil (h : LastTwo before front x mid z back)
    (hnil : leaveOut 0 front before.toFinset = []) : ∀ c ∈ front, c.isStr = true := by
  intro c hc
  rcases List.getElem?_of_mem hc with ⟨i, hi⟩
  rcases List.getElem?_eq_some_iff.mp hi with ⟨hlt, -⟩
  have hmem := mem_of_leaveOut_eq_nil hnil hlt
  rw [Nat.zero_add, List.mem_toFinset] at hmem
  apply isStr_of_strAt (h.strAt_of_mem hmem)
  rw [List.getElem?_append_left hlt, hi]

theorem forall_isStr (h : LastTwo before front x mid z back)
    (hright : popFillers (front ++ x :: (mid ++ z :: back)) 0
      (before ++ [front.length, front.length + mid.length + 1]) = .ok joined)
    (hswapped : popFillers (front ++ x :: (mid ++ z :: back)) 0
      (before ++ [front.length + mid.length + 1, front.length]) = .ok joined)
    : ∀ c ∈ front ++ x :: (mid ++ z :: back), c.isStr = true := by
  rcases List.eq_nil_or_concat (leaveOut 0 front before.toFinset) with hnil | ⟨kept, w, hkept⟩
  . have hsame := h.eq_of_swapped_of_nil hnil hright hswapped
    intro c hc
    simp only [List.mem_append, List.mem_cons] at hc
    rcases hc with hc | rfl | hc | rfl | hc
    . exact h.isStr_of_nil hnil c hc
    . exact h.isStr_x
    . rw [hsame c (List.mem_append_left back hc)]
      exact h.isStr_x
    . exact h.isStr_z
    . rw [hsame c (List.mem_append_right mid hc)]
      exact h.isStr_x
  . rw [List.concat_eq_append] at hkept
    exact absurd hswapped (h.swapped_ne_of_concat hkept hright)

end LastTwo

theorem exists_last_two {α : Type} {l : List α} {a b : α} (ha : a ∈ l) (hb : b ∈ l) (hne : a ≠ b)
    : ∃ front x y, l = front ++ [x, y] := by
  rcases List.eq_nil_or_concat l with rfl | ⟨l, y, rfl⟩
  . cases ha
  . rcases List.eq_nil_or_concat l with rfl | ⟨l, x, rfl⟩
    . simp only [List.concat_eq_append, List.nil_append, List.mem_singleton] at ha hb
      exact absurd (ha.trans hb.symm) hne
    . exact ⟨l, x, y, by simp⟩

theorem forall_isStr_of_filled (h : ∀ c ∈ (fillValues 0 item parsed).1, c.isStr = true)
    : ∀ c ∈ item :: parsed, c.isStr = true := by
  intro c hc
  rcases List.getElem?_of_mem hc with ⟨i, hi⟩
  rcases List.getElem?_eq_some_iff.mp hi with ⟨hlt, -⟩
  have hlength : i < (fillValues 0 item parsed).1.length := by
    rw [(fillValues_spec 0 item parsed).1]
    exact hlt
  apply isStr_of_strAt ((strAt_fillValues 0 item parsed i).mp _) hi
  exact strAt_of_isStr (List.getElem?_eq_getElem hlength) (h _ (List.getElem_mem hlength))

theorem AnyOrder.forall_isStr (h : AnyOrder (item :: parsed)) {i j : Nat}
    (hi : PairAt (item :: parsed) i) (hj : PairAt (item :: parsed) j) (hne : i ≠ j)
    : ∀ c ∈ item :: parsed, c.isStr = true := by
  rw [anyOrder_iff_forall] at h
  apply forall_isStr_of_filled
  have hpair : ∀ i, PairAt (item :: parsed) i → i ∈ (fillValues 0 item parsed).2 := by
    intro i hi
    rw [mem_fillValues_iff]
    exact ⟨i, (Nat.zero_add i).symm, hi⟩
  have horder := orderOf_sorted (fillValues 0 item parsed).2
  have hascending := ascending_sorted (fillValues 0 item parsed).2
  rw [SetIter.Ascending] at hascending
  rcases exists_last_two ((horder.2 i).mpr (hpair i hi)) ((horder.2 j).mpr (hpair j hj)) hne with
    ⟨before, a, b, hsorted⟩
  rw [hsorted] at horder hascending
  rcases List.pairwise_append.mp hascending with ⟨hbefore, hab, hlt⟩
  have hmem : ∀ i, i ∈ before ++ [a, b] ↔ PairAt (fillValues 0 item parsed).1 i :=
    fun i => (horder.2 i).trans mem_fillers_iff
  have hlength : b < (fillValues 0 item parsed).1.length := by
    have hspec := fillValues_spec 0 item parsed
    have := hspec.2 b ((horder.2 b).mp (by simp))
    omega
  have hless : a < b := by simpa using hab
  have hright := h _ horder
  have hswapped := h _ (horder.perm (List.Perm.append_left before (List.Perm.swap a b [])))
  rcases exists_split hlength with ⟨front', z, back, hfilled, hfront'⟩
  rcases exists_split (hfront'.symm ▸ hless) with ⟨front, x, mid, rfl, rfl⟩
  have hb : b = front.length + mid.length + 1 := by
    simp at hfront'
    omega
  subst hb
  rw [List.append_assoc, List.cons_append] at hfilled
  rw [hfilled] at hright hswapped hmem ⊢
  have hlast : LastTwo before front x mid z back :=
    ⟨hmem, hbefore, fun i hi => hlt i hi _ List.mem_cons_self⟩
  exact hlast.forall_isStr hright hswapped

theorem exists_of_forall_isStr {l : List ParsedMotdComponent} (h : ∀ c ∈ l, c.isStr = true)
    : ∃ ss : List (List Char), l = ss.map .str := by
  induction l with
  | nil => exact ⟨[], rfl⟩
  | cons c l ih =>
    rcases ih fun x hx => h x (List.mem_cons_of_mem c hx) with ⟨ss, rfl⟩
    cases c with
    | str s => exact ⟨s :: ss, rfl⟩
    | _ => exact absurd (h _ List.mem_cons_self) (by simp [ParsedMotdComponent.isStr])

theorem popFillers_range {l : List ParsedMotdComponent} {m : Nat} (n : Nat) (h : m ≤ l.length)
    : popFillers l (n + 1) (List.range' n m) = .ok (l.take (l.length - m)) := by
  induction m generalizing l n with
  | zero => simp [popFillers]
  | succ m ih =>
    have hne : l ≠ [] := by
      rintro rfl
      simp at h
    have hindex : (n : Int) - (n + 1 : Nat) = -1 := by omega
    have hlen : l.dropLast.length = l.length - 1 := List.length_dropLast
    rw [List.range'_succ, popFillers, hindex, pop_neg_one hne, ok_bind, ih (n + 1) (by omega), hlen,
      List.dropLast_eq_take, List.take_take]
    congr 2
    omega

theorem mergeStrings_map_str (s : List Char) (ss : List (List Char))
    : mergeStrings (.str s :: ss.map .str) = [.str (s ++ ss.flatten)] := by
  induction ss generalizing s with
  | nil => simp [mergeStrings, mergeItem]
  | cons t ss ih =>
    have hrest := ih t
    rw [mergeStrings, List.foldr_cons, ← mergeStrings] at hrest ⊢
    rw [List.map_cons, mergeStrings, List.foldr_cons, ← mergeStrings, hrest, List.flatten_cons]
    rfl

theorem pop_natCast {α : Type} {l : List α} {i : Nat} (h : i < l.length)
    : pop l i = .ok (l.eraseIdx i) := by
  unfold pop
  dsimp only
  rw [if_neg (show ¬ (i : Int) < 0 by omega), if_pos (by omega), Int.toNat_natCast]

theorem pop_of_lt {α : Type} {l : List α} {index : Int} (h : index < -l.length)
    : pop l index = .error .indexError := by
  unfold pop
  dsimp only
  rw [if_pos (show index < 0 by omega), if_neg (by omega)]

theorem popFillers_last_first {l : List ParsedMotdComponent} {n : Nat} (hlen : l.length = n + 2)
    : popFillers (item :: l) 0 ((n + 1) :: List.range' 0 (n + 1)) = .ok [item] := by
  have hfirst : pop (item :: l) ((n + 1 : Nat) - (0 : Nat) : Int) = .ok (item :: l.eraseIdx n) := by
    rw [Nat.cast_zero, Int.sub_zero, pop_natCast (by rw [List.length_cons]; omega)]
    rfl
  have hlength : (item :: l.eraseIdx n).length = n + 2 := by
    rw [List.length_cons, List.length_eraseIdx_of_lt (by omega), hlen]
    rfl
  rw [popFillers, hfirst, ok_bind, popFillers_range 0 (by omega), hlength]
  have hone : n + 2 - (n + 1) = 1 := by omega
  rw [hone]
  rfl

theorem popFillers_first_last {l popped : List ParsedMotdComponent} {n : Nat}
    (hlen : l.length = n + 2) (h : popFillers l 0 (List.range' 1 n ++ [0]) = .ok popped)
    : n ≤ 2 := by
  rw [popFillers_append] at h
  rcases bind_eq_ok.mp h with ⟨rest, hrest, hlast⟩
  have hlength := length_popFillers hrest
  rw [List.length_range'] at hlength hlast
  by_contra hn
  rw [popFillers, pop_of_lt (by omega)] at hlast
  cases hlast

theorem mem_fillers_map_str (s : List Char) (ss : List (List Char)) (i : Nat)
    : i ∈ (fillValues 0 (.str s) (ss.map .str)).2 ↔ i < ss.length := by
  rw [mem_fillValues_iff]
  have hstr : ∀ j, StrAt (.str s :: ss.map .str) j ↔ j < ss.length + 1 := by
    intro j
    rw [StrAt, ← List.map_cons, ← List.length_cons (a := s)]
    constructor
    . rintro ⟨t, ht⟩
      rcases List.getElem?_eq_some_iff.mp ht with ⟨hlt, -⟩
      rwa [List.length_map] at hlt
    . intro hlt
      exact ⟨(s :: ss)[j], by rw [List.getElem?_map, List.getElem?_eq_getElem hlt]; rfl⟩
  simp only [PairAt, hstr]
  constructor
  . rintro ⟨j, rfl, -, hj⟩
    omega
  . intro hi
    exact ⟨i, (Nat.zero_add i).symm, by omega, by omega⟩

theorem AnyOrder.of_strings {s : List Char} {ss : List (List Char)}
    (h : AnyOrder (.str s :: ss.map .str)) {n : Nat} (hlen : ss.length = n + 2)
    : ss = List.replicate (n + 2) [] ∧ n ≤ 1 := by
  rw [anyOrder_iff_forall] at h
  rcases exists_fillValues 0 (.str s) (ss.map .str) with ⟨filled, hfilled⟩
  have hlength := (fillValues_spec 0 (.str s) (ss.map .str)).1
  rw [hfilled, List.length_cons, List.length_map, hlen] at hlength
  constructor
  . have hright := h ((n + 1) :: List.range' 0 (n + 1)) (by
      constructor
      . exact List.nodup_cons.mpr ⟨by simp, List.nodup_range'⟩
      . intro i
        rw [mem_fillers_map_str, List.mem_cons, List.mem_range'_1]
        omega)
    rw [hfilled, popFillers_last_first (by omega), mergeStrings_map_str, Except.ok.injEq] at hright
    have hflatten : ss.flatten = [] := by simpa using hright
    rw [List.flatten_eq_nil_iff] at hflatten
    exact List.eq_replicate_iff.mpr ⟨hlen, hflatten⟩
  . have hright := h (List.range' 1 (n + 1) ++ [0]) (by
      constructor
      . rw [List.nodup_append]
        refine ⟨List.nodup_range', List.nodup_singleton 0, ?_⟩
        intro i hi j hj
        rw [List.mem_range'_1] at hi
        rw [List.mem_singleton] at hj
        omega
      . intro i
        rw [mem_fillers_map_str, List.mem_append, List.mem_range'_1, List.mem_singleton]
        omega)
    have := popFillers_first_last (by rw [hfilled, List.length_cons]; omega) hright
    omega

theorem fillValues_replicate (index : Nat) (s : List Char) (n : Nat)
    : (fillValues index (.str s) (List.replicate n (.str []))).1
        = List.replicate (n + 1) (.str s) := by
  induction n generalizing index with
  | zero => rfl
  | succ n ih =>
    rw [List.replicate_succ, fillValues]
    dsimp only
    rw [List.append_nil, ih]
    rfl

theorem OrderOf.perm_of {fillers : Finset Nat} {order' : List Nat} (h : OrderOf fillers order)
    (h' : OrderOf fillers order') : order.Perm order' :=
  (List.perm_ext_iff_of_nodup h.1 h'.1).mpr fun i => (h.2 i).trans (h'.2 i).symm

theorem orderOf_range (s : List Char) (n : Nat)
    : OrderOf (fillValues 0 (.str s) (List.replicate n (.str []))).2 (List.range n) := by
  refine ⟨List.nodup_range, fun i => ?_⟩
  have hmem := mem_fillers_map_str s (List.replicate n []) i
  rw [List.map_replicate, List.length_replicate] at hmem
  rw [hmem, List.mem_range]

theorem popFillers_replicate (s : List Char) {n : Nat} (hn : n ≤ 3)
    (hperm : order.Perm (List.range n))
    : popFillers (List.replicate (n + 1) (.str s)) 0 order = .ok [.str s] := by
  have hcount : order.length = n := by rw [hperm.length_eq, List.length_range]
  rcases @popFillers_ok (List.replicate (n + 1) (.str s)) 0 order (by
    intro k i hk
    have := List.mem_range.mp (hperm.mem_iff.mp (List.mem_of_getElem? hk))
    rcases List.getElem?_eq_some_iff.mp hk with ⟨hlt, -⟩
    rw [List.length_replicate]
    omega) with ⟨popped, hok, hsub⟩
  have hlength := length_popFillers hok
  rcases List.sublist_replicate_iff.mp hsub with ⟨m, hm, rfl⟩
  rw [List.length_replicate, List.length_replicate] at hlength
  have hone : m = 1 := by omega
  rw [hok, hone]
  rfl

theorem anyOrder_replicate (s : List Char) {n : Nat} (hn : n ≤ 3)
    : AnyOrder (.str s :: List.replicate n (.str [])) := by
  rw [anyOrder_iff_forall]
  intro order horder
  have hright := popFillers_of_ascending (orderOf_range s n) List.pairwise_lt_range
  rw [← hright, fillValues_replicate, popFillers_replicate s hn (List.Perm.refl _),
    popFillers_replicate s hn (horder.perm_of (orderOf_range s n))]

end Order

def AtMostOnePair (parsed : List ParsedMotdComponent) : Prop :=
  ∀ i j, PairAt parsed i → PairAt parsed j → i = j

def OnlyFirstFilled (parsed : List ParsedMotdComponent) : Prop :=
  ∃ s n, (n = 2 ∨ n = 3) ∧ parsed = .str s :: List.replicate n (.str [])

section AnyOrder

variable {item : ParsedMotdComponent} {parsed : List ParsedMotdComponent}

theorem anyOrder_of_atMostOnePair (h : AtMostOnePair (item :: parsed))
    : AnyOrder (item :: parsed) := by
  rw [anyOrder_iff_forall]
  intro order horder
  apply popFillers_of_ascending horder
  have hpair : ∀ i ∈ order, PairAt (item :: parsed) i := by
    intro i hi
    rcases (mem_fillValues_iff 0 item parsed i).mp ((horder.2 i).mp hi) with ⟨j, rfl, hj⟩
    rwa [Nat.zero_add]
  match order with
  | [] => exact List.Pairwise.nil
  | [i] => exact List.pairwise_singleton _ i
  | i :: j :: order =>
    have hne := (List.nodup_cons.mp horder.1).1
    have heq := h i j (hpair i (by simp)) (hpair j (by simp))
    exact absurd (by simp [heq]) hne

theorem AnyOrder.onlyFirstFilled (h : AnyOrder (item :: parsed)) {i j : Nat}
    (hi : PairAt (item :: parsed) i) (hj : PairAt (item :: parsed) j) (hne : i ≠ j)
    : OnlyFirstFilled (item :: parsed) := by
  rcases exists_of_forall_isStr (h.forall_isStr hi hj hne) with ⟨ss, hss⟩
  cases ss with
  | nil => cases hss
  | cons s ss =>
    rw [List.map_cons, List.cons.injEq] at hss
    rcases hss with ⟨rfl, rfl⟩
    have hlt : ∀ i, PairAt (.str s :: ss.map .str) i → i < ss.length := by
      intro i hi
      rw [← mem_fillers_map_str s ss i, mem_fillValues_iff]
      exact ⟨i, (Nat.zero_add i).symm, hi⟩
    have := hlt i hi
    have := hlt j hj
    rcases Nat.exists_eq_add_of_le' (show 2 ≤ ss.length by omega) with ⟨n, hlen⟩
    rcases h.of_strings hlen with ⟨heq, hn⟩
    exact ⟨s, n + 2, by omega, by rw [heq, List.map_replicate]⟩

theorem anyOrder_iff (parsed : List ParsedMotdComponent)
    : AnyOrder parsed ↔ AtMostOnePair parsed ∨ OnlyFirstFilled parsed := by
  constructor
  . intro h
    cases parsed with
    | nil =>
      left
      intro i j hi
      exact absurd hi.1 not_strAt_nil
    | cons item parsed =>
      by_cases hone : AtMostOnePair (item :: parsed)
      . exact Or.inl hone
      . simp only [AtMostOnePair, not_forall] at hone
        rcases hone with ⟨i, j, hi, hj, hne⟩
        exact Or.inr (h.onlyFirstFilled hi hj hne)
  . rintro (hone | ⟨s, n, hn, rfl⟩)
    . cases parsed with
      | nil => exact fun _ => rfl
      | cons item parsed => exact anyOrder_of_atMostOnePair hone
    . exact anyOrder_replicate s (by omega)

end AnyOrder

/--
The strings are merged in every order if no more than one of them is followed by another, and in an
ascending order always. Apart from a few empty strings these are all the lists for which the order
does not matter.
-/
theorem squashNearbyStrings_anyOrder (parsed : List ParsedMotdComponent)
    : (AnyOrder parsed ↔ AtMostOnePair parsed ∨ OnlyFirstFilled parsed)
      ∧ ∀ setIter : SetIter, setIter.Ascending (fillers parsed) →
        squashNearbyStrings setIter parsed = .ok (mergeStrings parsed) :=
  ⟨anyOrder_iff parsed, fun _ h => squashNearbyStrings_of_ascending h⟩

/-- A small set in CPython has eight slots, and an index is in the slot of its last three bits. -/
def slots : SetIter where
  iterate s := (List.range 8).flatMap fun slot =>
    (List.range (s.sup id + 1)).filter fun i => i % 8 = slot ∧ i ∈ s
  nodup s := by
    rw [List.nodup_flatMap]
    constructor
    . intro slot _
      exact List.nodup_range.filter _
    . apply List.Pairwise.imp ?_ (List.pairwise_lt_range (n := 8))
      intro slot slot' hlt i hi hi'
      simp only [List.mem_filter, decide_eq_true_eq] at hi hi'
      omega
  mem_iff s i := by
    simp only [List.mem_flatMap, List.mem_filter, List.mem_range, decide_eq_true_eq]
    constructor
    . rintro ⟨slot, -, -, -, hi⟩
      exact hi
    . intro hi
      have hle : i ≤ s.sup id := Finset.le_sup (f := id) hi
      exact ⟨i % 8, Nat.mod_lt i (by decide), Nat.lt_succ_of_le hle, rfl, hi⟩

/-- Eight comes before one in the set of fillers, and then the color is removed. -/
def sixCodes : List ParsedMotdComponent :=
  [.minecraftColor .red, .str ['a'], .str ['b'], .formatting .bold, .formatting .italic,
    .formatting .underlined, .formatting .strikethrough, .formatting .obfuscated, .str ['c'],
    .str ['d']]

theorem not_anyOrder_sixCodes
    : squashNearbyStrings slots sixCodes
        = .ok [.str ['a'], .str ['a', 'b'], .formatting .bold, .formatting .italic,
          .formatting .underlined, .formatting .strikethrough, .formatting .obfuscated,
          .str ['c', 'd']]
      ∧ ¬ AnyOrder sixCodes := by
  have hsquash : squashNearbyStrings slots sixCodes
      = .ok [.str ['a'], .str ['a', 'b'], .formatting .bold, .formatting .italic,
        .formatting .underlined, .formatting .strikethrough, .formatting .obfuscated,
        .str ['c', 'd']] := by decide
  refine ⟨hsquash, ?_⟩
  intro h
  have hright := h slots
  rw [hsquash] at hright
  exact absurd hright (by decide)

end Motd

end Python

end McStatus
