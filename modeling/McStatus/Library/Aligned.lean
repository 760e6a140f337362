import McStatus.Library.Loop

/-!
This module contains pairs of computations that fail alike and return lists of one length otherwise,
and the condition under which the two lists are the same.
-/

namespace McStatus

open Fallible

variable {α β ε : Type}

/-- Two computations of a list that can only differ in what stands in it, and do not under `p`. -/
inductive Aligned : Except ε (List α) → Except ε (List α) → Prop → Prop where
  | error (e : ε) (p : Prop) : Aligned (.error e) (.error e) p
  | ok {l l' : List α} {p : Prop} (hlength : l.length = l'.length) (heq : l = l' ↔ p)
      : Aligned (.ok l) (.ok l') p

namespace Aligned

variable {x y : Except ε (List α)} {p q : Prop}

theorem congr (h : Aligned x y p) (hpq : p ↔ q) : Aligned x y q := by
  cases h with
  | error e => exact .error e q
  | ok hlength heq => exact .ok hlength (heq.trans hpq)

theorem of_ok {l : List α} (h : Aligned (.ok l) y p) : ∃ l', y = .ok l' ∧ (l = l' ↔ p) := by
  cases h with
  | ok hlength heq => exact ⟨_, rfl, heq⟩

theorem bind_append (h : Aligned x y p) {k k' : List α → Except ε (List α)}
    (hk : ∀ l l', x = .ok l → y = .ok l' → Aligned (k l) (k' l') q)
    : Aligned (x >>= fun l => (l ++ ·) <$> k l) (y >>= fun l => (l ++ ·) <$> k' l) (p ∧ q) := by
  cases h with
  | error e => exact .error e _
  | @ok l l' _ hlength heq =>
    have hrest := hk l l' rfl rfl
    rw [ok_bind, ok_bind]
    generalize k l = z, k' l' = z' at hrest
    cases hrest with
    | error e => exact .error e _
    | @ok m m' _ hlength' heq' =>
      refine .ok (by simp [hlength, hlength']) ?_
      rw [← heq, ← heq']
      constructor
      . exact fun heq => List.append_inj heq hlength
      . rintro ⟨rfl, rfl⟩
        rfl

theorem flatten_mapM {f g : β → Except ε (List α)} {p : β → Prop} {bs : List β}
    (h : ∀ b ∈ bs, Aligned (f b) (g b) (p b))
    : Aligned (List.flatten <$> bs.mapM f) (List.flatten <$> bs.mapM g) (∀ b ∈ bs, p b) := by
  induction bs with
  | nil => exact .ok rfl (by simp)
  | cons b bs ih =>
    have hcons (f : β → Except ε (List α)) : List.flatten <$> (b :: bs).mapM f
        = f b >>= fun l => (l ++ ·) <$> List.flatten <$> bs.mapM f := by
      rw [List.mapM_cons]
      cases f b with
      | error e => rfl
      | ok l => cases bs.mapM f <;> rfl
    have ih := ih fun b' hb' => h b' (List.mem_cons_of_mem b hb')
    rw [hcons, hcons]
    exact ((h b List.mem_cons_self).bind_append fun _ _ _ _ => ih).congr List.forall_mem_cons.symm

end Aligned

end McStatus
