import Mathlib.Algebra.Ring.Int.Defs
import Mathlib.Algebra.Ring.Nat
import Mathlib.Data.List.Induction

/-!
This module contains lists of components that are read from left to right: some components change
the style, and the others are shown in the style that was reached.
-/

namespace McStatus

structure Display (γ σ χ : Type) where
  apply : σ → γ → σ
  shows : γ → List χ

namespace Display

variable {γ σ χ : Type} (d : Display γ σ χ)

def final (s : σ) (l : List γ) : σ :=
  l.foldl d.apply s

def render (s : σ) (l : List γ) : List (χ × σ) :=
  match l with
  | [] => []
  | c :: l => (d.shows c).map (fun x => (x, s)) ++ render (d.apply s c) l

@[simp]
theorem final_nil (s : σ) : d.final s [] = s := rfl

@[simp]
theorem final_cons (s : σ) (c : γ) (l : List γ)
    : d.final s (c :: l) = d.final (d.apply s c) l := rfl

@[simp]
theorem final_append (s : σ) (l r : List γ) : d.final s (l ++ r) = d.final (d.final s l) r :=
  List.foldl_append

@[simp]
theorem render_nil (s : σ) : d.render s [] = [] := rfl

@[simp]
theorem render_cons (s : σ) (c : γ) (l : List γ)
    : d.render s (c :: l) = (d.shows c).map (fun x => (x, s)) ++ d.render (d.apply s c) l := rfl

@[simp]
theorem render_append (s : σ) (l r : List γ)
    : d.render s (l ++ r) = d.render s l ++ d.render (d.final s l) r := by
  induction l generalizing s with
  | nil => rfl
  | cons c l ih =>
    rw [List.cons_append, render_cons, ih, render_cons, final_cons, List.append_assoc]

theorem render_of_forall_silent {l : List γ} (h : ∀ c ∈ l, d.shows c = []) (s : σ)
    : d.render s l = [] := by
  induction l generalizing s with
  | nil => rfl
  | cons c l ih =>
    rw [render_cons, h c List.mem_cons_self, List.map_nil, List.nil_append]
    exact ih (fun x hx => h x (List.mem_cons_of_mem c hx)) _

theorem render_map {σ' : Type} {d' : Display γ σ' χ} (part : σ → σ')
    (happly : ∀ s c, part (d.apply s c) = d'.apply (part s) c) (hshows : d'.shows = d.shows)
    (s : σ) (l : List γ)
    : (d.render s l).map (fun x => (x.1, part x.2)) = d'.render (part s) l := by
  induction l generalizing s with
  | nil => rfl
  | cons c l ih =>
    rw [render_cons, render_cons, List.map_append, List.map_map, ih, happly, hshows]
    rfl

theorem map_eq_map_iff (l : List χ) (s t : σ)
    : l.map (fun x => (x, s)) = l.map (fun x => (x, t)) ↔ (l ≠ [] → s = t) := by
  cases l with
  | nil => simp
  | cons x l =>
    constructor
    . intro heq _
      rw [List.map_cons, List.map_cons, List.cons.injEq, Prod.mk.injEq] at heq
      exact heq.1.2
    . intro heq
      rw [heq (List.cons_ne_nil x l)]

theorem append_map_iff {l : List χ} {s t : σ} {r r' : List (χ × σ)}
    : l.map (fun x => (x, s)) ++ r = l.map (fun x => (x, t)) ++ r'
        ↔ (l ≠ [] → s = t) ∧ r = r' := by
  rw [← map_eq_map_iff]
  constructor
  . intro heq
    exact List.append_inj heq (by simp)
  . rintro ⟨hfront, hback⟩
    rw [hfront, hback]

theorem render_eq_render_iff {d d' : Display γ σ χ} (hshows : d'.shows = d.shows) (s t : σ)
    (l : List γ)
    : d.render s l = d'.render t l
        ↔ ∀ front c back, l = front ++ c :: back → d.shows c ≠ []
            → d.final s front = d'.final t front := by
  induction l generalizing s t with
  | nil =>
    constructor
    . intro _ front c back heq
      exact absurd heq.symm (by simp)
    . intro _
      rfl
  | cons x l ih =>
    rw [render_cons, render_cons, hshows, append_map_iff, ih]
    constructor
    . rintro ⟨hfirst, hrest⟩ front c back heq hc
      cases front with
      | nil =>
        cases heq
        exact hfirst hc
      | cons y front =>
        cases heq
        exact hrest front c back rfl hc
    . intro hall
      constructor
      . exact hall [] x l rfl
      . intro front c back heq hc
        have := hall (x :: front) c back (by rw [heq, List.cons_append]) hc
        rwa [final_cons, final_cons] at this

/--
A pass that shows each component in the style of what is left in front of it shows the same as the
list itself if and only if these styles are the same.
-/
theorem render_pass_iff {pass : List γ → List γ} {s : σ} (hnil : d.render s (pass []) = [])
    (hconcat : ∀ l c, d.render s (pass (l ++ [c]))
      = d.render s (pass l) ++ (d.shows c).map (fun x => (x, d.final s (pass l)))) (l : List γ)
    : d.render s (pass l) = d.render s l
        ↔ ∀ front c back, l = front ++ c :: back → d.shows c ≠ []
            → d.final s (pass front) = d.final s front := by
  induction l using List.reverseRecOn with
  | nil =>
    constructor
    . intro _ front c back heq
      exact absurd heq.symm (by simp)
    . intro _
      exact hnil
  | append_singleton l x ih =>
    rw [hconcat, render_append, render_cons, render_nil, List.append_nil]
    constructor
    . intro heq front c back hsplit hc
      have hparts := List.append_inj' heq (by rw [List.length_map, List.length_map])
      rcases List.eq_nil_or_concat back with rfl | ⟨back, y, rfl⟩
      . rcases List.append_inj' hsplit rfl with ⟨rfl, hx⟩
        cases hx
        exact (map_eq_map_iff _ _ _).mp hparts.2 hc
      . rw [List.concat_eq_append, ← List.cons_append, ← List.append_assoc] at hsplit
        rcases List.append_inj' hsplit rfl with ⟨rfl, -⟩
        exact ih.mp hparts.1 front c back rfl hc
    . intro hall
      have hfront : d.render s (pass l) = d.render s l := by
        apply ih.mpr
        rintro front c back rfl hc
        exact hall front c (back ++ [x]) (by simp) hc
      rw [hfront, (map_eq_map_iff _ _ _).mpr (hall l x [] rfl)]

/-- Something that starts is in the list, and nothing that ends it comes after. -/
def Since (starts ends : γ → Prop) (l : List γ) : Prop :=
  ∃ front c back, l = front ++ c :: back ∧ starts c ∧ ∀ x ∈ back, ¬ ends x

theorem not_since_nil (starts ends : γ → Prop) : ¬ Since starts ends [] := by
  rintro ⟨front, c, back, heq, _⟩
  exact absurd heq.symm (by simp)

theorem forall_not_or_since (p : γ → Prop) (l : List γ) : (∀ x ∈ l, ¬ p x) ∨ Since p p l := by
  induction l with
  | nil => exact Or.inl fun x hx => absurd hx List.not_mem_nil
  | cons c l ih =>
    rcases ih with hnone | ⟨front, x, back, rfl, hx⟩
    . by_cases hc : p c
      . exact Or.inr ⟨[], c, l, rfl, hc, hnone⟩
      . exact Or.inl (List.forall_mem_cons.mpr ⟨hc, hnone⟩)
    . exact Or.inr ⟨c :: front, x, back, rfl, hx⟩

theorem last_unique {p : γ → Prop} {front front' back back' : List γ} {c c' : γ}
    (h : front ++ c :: back = front' ++ c' :: back') (hc : p c) (hc' : p c')
    (hback : ∀ x ∈ back, ¬ p x) (hback' : ∀ x ∈ back', ¬ p x)
    : front = front' ∧ c = c' ∧ back = back' := by
  rcases List.append_eq_append_iff.mp h with ⟨mid, hfront, heq⟩ | ⟨mid, hfront, heq⟩
  . cases mid with
    | nil =>
      cases heq
      exact ⟨by rw [hfront, List.append_nil], rfl, rfl⟩
    | cons x mid =>
      cases heq
      exact absurd hc' (hback c' (by simp))
  . cases mid with
    | nil =>
      cases heq
      exact ⟨by rw [hfront, List.append_nil], rfl, rfl⟩
    | cons x mid =>
      cases heq
      exact absurd hc (hback' c (by simp))

theorem since_concat {starts ends : γ → Prop} {l : List γ} {c : γ}
    : Since starts ends (l ++ [c]) ↔ starts c ∨ (Since starts ends l ∧ ¬ ends c) := by
  constructor
  . rintro ⟨front, x, back, heq, hx, hback⟩
    rcases List.eq_nil_or_concat back with rfl | ⟨back, y, rfl⟩
    . rcases List.append_inj' heq rfl with ⟨_, hc⟩
      cases hc
      exact Or.inl hx
    . rw [List.concat_eq_append, ← List.cons_append, ← List.append_assoc] at heq
      rcases List.append_inj' heq rfl with ⟨rfl, hc⟩
      cases hc
      rw [List.concat_eq_append] at hback
      refine Or.inr ⟨⟨front, x, back, rfl, hx, ?_⟩, hback c (by simp)⟩
      intro y hy
      exact hback y (List.mem_append_left [c] hy)
  . rintro (hc | ⟨⟨front, x, back, rfl, hx, hback⟩, hc⟩)
    . exact ⟨l, c, [], rfl, hc, fun x hx => absurd hx List.not_mem_nil⟩
    . refine ⟨front, x, back ++ [c], by simp, hx, ?_⟩
      intro y hy
      rcases List.mem_append.mp hy with hy | hy
      . exact hback y hy
      . rwa [List.mem_singleton.mp hy]

theorem final_iff_since {d : Display γ σ χ} {starts ends : γ → Prop} {part : σ → Prop}
    (hstep : ∀ s c, part (d.apply s c) ↔ starts c ∨ (part s ∧ ¬ ends c)) {s : σ} (hs : ¬ part s)
    (l : List γ) : part (d.final s l) ↔ Since starts ends l := by
  induction l using List.reverseRecOn with
  | nil => exact ⟨fun h => absurd h hs, fun h => absurd h (not_since_nil starts ends)⟩
  | append_singleton l c ih => rw [final_append, final_cons, final_nil, hstep, since_concat, ih]

/-- `r` can stand for `l` wherever it occurs. -/
def Same (l r : List γ) : Prop :=
  ∀ s, d.render s l = d.render s r ∧ d.final s l = d.final s r

variable {d}

theorem Same.refl (l : List γ) : d.Same l l :=
  fun _ => ⟨rfl, rfl⟩

theorem Same.trans {l m r : List γ} (h : d.Same l m) (h' : d.Same m r) : d.Same l r :=
  fun s => ⟨(h s).1.trans (h' s).1, (h s).2.trans (h' s).2⟩

theorem Same.append {l l' r r' : List γ} (h : d.Same l l') (h' : d.Same r r')
    : d.Same (l ++ r) (l' ++ r') := by
  intro s
  constructor
  . rw [render_append, render_append, (h s).1, (h s).2, (h' _).1]
  . rw [final_append, final_append, (h s).2, (h' _).2]

theorem Same.append_left (l : List γ) {r r' : List γ} (h : d.Same r r')
    : d.Same (l ++ r) (l ++ r') :=
  (Same.refl l).append h

theorem Same.eraseIdx {l : List γ} {i : Nat} (hi : i < l.length)
    (h : d.Same (l[i] :: l.drop (i + 1)) (l.drop (i + 1))) : d.Same l (l.eraseIdx i) := by
  have hsplit : l.take i ++ l[i] :: l.drop (i + 1) = l := by
    rw [← List.drop_eq_getElem_cons hi, List.take_append_drop]
  rw [List.eraseIdx_eq_take_drop_succ]
  conv => enter [2]; rw [← hsplit]
  exact h.append_left (l.take i)

theorem Same.replace {l : List γ} {i : Nat} {c : γ} (hi : i + 1 < l.length)
    (h : ∀ r, d.Same (l[i] :: l[i + 1] :: r) (c :: r))
    : d.Same l ((l.set i c).eraseIdx (i + 1)) := by
  have hsplit : l.take i ++ l[i] :: l[i + 1] :: l.drop (i + 2) = l := by
    rw [← List.drop_eq_getElem_cons hi, ← List.drop_eq_getElem_cons (by omega),
      List.take_append_drop]
  have htake : (l.set i c).take (i + 1) = l.take i ++ [c] := by
    rw [List.take_succ_eq_append_getElem (by rw [List.length_set]; omega), List.getElem_set_self,
      List.take_set_of_le (Nat.le_refl i)]
  have hdrop : (l.set i c).drop (i + 1 + 1) = l.drop (i + 2) :=
    List.drop_set_of_lt (by omega)
  rw [List.eraseIdx_eq_take_drop_succ, htake, hdrop, List.append_assoc, List.singleton_append]
  conv => enter [2]; rw [← hsplit]
  exact (h _).append_left (l.take i)

end Display

end McStatus
