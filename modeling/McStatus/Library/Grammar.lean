import Mathlib.Data.List.Forall2
import McStatus.Library.Reader

/-!
This module contains computations that read a language: they return exactly where the input starts
with a word of it. It also contains computations that agree wherever one of them returns.
-/

namespace McStatus

namespace Reader

variable {ε ε' σ ι α β : Type} {view : σ → List ι}

variable (view) in
/-- `x` returns `a` exactly where the input starts with a word that `L` has for `a`. -/
structure Parses (x : EStateM ε σ α) (L : α → List ι → Prop) : Prop where
  sound : ∀ s a s', x s = .ok a s' → ∃ input, view s = input ++ view s' ∧ L a input
  complete : ∀ a input, L a input → Consumes view x input a

theorem Parses.congr {x : EStateM ε σ α} {L M : α → List ι → Prop} (h : Parses view x L)
    (hiff : ∀ a input, L a input ↔ M a input) : Parses view x M where
  sound := by
    intro s a s' hrun
    rcases h.sound s a s' hrun with ⟨input, hview, hinput⟩
    exact ⟨input, hview, (hiff a input).mp hinput⟩
  complete := by
    intro a input hinput
    exact h.complete a input ((hiff a input).mpr hinput)

theorem Parses.pure (a : α)
    : Parses view (pure a : EStateM ε σ α) (fun b input => b = a ∧ input = []) where
  sound := by
    intro s b s' hrun
    rw [pure_apply, EStateM.Result.ok.injEq] at hrun
    rcases hrun with ⟨rfl, rfl⟩
    exact ⟨[], rfl, rfl, rfl⟩
  complete := by
    rintro b input ⟨rfl, rfl⟩
    exact Consumes.pure b

theorem Parses.bind {x : EStateM ε σ α} {f : α → EStateM ε σ β} {L : α → List ι → Prop}
    {M : α → β → List ι → Prop} (hx : Parses view x L) (hf : ∀ a, Parses view (f a) (M a))
    : Parses view (x >>= f)
        (fun b input => ∃ a front back, input = front ++ back ∧ L a front ∧ M a b back) where
  sound := by
    intro s b s' hrun
    rcases bind_eq_ok.mp hrun with ⟨a, t, hfirst, hsecond⟩
    rcases hx.sound s a t hfirst with ⟨front, hfront, hl⟩
    rcases (hf a).sound t b s' hsecond with ⟨back, hback, hm⟩
    refine ⟨front ++ back, ?_, a, front, back, rfl, hl, hm⟩
    rw [hfront, hback, List.append_assoc]
  complete := by
    rintro b input ⟨a, front, back, rfl, hl, hm⟩
    exact (hx.complete a front hl).bind ((hf a).complete b back hm)

theorem Parses.bind_pure {x : EStateM ε σ α} {L : α → List ι → Prop} (h : Parses view x L)
    (f : α → β)
    : Parses view (x >>= fun a => Pure.pure (f a)) (fun b input => ∃ a, L a input ∧ b = f a) := by
  refine (h.bind fun a => Parses.pure (f a)).congr fun b input => ?_
  constructor
  . rintro ⟨a, front, back, rfl, hfront, rfl, rfl⟩
    exact ⟨a, by rwa [List.append_nil], rfl⟩
  . rintro ⟨a, hinput, rfl⟩
    exact ⟨a, input, [], (List.append_nil input).symm, hinput, rfl, rfl⟩

theorem Parses.ite {p : Prop} [Decidable p] {x y : EStateM ε σ α} {L M : α → List ι → Prop}
    (hx : Parses view x L) (hy : Parses view y M)
    : Parses view (if p then x else y) (if p then L else M) := by
  split
  . exact hx
  . exact hy

def Words (L : α → List ι → Prop) (as : List α) (input : List ι) : Prop :=
  ∃ words, List.Forall₂ L as words ∧ input = words.flatten

theorem words_nil {L : α → List ι → Prop} {input : List ι} : Words L [] input ↔ input = [] := by
  constructor
  . rintro ⟨words, hwords, rfl⟩
    cases hwords
    rfl
  . rintro rfl
    exact ⟨[], .nil, rfl⟩

theorem words_cons {L : α → List ι → Prop} {a : α} {as : List α} {input : List ι}
    : Words L (a :: as) input
        ↔ ∃ front back, input = front ++ back ∧ L a front ∧ Words L as back := by
  constructor
  . rintro ⟨words, hwords, rfl⟩
    cases hwords with
    | cons h hrest => exact ⟨_, _, List.flatten_cons, h, _, hrest, rfl⟩
  . rintro ⟨front, back, rfl, h, words, hwords, rfl⟩
    exact ⟨front :: words, .cons h hwords, List.flatten_cons.symm⟩

theorem Parses.listM {x : EStateM ε σ α} {L : α → List ι → Prop} (hx : Parses view x L) (n : Nat)
    : Parses view (listM n x) (fun as input => as.length = n ∧ Words L as input) := by
  induction n with
  | zero =>
    refine (Parses.pure []).congr fun as input => ?_
    rw [List.length_eq_zero_iff]
    constructor
    . rintro ⟨rfl, rfl⟩
      exact ⟨rfl, words_nil.mpr rfl⟩
    . rintro ⟨rfl, hwords⟩
      exact ⟨rfl, words_nil.mp hwords⟩
  | succ n ih =>
    refine (hx.bind fun a => ih.bind fun as => Parses.pure (a :: as)).congr fun as input => ?_
    constructor
    . rintro ⟨a, front, back, rfl, hfront, as', middle, rest, rfl, ⟨hlen, hwords⟩, rfl, rfl⟩
      rw [List.append_nil]
      exact ⟨by rw [List.length_cons, hlen], words_cons.mpr ⟨front, middle, rfl, hfront, hwords⟩⟩
    . rintro ⟨hlen, hwords⟩
      cases as with
      | nil => cases hlen
      | cons a as =>
        rcases words_cons.mp hwords with ⟨front, back, rfl, hfront, hback⟩
        exact ⟨a, front, back, rfl, hfront, as, back, [], (List.append_nil back).symm,
          ⟨Nat.succ.inj hlen, hback⟩, rfl, rfl⟩

theorem Words.length_ge {L : α → List ι → Prop} {k : Nat} (h : ∀ a word, L a word → k ≤ word.length)
    {as : List α} {input : List ι} (hwords : Words L as input) : k * as.length ≤ input.length := by
  rcases hwords with ⟨words, hwords, rfl⟩
  induction hwords with
  | nil => exact Nat.zero_le _
  | cons hword _ ih =>
    have := h _ _ hword
    rw [List.flatten_cons, List.length_append, List.length_cons, Nat.mul_succ]
    omega

def Agrees (x : EStateM ε σ α) (y : EStateM ε' σ α) : Prop :=
  ∀ s a s', x s = .ok a s' → y s = .ok a s'

theorem Agrees.pure (a : α) : Agrees (pure a : EStateM ε σ α) (pure a : EStateM ε' σ α) := by
  intro s b s' hrun
  rw [pure_apply, EStateM.Result.ok.injEq] at hrun ⊢
  exact hrun

theorem Agrees.bind {x : EStateM ε σ α} {y : EStateM ε' σ α} {f : α → EStateM ε σ β}
    {g : α → EStateM ε' σ β} (h : Agrees x y) (hf : ∀ a, Agrees (f a) (g a))
    : Agrees (x >>= f) (y >>= g) := by
  intro s b s' hrun
  rcases bind_eq_ok.mp hrun with ⟨a, t, hfirst, hsecond⟩
  rw [bind_of_ok (h s a t hfirst)]
  exact hf a t b s' hsecond

theorem Agrees.listM {x : EStateM ε σ α} {y : EStateM ε' σ α} (h : Agrees x y) (n : Nat)
    : Agrees (listM n x) (listM n y) := by
  induction n with
  | zero => exact Agrees.pure []
  | succ n ih => exact h.bind fun a => ih.bind fun as => Agrees.pure (a :: as)

end Reader

end McStatus
