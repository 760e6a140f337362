import McStatus.Library.Reader
import Mathlib.Order.Basic

/-!
This module contains computations that read an input and add to a log on the way, and what is in
the log when the input is cut off.
-/

namespace McStatus

namespace Reader

variable {ε σ τ ι ω α β : Type}

section Logged

variable (view : σ → List ι) (log : σ → ω) (eof : ε → Prop)

/--
From the log `l` on, `x` takes `input` off whatever it is followed by and leaves the log `l'`.
-/
def Logs (x : EStateM ε σ α) (input : List ι) (a : α) (l l' : ω) : Prop :=
  ∀ s rest, log s = l → view s = input ++ rest →
    ∃ s', x s = .ok a s' ∧ log s' = l' ∧ view s' = rest

variable [Preorder ω]

/-- When there is only a part of `input`, `x` runs out of input with a log between `l` and `l'`. -/
def StopsBetween (x : EStateM ε σ α) (input : List ι) (l l' : ω) : Prop :=
  ∀ s, log s = l → view s <+: input → view s ≠ input →
    ∃ e s', x s = .error e s' ∧ eof e ∧ l ≤ log s' ∧ log s' ≤ l'

/-- Whenever `x` returns, what it read determines the log, and a part of it a part of the log. -/
def Logged (x : EStateM ε σ α) : Prop :=
  ∀ s a s', x s = .ok a s' →
    ∃ input, view s = input ++ view s' ∧ log s ≤ log s'
      ∧ Logs view log x input a (log s) (log s')
      ∧ StopsBetween view log eof x input (log s) (log s')

variable {view log eof}

omit [Preorder ω] in
theorem Logs.bind {x : EStateM ε σ α} {f : α → EStateM ε σ β} {input input' : List ι} {a : α}
    {b : β} {l l' l'' : ω} (hx : Logs view log x input a l l')
    (hf : Logs view log (f a) input' b l' l'')
    : Logs view log (x >>= f) (input ++ input') b l l'' := by
  intro s rest hlog hview
  rw [List.append_assoc] at hview
  rcases hx s _ hlog hview with ⟨t, ht, hlog', hview'⟩
  rw [bind_of_ok ht]
  exact hf t rest hlog' hview'

theorem Logged.pure (a : α) : Logged view log eof (pure a : EStateM ε σ α) := by
  intro s b s' h
  rw [pure_apply, EStateM.Result.ok.injEq] at h
  rcases h with ⟨rfl, rfl⟩
  refine ⟨[], rfl, le_refl _, ?_, ?_⟩
  . intro t rest hlog hview
    exact ⟨t, rfl, hlog, hview⟩
  . intro t _ hpart hne
    exact absurd (List.prefix_nil.mp hpart) hne

theorem Logged.modify {f : σ → σ} (hview : ∀ s, view (f s) = view s)
    (hle : ∀ s, log s ≤ log (f s)) (hlog : ∀ s t, log s = log t → log (f s) = log (f t))
    : Logged view log eof (modify f : EStateM ε σ PUnit) := by
  intro s u s' h
  rw [modify_apply, EStateM.Result.ok.injEq] at h
  rcases h with ⟨-, rfl⟩
  refine ⟨[], (hview s).symm, hle s, ?_, ?_⟩
  . intro t rest hsame hrest
    exact ⟨f t, rfl, hlog t s hsame, (hview t).trans hrest⟩
  . intro t _ hpart hne
    exact absurd (List.prefix_nil.mp hpart) hne

theorem StopsBetween.bind {x : EStateM ε σ α} {f : α → EStateM ε σ β} {input input' : List ι}
    {a : α} {l l' l'' : ω} (hle : l ≤ l') (hle' : l' ≤ l'') (hx : Logs view log x input a l l')
    (hout : StopsBetween view log eof x input l l')
    (hf : StopsBetween view log eof (f a) input' l' l'')
    : StopsBetween view log eof (x >>= f) (input ++ input') l l'' := by
  intro s hlog hpart hne
  rcases Nat.lt_or_ge (view s).length input.length with hlt | hge
  . -- cut off in the first part
    have hpart' : view s <+: input :=
      List.prefix_of_prefix_length_le hpart (List.prefix_append _ _) (Nat.le_of_lt hlt)
    have hne' : view s ≠ input := by
      intro heq
      rw [heq] at hlt
      exact Nat.lt_irrefl _ hlt
    rcases hout s hlog hpart' hne' with ⟨e, t, ht, he, hl, hl'⟩
    exact ⟨e, t, bind_of_error ht, he, hl, le_trans hl' hle'⟩
  . -- cut off in the second part
    rcases List.prefix_of_prefix_length_le (List.prefix_append _ _) hpart hge with ⟨rest, hview⟩
    rcases hx s rest hlog hview.symm with ⟨t, ht, hlog', hrest⟩
    rw [← hview] at hpart hne
    have hpart' : view t <+: input' := by
      rw [hrest]
      exact (List.prefix_append_right_inj _).mp hpart
    have hne' : view t ≠ input' := by
      rw [hrest]
      rintro rfl
      exact hne rfl
    rcases hf t hlog' hpart' hne' with ⟨e, u, hu, he, hl, hl'⟩
    refine ⟨e, u, ?_, he, le_trans hle hl, hl'⟩
    rw [bind_of_ok ht, hu]

theorem Logged.bind {x : EStateM ε σ α} {f : α → EStateM ε σ β} (hx : Logged view log eof x)
    (hf : ∀ a, Logged view log eof (f a)) : Logged view log eof (x >>= f) := by
  intro s b s' h
  rcases bind_eq_ok.mp h with ⟨a, t, ht, hrun⟩
  rcases hx s a t ht with ⟨input, hview, hle, hlogs, hstops⟩
  rcases hf a t b s' hrun with ⟨input', hview', hle', hlogs', hstops'⟩
  refine ⟨input ++ input', ?_, le_trans hle hle', hlogs.bind hlogs', ?_⟩
  . rw [hview, hview', List.append_assoc]
  . exact StopsBetween.bind hle hle' hlogs hstops hstops'

theorem Logged.timesM {x : EStateM ε σ PUnit} (hx : Logged view log eof x) (n : Nat)
    : Logged view log eof (timesM n x) := by
  induction n with
  | zero => exact Logged.pure _
  | succ n ih => exact Logged.bind hx fun _ => ih

theorem Delimited.logged {view' : τ → List ι} {log : τ → ω} {get : τ → σ} {set : τ → σ → τ}
    {x : EStateM ε σ α} (hx : Delimited view eof x) (hview : ∀ t, view' t = view (get t))
    (hset : ∀ t s, get (set t s) = s) (hlog : ∀ t s, log (set t s) = log t)
    : Logged view' log eof (zoom get set x) := by
  intro t a t' h
  match hrun : x (get t) with
  | .error e s =>
    simp only [zoom, hrun] at h
    cases h
  | .ok b s =>
    simp only [zoom, hrun, EStateM.Result.ok.injEq] at h
    rcases h with ⟨rfl, rfl⟩
    rcases hx _ _ _ hrun with ⟨input, hinput, hconsumes, hout⟩
    refine ⟨input, ?_, ?_, ?_, ?_⟩
    . rw [hview, hview, hset, hinput]
    . rw [hlog]
    . intro u rest hsame hrest
      rw [hview] at hrest
      rcases hconsumes (get u) rest hrest with ⟨s', hs', hview'⟩
      refine ⟨set u s', ?_, ?_, ?_⟩
      . simp only [zoom, hs']
      . rw [hlog, hlog, hsame]
      . rw [hview, hset, hview']
    . intro u hsame hpart hne
      rw [hview] at hpart hne
      rcases hout (get u) hpart hne with ⟨e, s', hs', he⟩
      refine ⟨e, set u s', ?_, he, ?_, ?_⟩
      . simp only [zoom, hs']
      . rw [hlog, hsame]
      . rw [hlog, hlog, hsame]

end Logged

end Reader

end McStatus
