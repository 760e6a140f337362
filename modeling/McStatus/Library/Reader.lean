import Mathlib.Algebra.Ring.Int.Defs
import Mathlib.Algebra.Ring.Nat
import Mathlib.Data.List.Basic

/-!
This module contains computations that read from an input and can fail. What is left of the input
is a view of the state, and an error leaves the state it was raised in.
-/

namespace McStatus

namespace Reader

variable {ε σ τ ι α β : Type}

@[simp]
theorem pure_apply (a : α) (s : σ) : (pure a : EStateM ε σ α) s = .ok a s := rfl

@[simp]
theorem throw_apply (e : ε) (s : σ) : (throw e : EStateM ε σ α) s = .error e s := rfl

@[simp]
theorem get_apply (s : σ) : (get : EStateM ε σ σ) s = .ok s s := rfl

@[simp]
theorem set_apply (s t : σ) : (set t : EStateM ε σ PUnit) s = .ok ⟨⟩ t := rfl

@[simp]
theorem modify_apply (f : σ → σ) (s : σ) : (modify f : EStateM ε σ PUnit) s = .ok ⟨⟩ (f s) := rfl

section Bind

variable {x : EStateM ε σ α} {f : α → EStateM ε σ β} {s t : σ} {a : α} {b : β} {e : ε}

theorem bind_of_ok (h : x s = .ok a t) : (x >>= f) s = f a t := by
  simp only [bind, EStateM.bind, h]

theorem bind_of_error (h : x s = .error e t) : (x >>= f) s = .error e t := by
  simp only [bind, EStateM.bind, h]

theorem bind_eq_ok : (x >>= f) s = .ok b t ↔ ∃ a u, x s = .ok a u ∧ f a u = .ok b t := by
  simp only [bind, EStateM.bind]
  cases x s <;> simp

theorem tryCatch_of_ok {handle : ε → EStateM ε σ α} (h : x s = .ok a t)
    : tryCatch x handle s = .ok a t := by
  simp only [tryCatch, tryCatchThe, MonadExceptOf.tryCatch, EStateM.tryCatch, h]

theorem tryCatch_of_error {handle : ε → EStateM ε σ α} (h : x s = .error e t)
    : tryCatch x handle s = handle e t := by
  simp only [tryCatch, tryCatchThe, MonadExceptOf.tryCatch, EStateM.tryCatch, h]
  rfl

end Bind

section Adapt

variable {ε' : Type} {x : EStateM ε σ α} {f : ε → ε'} {s t : σ} {a : α} {e : ε}

theorem adaptExcept_of_ok (h : x s = .ok a t) : EStateM.adaptExcept f x s = .ok a t := by
  rw [EStateM.adaptExcept, h]

theorem adaptExcept_of_error (h : x s = .error e t)
    : EStateM.adaptExcept f x s = .error (f e) t := by
  rw [EStateM.adaptExcept, h]

theorem adaptExcept_eq_ok (h : EStateM.adaptExcept f x s = .ok a t) : x s = .ok a t := by
  rw [EStateM.adaptExcept] at h
  cases hrun : x s with
  | ok b u =>
    rw [hrun] at h
    cases h
    rfl
  | error e u =>
    rw [hrun] at h
    cases h

end Adapt

def zoom (get : τ → σ) (set : τ → σ → τ) (x : EStateM ε σ α) : EStateM ε τ α := fun t =>
  match x (get t) with
  | .ok a s => .ok a (set t s)
  | .error e s => .error e (set t s)

/--
Run `step` until it leaves the loop: `.inl` goes round again, `.inr` breaks with a result. Every
iteration that goes round again makes the state smaller.
-/
def loop (μ : σ → Nat) (step : α → EStateM ε σ (α ⊕ β))
    (hstep : ∀ a a' s s', step a s = .ok (.inl a') s' → μ s' < μ s) (a : α) : EStateM ε σ β :=
  go a
where
  go (a : α) (s : σ) : EStateM.Result ε σ β :=
    match h : step a s with
    | .error e s' => .error e s'
    | .ok (.inr b) s' => .ok b s'
    | .ok (.inl a') s' =>
      have := hstep a a' s s' h
      go a' s'
  termination_by μ s

section Loop

variable {μ : σ → Nat} {step : α → EStateM ε σ (α ⊕ β)}
variable {hstep : ∀ a a' s s', step a s = .ok (.inl a') s' → μ s' < μ s}
variable {s s' : σ} {a a' : α} {b : β} {e : ε}

theorem loop_break (h : step a s = .ok (.inr b) s') : loop μ step hstep a s = .ok b s' := by
  rw [loop, loop.go]
  split
  . next heq => simp [h] at heq
  . next heq => simpa [h] using heq.symm
  . next heq => simp [h] at heq

theorem loop_throw (h : step a s = .error e s') : loop μ step hstep a s = .error e s' := by
  rw [loop, loop.go]
  split
  . next heq => simpa [h] using heq.symm
  . next heq => simp [h] at heq
  . next heq => simp [h] at heq

theorem loop_continue (h : step a s = .ok (.inl a') s')
    : loop μ step hstep a s = loop μ step hstep a' s' := by
  conv => lhs; rw [loop, loop.go]
  split
  . next heq => simp [h] at heq
  . next heq => simp [h] at heq
  . next heq =>
    rw [h, EStateM.Result.ok.injEq, Sum.inl.injEq] at heq
    rw [heq.1, heq.2]
    rfl

theorem loop_eq_bind (a : α)
    : loop μ step hstep a = step a >>= Sum.elim (loop μ step hstep) pure := by
  funext s
  match hs : step a s with
  | .error e t => rw [loop_throw hs, bind_of_error hs]
  | .ok (.inr b) t =>
    rw [loop_break hs, bind_of_ok hs]
    rfl
  | .ok (.inl a') t =>
    rw [loop_continue hs, bind_of_ok hs]
    rfl

theorem loop_ok (I : α → σ → Prop) (P : β → σ → Prop)
    (hbreak : ∀ a s b s', I a s → step a s = .ok (.inr b) s' → P b s')
    (hcont : ∀ a s a' s', I a s → step a s = .ok (.inl a') s' → I a' s')
    (hI : I a s) (h : loop μ step hstep a s = .ok b s') : P b s' := by
  induction hn : μ s using Nat.strongRecOn generalizing a s with
  | ind n ih =>
    match hs : step a s with
    | .error e t =>
      rw [loop_throw hs] at h
      simp at h
    | .ok (.inr b') t =>
      rw [loop_break hs, EStateM.Result.ok.injEq] at h
      rcases h with ⟨rfl, rfl⟩
      exact hbreak a s b' t hI hs
    | .ok (.inl a') t =>
      rw [loop_continue hs] at h
      have hlt := hstep a a' s t hs
      exact ih (μ t) (by omega) (hcont a s a' t hI hs) h rfl

end Loop

def timesM (n : Nat) (x : EStateM ε σ PUnit) : EStateM ε σ PUnit :=
  match n with
  | 0 => pure ⟨⟩
  | n + 1 => do
    x
    timesM n x

def listM (n : Nat) (x : EStateM ε σ α) : EStateM ε σ (List α) :=
  match n with
  | 0 => pure []
  | n + 1 => do
    let a ← x
    let as ← listM n x
    return a :: as

theorem listM_succ_eq_ok {x : EStateM ε σ α} {n : Nat} {s s' : σ} {as : List α}
    (h : listM (n + 1) x s = .ok as s')
    : ∃ a as' t, x s = .ok a t ∧ listM n x t = .ok as' s' ∧ as = a :: as' := by
  rcases bind_eq_ok.mp h with ⟨a, t, hx, h⟩
  rcases bind_eq_ok.mp h with ⟨as', u, hlist, h⟩
  rw [pure_apply, EStateM.Result.ok.injEq] at h
  rcases h with ⟨rfl, rfl⟩
  exact ⟨a, as', t, hx, hlist, rfl⟩

theorem length_of_listM {x : EStateM ε σ α} {n : Nat} {s s' : σ} {as : List α}
    (h : listM n x s = .ok as s') : as.length = n := by
  induction n generalizing s as with
  | zero =>
    rw [listM, pure_apply, EStateM.Result.ok.injEq] at h
    rw [← h.1, List.length_nil]
  | succ n ih =>
    rcases listM_succ_eq_ok h with ⟨a, as', t, -, hlist, rfl⟩
    rw [List.length_cons, ih hlist]

section Input

variable (view : σ → List ι) (eof : ε → Prop)

/-- `x` takes `input` off whatever it is followed by, and returns `a`. -/
def Consumes (x : EStateM ε σ α) (input : List ι) (a : α) : Prop :=
  ∀ s rest, view s = input ++ rest → ∃ s', x s = .ok a s' ∧ view s' = rest

/-- `x` runs out of input when there is only a part of `input`. -/
def RunsOut (x : EStateM ε σ α) (input : List ι) : Prop :=
  ∀ s, view s <+: input → view s ≠ input → ∃ e s', x s = .error e s' ∧ eof e

/-- Whenever `x` returns, what it read determines the result and cannot be cut off unnoticed. -/
def Delimited (x : EStateM ε σ α) : Prop :=
  ∀ s a s', x s = .ok a s' →
    ∃ input, view s = input ++ view s' ∧ Consumes view x input a ∧ RunsOut view eof x input

variable {view eof}

theorem Consumes.pure (a : α) : Consumes view (pure a : EStateM ε σ α) [] a := by
  intro s rest h
  exact ⟨s, rfl, h⟩

theorem Consumes.bind {x : EStateM ε σ α} {f : α → EStateM ε σ β} {input input' : List ι} {a : α}
    {b : β} (hx : Consumes view x input a) (hf : Consumes view (f a) input' b)
    : Consumes view (x >>= f) (input ++ input') b := by
  intro s rest h
  rw [List.append_assoc] at h
  rcases hx s _ h with ⟨t, ht, hview⟩
  rw [bind_of_ok ht]
  exact hf t rest hview

theorem Consumes.bind_nil {x : EStateM ε σ α} {f : α → EStateM ε σ β} {input : List ι} {a : α}
    {b : β} (hx : Consumes view x [] a) (hf : Consumes view (f a) input b)
    : Consumes view (x >>= f) input b :=
  hx.bind hf

theorem Consumes.bind_done {x : EStateM ε σ α} {f : α → EStateM ε σ β} {input : List ι} {a : α}
    {b : β} (hx : Consumes view x input a) (hf : Consumes view (f a) [] b)
    : Consumes view (x >>= f) input b := by
  have := hx.bind hf
  rwa [List.append_nil] at this

theorem Consumes.listM {γ : Type} {x : EStateM ε σ α} {encode : γ → List ι} {decode : γ → α}
    {cs : List γ} (h : ∀ c ∈ cs, Consumes view x (encode c) (decode c))
    : Consumes view (listM cs.length x) (cs.flatMap encode) (cs.map decode) := by
  induction cs with
  | nil => exact Consumes.pure []
  | cons c cs ih =>
    rw [List.flatMap_cons]
    refine (h c List.mem_cons_self).bind ?_
    refine (ih fun c hc => h c (List.mem_cons_of_mem _ hc)).bind_done ?_
    exact Consumes.pure _

theorem RunsOut.nil (x : EStateM ε σ α) : RunsOut view eof x [] := by
  intro s hpart hne
  exact absurd (List.prefix_nil.mp hpart) hne

theorem RunsOut.bind {x : EStateM ε σ α} {f : α → EStateM ε σ β} {input input' : List ι} {a : α}
    (hx : Consumes view x input a) (hout : RunsOut view eof x input)
    (hf : RunsOut view eof (f a) input') : RunsOut view eof (x >>= f) (input ++ input') := by
  intro s hpart hne
  rcases hpart with ⟨missing, hsplit⟩
  rcases List.append_eq_append_iff.mp hsplit with ⟨tail, hinput, -⟩ | ⟨part, hview, hinput'⟩
  . by_cases hall : tail = []
    . rw [hall, List.append_nil] at hinput
      rcases hx s [] (by simp [hinput]) with ⟨t, ht, hview⟩
      rw [bind_of_ok ht]
      apply hf t
      . simp [hview]
      . intro hnil
        rw [hview] at hnil
        exact hne (by rw [hinput, ← hnil, List.append_nil])
    . have hlt : view s ≠ input := by
        intro heq
        rw [heq] at hinput
        exact hall (by simpa using hinput)
      rcases hout s ⟨tail, hinput.symm⟩ hlt with ⟨e, t, ht, he⟩
      exact ⟨e, t, bind_of_error ht, he⟩
  . rcases hx s part hview with ⟨t, ht, hrest⟩
    rw [bind_of_ok ht]
    apply hf t
    . rw [hrest]
      exact ⟨missing, hinput'.symm⟩
    . intro heq
      rw [hrest] at heq
      exact hne (by rw [hview, heq])

theorem Delimited.runsOut {x : EStateM ε σ α} {input : List ι} {a : α} {s : σ}
    (h : Delimited view eof x) (hx : Consumes view x input a) (hview : view s = input)
    : RunsOut view eof x input := by
  rcases hx s [] (by rw [hview, List.append_nil]) with ⟨s', hs', hrest⟩
  rcases h s a s' hs' with ⟨input', hinput, -, hout⟩
  rw [hview, hrest, List.append_nil] at hinput
  rw [hinput]
  exact hout

theorem Delimited.pure (a : α) : Delimited view eof (pure a : EStateM ε σ α) := by
  intro s b s' h
  rw [pure_apply, EStateM.Result.ok.injEq] at h
  rcases h with ⟨rfl, rfl⟩
  exact ⟨[], rfl, Consumes.pure a, RunsOut.nil _⟩

theorem Delimited.throw (e : ε) : Delimited view eof (throw e : EStateM ε σ α) := by
  intro s b s' h
  simp at h

theorem Delimited.bind {x : EStateM ε σ α} {f : α → EStateM ε σ β} (hx : Delimited view eof x)
    (hf : ∀ a, Delimited view eof (f a)) : Delimited view eof (x >>= f) := by
  intro s b s' h
  rcases bind_eq_ok.mp h with ⟨a, t, ht, hrun⟩
  rcases hx s a t ht with ⟨input, hview, hconsumes, hout⟩
  rcases hf a t b s' hrun with ⟨input', hview', hconsumes', hout'⟩
  refine ⟨input ++ input', ?_, hconsumes.bind hconsumes', RunsOut.bind hconsumes hout hout'⟩
  rw [hview, hview', List.append_assoc]

theorem Delimited.ite {p : Prop} [Decidable p] {x y : EStateM ε σ α} (hx : Delimited view eof x)
    (hy : Delimited view eof y) : Delimited view eof (if p then x else y) := by
  split
  . exact hx
  . exact hy

theorem Delimited.listM {x : EStateM ε σ α} (hx : Delimited view eof x) (n : Nat)
    : Delimited view eof (listM n x) := by
  induction n with
  | zero => exact Delimited.pure []
  | succ n ih => exact Delimited.bind hx fun _ => Delimited.bind ih fun _ => Delimited.pure _

section Loop

variable {μ : σ → Nat} {step : α → EStateM ε σ (α ⊕ β)}
variable {hstep : ∀ a a' s s', step a s = .ok (.inl a') s' → μ s' < μ s}

theorem Consumes.loop_break {input : List ι} {a : α} {b : β}
    (h : Consumes view (step a) input (.inr b)) : Consumes view (loop μ step hstep a) input b := by
  intro s rest hview
  rcases h s rest hview with ⟨s', hs, hview'⟩
  exact ⟨s', Reader.loop_break hs, hview'⟩

theorem Consumes.loop_continue {input input' : List ι} {a a' : α} {b : β}
    (h : Consumes view (step a) input (.inl a'))
    (hloop : Consumes view (loop μ step hstep a') input' b)
    : Consumes view (loop μ step hstep a) (input ++ input') b := by
  intro s rest hview
  rw [List.append_assoc] at hview
  rcases h s _ hview with ⟨t, ht, hview'⟩
  rcases hloop t rest hview' with ⟨s', hs', hview''⟩
  exact ⟨s', (Reader.loop_continue ht).trans hs', hview''⟩

theorem Delimited.loop (h : ∀ a, Delimited view eof (step a)) (a : α)
    : Delimited view eof (loop μ step hstep a) := by
  intro s b s' hloop
  induction hn : μ s using Nat.strongRecOn generalizing a s with
  | ind n ih =>
    match hs : step a s with
    | .error e t =>
      rw [loop_throw hs] at hloop
      cases hloop
    | .ok (.inr b') t =>
      rw [Reader.loop_break hs, EStateM.Result.ok.injEq] at hloop
      rcases hloop with ⟨rfl, rfl⟩
      rcases h a s _ t hs with ⟨input, hview, hconsumes, hout⟩
      refine ⟨input, hview, hconsumes.loop_break, ?_⟩
      intro u hpart hne
      rcases hout u hpart hne with ⟨e, u', herror, he⟩
      exact ⟨e, u', loop_throw herror, he⟩
    | .ok (.inl a') t =>
      have hlt := hstep a a' s t hs
      rw [Reader.loop_continue hs] at hloop
      rcases ih (μ t) (by omega) a' t hloop rfl with ⟨input', hview', hconsumes', hout'⟩
      rcases h a s _ t hs with ⟨input, hview, hconsumes, hout⟩
      refine ⟨input ++ input', ?_, hconsumes.loop_continue hconsumes', ?_⟩
      . rw [hview, hview', List.append_assoc]
      . rw [loop_eq_bind]
        exact RunsOut.bind hconsumes hout hout'

end Loop

end Input

end Reader

end McStatus
