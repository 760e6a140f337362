import Mathlib.Data.List.Basic

/-!
This module contains machines that answer one call after another. What relates two machines at each
call relates their runs.
-/

namespace McStatus

namespace Machine

variable {σ τ ι ο β : Type}

def run (step : ι → σ → ο × σ) (calls : List ι) (s : σ) : List ο × σ :=
  match calls with
  | [] => ([], s)
  | call :: calls =>
    let (answer, s') := step call s
    let (answers, s'') := run step calls s'
    (answer :: answers, s'')

variable {step : ι → σ → ο × σ} {step' : ι → τ → ο × τ}

theorem run_cons (call : ι) (calls : List ι) (s : σ)
    : run step (call :: calls) s
        = ((step call s).1 :: (run step calls (step call s).2).1,
          (run step calls (step call s).2).2) :=
  rfl

theorem run_append (calls calls' : List ι) (s : σ)
    : run step (calls ++ calls') s
        = ((run step calls s).1 ++ (run step calls' (run step calls s).2).1,
          (run step calls' (run step calls s).2).2) := by
  induction calls generalizing s with
  | nil => rfl
  | cons call calls ih => rw [List.cons_append, run_cons, ih, run_cons, List.cons_append]

theorem length_run (calls : List ι) (s : σ) : (run step calls s).1.length = calls.length := by
  induction calls generalizing s with
  | nil => rfl
  | cons call calls ih => rw [run_cons, List.length_cons, ih, List.length_cons]

/-- `abs` maps the steps of one machine to the steps of the other. -/
def Refines (step : ι → σ → ο × σ) (step' : ι → τ → ο × τ) (abs : σ → τ) : Prop :=
  ∀ call s, (step call s).1 = (step' call (abs s)).1 ∧ abs (step call s).2 = (step' call (abs s)).2

theorem Refines.run {abs : σ → τ} (h : Refines step step' abs) (calls : List ι) (s : σ)
    : (run step calls s).1 = (run step' calls (abs s)).1
        ∧ abs (run step calls s).2 = (run step' calls (abs s)).2 := by
  induction calls generalizing s with
  | nil => exact ⟨rfl, rfl⟩
  | cons call calls ih =>
    rcases h call s with ⟨hanswer, hnext⟩
    rcases ih (step call s).2 with ⟨hanswers, hlast⟩
    rw [hnext] at hanswers hlast
    rw [run_cons, run_cons]
    exact ⟨by rw [hanswer, hanswers], hlast⟩

def taken (took : ι → ο → List β) (calls : List ι) (answers : List ο) : List β :=
  (List.zipWith took calls answers).flatten

theorem taken_cons (took : ι → ο → List β) (call : ι) (calls : List ι) (answer : ο)
    (answers : List ο)
    : taken took (call :: calls) (answer :: answers)
        = took call answer ++ taken took calls answers := by
  rw [taken, List.zipWith_cons_cons, List.flatten_cons]
  rfl

theorem run_conserves {held : σ → List β} {put : ι → List β} {took : ι → ο → List β}
    (h : ∀ call s, held s ++ put call = took call (step call s).1 ++ held (step call s).2)
    (calls : List ι) (s : σ)
    : held s ++ calls.flatMap put
        = taken took calls (run step calls s).1 ++ held (run step calls s).2 := by
  induction calls generalizing s with
  | nil => exact List.append_nil _
  | cons call calls ih =>
    rw [run_cons, taken_cons, List.flatMap_cons, ← List.append_assoc, h call s, List.append_assoc,
      ih, List.append_assoc]

end Machine

end McStatus
