import Tinker.Lib.Exec

/-!
# Runs of a guarded step function

A system is a step function that may fail to return, together with a guard: the
steps that its environment, or a stated side condition, admits in a state. A run
is a finite sequence of admitted steps that all returned.

Safety statements about runs are all proved the same way: an invariant holds at
the start and every admitted step that returns keeps it.

## Main results

* `Run.invariant` — the induction rule for invariants of runs
* `Run.foldl_view` — what is seen of a run is a run of its own
* `Run.mono` — weakening the guard keeps the run
* `Run.guard_iff` — guards that agree wherever an invariant holds have the same runs
* `Run.snoc` — extending a run at its end
* `exists_run_of_replay` — a concrete run, found by carrying it out
-/

namespace Tinker.Lib

variable {σ α : Type}

/-- `Run step guard s as t`: starting in `s`, the steps `as` are admitted one after
the other, each returns, and the last one leaves `t`. -/
inductive Run (step : σ → α → Exec σ) (guard : σ → α → Prop) : σ → List α → σ → Prop
  | nil (s : σ) : Run step guard s [] s
  | cons {s u t : σ} {a : α} {as : List α} :
      guard s a → step s a = .ok u → Run step guard u as t → Run step guard s (a :: as) t

namespace Run

variable {step : σ → α → Exec σ} {guard guard' : σ → α → Prop} {s t u : σ} {a : α}
  {as bs : List α}

/-- What holds at the start and is kept by every admitted step holds at the end
of every run. -/
theorem invariant {inv : σ → Prop} (run : Run step guard s as t) (start : inv s)
    (keep : ∀ s a u, inv s → guard s a → step s a = .ok u → inv u) : inv t := by
  induction run with
  | nil s => exact start
  | cons hguard hstep _ ih => exact ih (keep _ _ _ start hguard hstep)

/-- What is seen of the states follows steps of its own, if it does so at every admitted step. -/
theorem foldl_view {τ : Type} {inv : σ → Prop} {view : σ → τ} {next : τ → α → τ}
    (run : Run step guard s as t) (start : inv s)
    (keep : ∀ s a u, inv s → guard s a → step s a = .ok u → inv u ∧ view u = next (view s) a) :
    view t = as.foldl next (view s) := by
  induction run with
  | nil s => rfl
  | cons hguard hstep _ ih =>
    obtain ⟨hinv, hview⟩ := keep _ _ _ start hguard hstep
    rw [ih hinv, hview, List.foldl_cons]

theorem mono (run : Run step guard s as t) (weaker : ∀ s a, guard s a → guard' s a) :
    Run step guard' s as t := by
  induction run with
  | nil s => exact .nil s
  | cons hguard hstep _ ih => exact .cons (weaker _ _ hguard) hstep ih

/-- Two guards that agree wherever an invariant holds admit the same runs, if the steps that
they admit keep the invariant. -/
theorem guard_iff {inv : σ → Prop} (start : inv s)
    (agree : ∀ s a u, inv s → step s a = .ok u → (guard s a ↔ guard' s a))
    (keep : ∀ s a u, inv s → guard s a → step s a = .ok u → inv u) :
    Run step guard s as t ↔ Run step guard' s as t := by
  constructor
  · intro run
    induction run with
    | nil s => exact .nil s
    | cons hguard hstep _ ih =>
      exact .cons ((agree _ _ _ start hstep).mp hguard) hstep (ih (keep _ _ _ start hguard hstep))
  intro run
  induction run with
  | nil s => exact .nil s
  | cons hguard hstep _ ih =>
    have hguard := (agree _ _ _ start hstep).mpr hguard
    exact .cons hguard hstep (ih (keep _ _ _ start hguard hstep))

theorem append (first : Run step guard s as t) (second : Run step guard t bs u) :
    Run step guard s (as ++ bs) u := by
  induction first with
  | nil s => exact second
  | cons hguard hstep _ ih => exact .cons hguard hstep (ih second)

theorem snoc (run : Run step guard s as t) (hguard : guard t a) (hstep : step t a = .ok u) :
    Run step guard s (as ++ [a]) u :=
  run.append (.cons hguard hstep (.nil u))

end Run

/-! ## Replaying a list of steps -/

section Replay

variable (step : σ → α → Exec σ) (guard : σ → α → Prop) [∀ s a, Decidable (guard s a)]

/-- Carry out the steps one after the other, as long as they are admitted and return. -/
def replay : σ → List α → Option σ
  | s, [] => some s
  | s, a :: as =>
    if guard s a then
      match step s a with
      | .ok u => replay u as
      | .error _ => none
    else none

variable {step guard}

theorem run_of_replay {s t : σ} {as : List α} (h : replay step guard s as = some t) :
    Run step guard s as t := by
  induction as generalizing s with
  | nil =>
    obtain rfl : s = t := Option.some.inj h
    exact .nil s
  | cons a as ih =>
    unfold replay at h
    split at h
    next hguard =>
      split at h
      next u hstep => exact .cons hguard hstep (ih h)
      · cases h
    · cases h

/-- A run whose last state has a property, found by carrying it out. -/
theorem exists_run_of_replay (step : σ → α → Exec σ) (guard : σ → α → Prop)
    [∀ s a, Decidable (guard s a)] (s : σ) (as : List α) (p : σ → Bool)
    (h : (replay step guard s as).any p = true) :
    ∃ t, Run step guard s as t ∧ p t = true := by
  cases hreplay : replay step guard s as with
  | none => simp [hreplay] at h
  | some t => exact ⟨t, run_of_replay hreplay, by simpa [hreplay] using h⟩

theorem exists_run_from (start : Exec σ) (step : σ → α → Exec σ) (guard : σ → α → Prop)
    [∀ s a, Decidable (guard s a)] (as : List α) (p : σ → Bool)
    (h : (start.toOption.any fun s => (replay step guard s as).any p) = true) :
    ∃ s t, start = .ok s ∧ Run step guard s as t ∧ p t = true := by
  obtain ⟨s, hstart, hrun⟩ := Exec.exists_of_any h
  obtain ⟨t, run, ht⟩ := exists_run_of_replay step guard s as p hrun
  exact ⟨s, t, hstart, run, ht⟩

/-- A run whose last state has a property `P`, for statements that name the steps: what else they
say about the run follows from `P`. -/
theorem exists_run_and {step : σ → α → Exec σ} {guard : σ → α → Prop}
    [∀ s a, Decidable (guard s a)] {s : σ} {as : List α} {Q : σ → Prop} (P : σ → Prop)
    [DecidablePred P] (h : (replay step guard s as).any (fun t => decide (P t)) = true)
    (himp : ∀ t, Run step guard s as t → P t → Q t) : ∃ t, Run step guard s as t ∧ Q t := by
  obtain ⟨t, run, ht⟩ := exists_run_of_replay step guard s as _ h
  exact ⟨t, run, himp t run (of_decide_eq_true ht)⟩

theorem exists_run_from_and {start : Exec σ} {step : σ → α → Exec σ} {guard : σ → α → Prop}
    [∀ s a, Decidable (guard s a)] {as : List α} {Q : σ → σ → Prop} (P : σ → Prop)
    [DecidablePred P]
    (h : (start.toOption.any fun s => (replay step guard s as).any fun t => decide (P t)) = true)
    (himp : ∀ s t, start = .ok s → Run step guard s as t → P t → Q s t) :
    ∃ s t, start = .ok s ∧ Run step guard s as t ∧ Q s t := by
  obtain ⟨s, t, hstart, run, ht⟩ := exists_run_from start step guard as _ h
  exact ⟨s, t, hstart, run, himp s t hstart run (of_decide_eq_true ht)⟩

end Replay

end Tinker.Lib
