import CommandShell.Shell.Eval

/-!
# `CommandShell.Proofs.Evaluation.Run` — taking runs apart

A run of an evaluation is its moments, its outcome and the shell at its end. This module says how the run
of a sequence of steps is made of the runs of the steps, one equivalence for each step. With them the run
of any evaluation opens into the runs of its parts, and no proof about the evaluator looks into `Eval`
itself.

## Contents
- `Eval.Runs`, with one `runs_` lemma for each step, and the states and notes of a run.
- The laws of the monad, which the library's lemmas on lists of steps ask for.
-/

namespace CommandShell
namespace Eval

variable {σ α β : Type}

/-- The evaluation `x` takes the shell from `s` to `t` through the moments `tr` and has the outcome
    `r`. -/
structure Runs (x : Eval σ α) (s : Shell σ) (tr : List (Moment σ)) (r : Except ShellError α)
    (t : Shell σ) : Prop where
  exec : x.exec s = (r, t)
  trace : x.trace s = tr

/-- Every evaluation has a run from every state, namely its own. -/
theorem runs_self (x : Eval σ α) (s : Shell σ) :
    x.Runs s (x.trace s) (x.exec s).1 (x.exec s).2 :=
  ⟨rfl, rfl⟩

/-- An evaluation has one run from each state. -/
theorem Runs.unique {x : Eval σ α} {s t t' : Shell σ} {tr tr' : List (Moment σ)}
    {r r' : Except ShellError α} (h : x.Runs s tr r t) (h' : x.Runs s tr' r' t') :
    tr = tr' ∧ r = r' ∧ t = t' := by
  have hexec := h.exec.symm.trans h'.exec
  cases hexec
  exact ⟨h.trace.symm.trans h'.trace, rfl, rfl⟩

/-- The notes of a run are those of its moments, each with the state it was made in. -/
theorem mem_notes {x : Eval σ α} {s u : Shell σ} {n : Note σ} :
    (n, u) ∈ x.notes s ↔ ⟨u, some n⟩ ∈ x.trace s := by
  simp only [notes, List.mem_filterMap, Option.map_eq_some_iff, Prod.mk.injEq]
  constructor
  · rintro ⟨⟨v, n?⟩, hm, n', hn, rfl, rfl⟩
    rwa [← hn]
  · intro hm
    exact ⟨_, hm, n, rfl, rfl, rfl⟩

/-- The states of a run are its start, those of its moments and its end. -/
theorem mem_visits {x : Eval σ α} {s u : Shell σ} :
    u ∈ x.visits s ↔ u = s ∨ (∃ m ∈ x.trace s, m.shell = u) ∨ u = (x.exec s).2 := by
  simp [visits]

/-! ## Single steps -/

section Steps

variable {s t : Shell σ} {tr : List (Moment σ)}

theorem runs_done {outcome r : Except ShellError α} :
    (done outcome : Eval σ α).Runs s tr r t ↔ tr = [] ∧ r = outcome ∧ t = s := by
  constructor
  · rintro ⟨hexec, htrace⟩
    cases hexec
    exact ⟨htrace.symm, rfl, rfl⟩
  · rintro ⟨rfl, rfl, rfl⟩
    exact ⟨rfl, rfl⟩

theorem runs_pure {a : α} {r : Except ShellError α} :
    (pure a : Eval σ α).Runs s tr r t ↔ tr = [] ∧ r = .ok a ∧ t = s :=
  runs_done

theorem runs_throw {e : ShellError} {r : Except ShellError α} :
    (throw e : Eval σ α).Runs s tr r t ↔ tr = [] ∧ r = .error e ∧ t = s :=
  runs_done

theorem runs_lift {outcome r : Except ShellError α} :
    (liftM outcome : Eval σ α).Runs s tr r t ↔ tr = [] ∧ r = outcome ∧ t = s :=
  runs_done

theorem runs_modify {f : Shell σ → Shell σ} {r : Except ShellError PUnit} :
    (modify f : Eval σ PUnit).Runs s tr r t ↔ tr = [⟨f s, none⟩] ∧ r = .ok ⟨⟩ ∧ t = f s := by
  constructor
  · rintro ⟨hexec, htrace⟩
    cases hexec
    exact ⟨htrace.symm, rfl, rfl⟩
  · rintro ⟨rfl, rfl, rfl⟩
    exact ⟨rfl, rfl⟩

end Steps

/-! ## Sequences -/

section Sequences

variable {s t : Shell σ} {tr : List (Moment σ)} {x : Eval σ α}

/-- The second part is given the outcome of the first one, whichever it is. -/
theorem runs_andThen {f : Except ShellError α → Eval σ β} {r : Except ShellError β} :
    (x.andThen f).Runs s tr r t ↔
      ∃ tr₁ outcome u tr₂, x.Runs s tr₁ outcome u ∧ (f outcome).Runs u tr₂ r t ∧ tr = tr₁ ++ tr₂ := by
  constructor
  · rintro ⟨hexec, rfl⟩
    exact ⟨_, _, _, _, x.runs_self s, ⟨hexec, rfl⟩, rfl⟩
  · rintro ⟨tr₁, outcome, u, tr₂, ⟨hx, rfl⟩, ⟨hf, rfl⟩, rfl⟩
    exact ⟨by simp [andThen, hx, hf], by simp [andThen, hx]⟩

/-- A sequence runs its second part where the first one ends, unless the first one fails. -/
theorem runs_bind {f : α → Eval σ β} {r : Except ShellError β} :
    (x >>= f).Runs s tr r t ↔
      (∃ tr₁ a u tr₂, x.Runs s tr₁ (.ok a) u ∧ (f a).Runs u tr₂ r t ∧ tr = tr₁ ++ tr₂) ∨
        ∃ e, x.Runs s tr (.error e) t ∧ r = .error e := by
  refine runs_andThen.trans ⟨?_, ?_⟩
  · rintro ⟨tr₁, outcome, u, tr₂, hx, hf, rfl⟩
    cases outcome with
    | ok a => exact .inl ⟨tr₁, a, u, tr₂, hx, hf, rfl⟩
    | error e =>
        -- The second part is the failure itself and adds no moment of its own.
        obtain ⟨rfl, rfl, rfl⟩ := runs_done.mp hf
        exact .inr ⟨e, by simpa using hx, rfl⟩
  · rintro (⟨tr₁, a, u, tr₂, hx, hf, rfl⟩ | ⟨e, hx, rfl⟩)
    · exact ⟨tr₁, .ok a, u, tr₂, hx, hf, rfl⟩
    · exact ⟨tr, .error e, t, [], hx, runs_done.mpr ⟨rfl, rfl, rfl⟩, by simp⟩

/-- An attempt runs as what is attempted, and has its outcome as a result. -/
theorem runs_attempt {r : Except ShellError (Except ShellError α)} :
    (attempt x).Runs s tr r t ↔ ∃ outcome, x.Runs s tr outcome t ∧ r = .ok outcome := by
  refine runs_andThen.trans ⟨?_, ?_⟩
  · rintro ⟨tr₁, outcome, u, tr₂, hx, hd, rfl⟩
    obtain ⟨rfl, rfl, rfl⟩ := runs_done.mp hd
    exact ⟨outcome, by simpa using hx, rfl⟩
  · rintro ⟨outcome, hx, rfl⟩
    exact ⟨tr, outcome, t, [], hx, runs_done.mpr ⟨rfl, rfl, rfl⟩, by simp⟩

/-- An attempt hands the outcome to what follows, a failure like any other. -/
theorem runs_attempt_bind {f : Except ShellError α → Eval σ β} {r : Except ShellError β} :
    (attempt x >>= f).Runs s tr r t ↔
      ∃ tr₁ outcome u tr₂, x.Runs s tr₁ outcome u ∧ (f outcome).Runs u tr₂ r t ∧ tr = tr₁ ++ tr₂ := by
  refine runs_bind.trans ⟨?_, ?_⟩
  · rintro (⟨tr₁, a, u, tr₂, hx, hf, rfl⟩ | ⟨e, hx, -⟩)
    · obtain ⟨_, hx, ha⟩ := runs_attempt.mp hx
      cases ha
      exact ⟨tr₁, a, u, tr₂, hx, hf, rfl⟩
    · -- An attempt itself never fails.
      obtain ⟨outcome, -, he⟩ := runs_attempt.mp hx
      cases he
  · rintro ⟨tr₁, outcome, u, tr₂, hx, hf, rfl⟩
    exact .inl ⟨tr₁, outcome, u, tr₂, runs_attempt.mpr ⟨outcome, hx, rfl⟩, hf, rfl⟩

/-- To look at the state is no moment of its own. -/
theorem runs_get_bind {f : Shell σ → Eval σ β} {r : Except ShellError β} :
    (get >>= f : Eval σ β).Runs s tr r t ↔ (f s).Runs s tr r t :=
  ⟨fun h => ⟨h.exec, h.trace⟩, fun h => ⟨h.exec, h.trace⟩⟩

theorem runs_set_bind {u : Shell σ} {f : PUnit → Eval σ β} {r : Except ShellError β} :
    (set u >>= f : Eval σ β).Runs s tr r t ↔ ∃ tr', (f ⟨⟩).Runs u tr' r t ∧ tr = ⟨u, none⟩ :: tr' := by
  constructor
  · rintro ⟨hexec, rfl⟩
    exact ⟨_, ⟨hexec, rfl⟩, rfl⟩
  · rintro ⟨tr', ⟨hexec, rfl⟩, rfl⟩
    exact ⟨hexec, rfl⟩

/-- A change is a moment, with the state behind it. -/
theorem runs_modify_bind {g : Shell σ → Shell σ} {f : PUnit → Eval σ β} {r : Except ShellError β} :
    (modify g >>= f : Eval σ β).Runs s tr r t ↔
      ∃ tr', (f ⟨⟩).Runs (g s) tr' r t ∧ tr = ⟨g s, none⟩ :: tr' := by
  constructor
  · rintro ⟨hexec, rfl⟩
    exact ⟨_, ⟨hexec, rfl⟩, rfl⟩
  · rintro ⟨tr', ⟨hexec, rfl⟩, rfl⟩
    exact ⟨hexec, rfl⟩

/-- So is a note, with the state it is made in. -/
theorem runs_note_bind {n : Note σ} {f : Unit → Eval σ β} {r : Except ShellError β} :
    (note n >>= f).Runs s tr r t ↔ ∃ tr', (f ()).Runs s tr' r t ∧ tr = ⟨s, some n⟩ :: tr' := by
  constructor
  · rintro ⟨hexec, rfl⟩
    exact ⟨_, ⟨hexec, rfl⟩, rfl⟩
  · rintro ⟨tr', ⟨hexec, rfl⟩, rfl⟩
    exact ⟨hexec, rfl⟩

/-- An outcome at hand lets the rest run, or is the failure of all. -/
theorem runs_lift_bind {outcome : Except ShellError α} {f : α → Eval σ β} {r : Except ShellError β} :
    ((liftM outcome : Eval σ α) >>= f).Runs s tr r t ↔
      (∃ a, outcome = .ok a ∧ (f a).Runs s tr r t) ∨
        ∃ e, outcome = .error e ∧ tr = [] ∧ r = .error e ∧ t = s := by
  cases outcome with
  | ok a =>
      refine ⟨fun h => .inl ⟨a, rfl, ⟨h.exec, h.trace⟩⟩, ?_⟩
      rintro (⟨b, hb, h⟩ | ⟨e, he, -⟩)
      · cases hb
        exact ⟨h.exec, h.trace⟩
      · cases he
  | error e =>
      refine ⟨fun h => .inr ⟨e, rfl, runs_done.mp ⟨h.exec, h.trace⟩⟩, ?_⟩
      rintro (⟨b, hb, -⟩ | ⟨e', he, h⟩)
      · cases hb
      · cases he
        have h := runs_done.mpr h
        exact ⟨h.exec, h.trace⟩

theorem runs_abort {e : ShellError} {r : Except ShellError α} :
    (abort e : Eval σ α).Runs s tr r t ↔
      tr = [⟨s.report e, none⟩] ∧ r = .error .aborted ∧ t = s.report e := by
  rw [abort, runs_modify_bind]
  constructor
  · rintro ⟨tr', h, rfl⟩
    obtain ⟨rfl, rfl, rfl⟩ := runs_throw.mp h
    exact ⟨rfl, rfl, rfl⟩
  · rintro ⟨rfl, rfl, rfl⟩
    exact ⟨[], runs_throw.mpr ⟨rfl, rfl, rfl⟩, rfl⟩

/-- Without its result an evaluation runs as it does with it. -/
theorem runs_discard {r : Except ShellError PUnit} :
    (discard x).Runs s tr r t ↔ ∃ r', x.Runs s tr r' t ∧ r = r'.map fun _ => ⟨⟩ := by
  have hdiscard : discard x = x >>= fun _ => pure ⟨⟩ := rfl
  rw [hdiscard]
  refine runs_andThen.trans ⟨?_, ?_⟩
  · rintro ⟨tr₁, outcome, u, tr₂, hx, hf, rfl⟩
    cases outcome with
    | ok a =>
        obtain ⟨rfl, rfl, rfl⟩ := runs_pure.mp hf
        exact ⟨.ok a, by simpa using hx, rfl⟩
    | error e =>
        obtain ⟨rfl, rfl, rfl⟩ := runs_done.mp hf
        exact ⟨.error e, by simpa using hx, rfl⟩
  · rintro ⟨outcome, hx, rfl⟩
    refine ⟨tr, outcome, t, [], hx, ?_, by simp⟩
    cases outcome with
    | ok a => exact runs_pure.mpr ⟨rfl, rfl, rfl⟩
    | error e => exact runs_done.mpr ⟨rfl, rfl, rfl⟩

end Sequences

/-! ## Laws of the monad -/

/-- Evaluations with the same runs are equal. One direction is enough, for every evaluation has a run
    from each state. -/
theorem ext_runs {x y : Eval σ α} (h : ∀ s tr r t, x.Runs s tr r t → y.Runs s tr r t) : x = y := by
  have hexec : x.exec = y.exec := funext fun s => (h _ _ _ _ (x.runs_self s)).exec.symm
  have htrace : x.trace = y.trace := funext fun s => (h _ _ _ _ (x.runs_self s)).trace.symm
  cases x
  cases y
  cases hexec
  cases htrace
  rfl

instance : LawfulMonad (Eval σ) := by
  refine LawfulMonad.mk' (Eval σ) ?_ (fun _ _ => rfl) ?_
  · intro α x
    refine ext_runs fun s tr r t h => ?_
    rcases runs_bind.mp (show (x >>= fun a => pure a).Runs s tr r t from h) with
      ⟨tr₁, a, u, tr₂, hx, hp, rfl⟩ | ⟨e, hx, rfl⟩
    · obtain ⟨rfl, rfl, rfl⟩ := runs_pure.mp hp
      simpa using hx
    · exact hx
  · intro α β γ x f g
    refine ext_runs fun s tr r t h => ?_
    -- The run is cut behind `x` and again behind `f`, or it ends where the first of the parts fails.
    rcases runs_bind.mp h with ⟨tr₁, b, u, tr₂, hxf, hg, rfl⟩ | ⟨e, hxf, rfl⟩
    · rcases runs_bind.mp hxf with ⟨tr₃, a, v, tr₄, hx, hf, rfl⟩ | ⟨e, -, he⟩
      · exact runs_bind.mpr (.inl ⟨tr₃, a, v, tr₄ ++ tr₂, hx,
          runs_bind.mpr (.inl ⟨tr₄, b, u, tr₂, hf, hg, rfl⟩), by simp⟩)
      · cases he
    · rcases runs_bind.mp hxf with ⟨tr₃, a, v, tr₄, hx, hf, rfl⟩ | ⟨e', hx, he⟩
      · exact runs_bind.mpr (.inl ⟨tr₃, a, v, tr₄, hx, runs_bind.mpr (.inr ⟨e, hf, rfl⟩), rfl⟩)
      · cases he
        exact runs_bind.mpr (.inr ⟨e, hx, rfl⟩)

end Eval
end CommandShell
