import CommandShell.Manifest.Basic
import CommandShell.Proofs.Evaluation.Calls

/-!
# `CommandShell.Proofs.Evaluation.Manifests` — binding a manifest as a request

The requests of a host name no manifests. They need not: binding a manifest is binding its entries in
order, up to the first one that is refused, which is reported. So a host can ask for it, and what holds of
every host holds of one that binds manifests.

## Contents
- `Action.bindManifest`, the request, and `Action.perform_bindManifest`, that it does what the operation does.
-/

namespace CommandShell

open Eval Contract

variable {σ : Type}

/-- Writes a failure to the output channel, unless that has been done. -/
def Action.report (e : ShellError) (next : Action σ) : Action σ :=
  if e.isReported then .update id next else .emit ⟨e.message, .error⟩ next

/-- Binds the entries of a manifest, of which `bound` have been bound before, and goes on with the
    outcome. -/
def Action.bindEntries (bound : Nat) : List (String × Except ShellError (Binding σ)) →
    (Except ShellError Nat → Action σ) → Action σ
  | [], next => next (.ok bound)
  | (_, .error e) :: _, next => .report e (next (.error e))
  | (name, .ok b) :: rest, next => .bind name b.profile b.run fun
      | .ok () => bindEntries (bound + 1) rest next
      | .error e => .report e (next (.error e))

/-- Binds a manifest and goes on with the outcome. -/
def Action.bindManifest (m : Manifest) (table : HostTable σ) (next : Except ShellError Nat → Action σ) :
    Action σ :=
  .bindEntries 0 (m.bindings table) next

/-! ## What they do -/

variable {nested : String → Eval σ Unit} {s u t : Shell σ} {tr : List (Moment σ)} {bound : Nat}
  {name : String} {rest : List (String × Except ShellError (Binding σ))}

theorem Shell.runs_bindEntries_ok {binding : Except ShellError (Binding σ)} {r : Except ShellError Nat}
    (hb : binding.bind (s.bind name) = .ok u) :
    (Shell.bindEntries bound ((name, binding) :: rest)).Runs s tr r t ↔
      ∃ tr', (Shell.bindEntries (bound + 1) rest).Runs u tr' r t ∧ tr = ⟨u, none⟩ :: tr' := by
  rw [Shell.bindEntries, runs_get_bind, hb]
  exact runs_set_bind

/-- The first entry that is not bound ends the list and is reported. -/
theorem Shell.runs_bindEntries_error {binding : Except ShellError (Binding σ)} {e : ShellError}
    (he : binding.bind (s.bind name) = .error e) :
    (Shell.bindEntries bound ((name, binding) :: rest)).Runs s [⟨s.report e, none⟩] (.error e)
      (s.report e) := by
  rw [Shell.bindEntries, runs_get_bind, he, runs_modify_bind]
  exact ⟨[], runs_throw.mpr ⟨rfl, rfl, rfl⟩, rfl⟩

theorem Action.perform_report (e : ShellError) (next : Action σ) :
    Eval.perform nested (report e next) = (do
      modify (·.report e)
      Eval.perform nested next) := by
  unfold report Shell.report
  split
  · rfl
  · rfl

/-- The request does what the operation does. The induction is on the entries. -/
theorem Action.perform_bindEntries (bound : Nat)
    (entries : List (String × Except ShellError (Binding σ))) (next : Except ShellError Nat → Action σ) :
    Eval.perform nested (bindEntries bound entries next) = (do
      let outcome ← attempt (Shell.bindEntries bound entries)
      Eval.perform nested (next outcome)) := by
  refine ext_runs fun s tr r t h => ?_
  -- An entry that is not bound is reported, and nothing behind it is looked at.
  have hreport {s : Shell σ} {tr : List (Moment σ)} {name : String}
      {binding : Except ShellError (Binding σ)} {rest : List (String × Except ShellError (Binding σ))}
      {bound : Nat} {e : ShellError} (he : binding.bind (s.bind name) = .error e)
      (h : (Eval.perform nested (report e (next (.error e)))).Runs s tr r t) :
      (do
        let outcome ← attempt (Shell.bindEntries bound ((name, binding) :: rest))
        Eval.perform nested (next outcome)).Runs s tr r t := by
    rw [perform_report, runs_modify_bind] at h
    obtain ⟨tr₁, hrest, rfl⟩ := h
    exact runs_attempt_bind.mpr ⟨_, _, _, tr₁, Shell.runs_bindEntries_error he, hrest, rfl⟩
  induction entries generalizing bound s tr with
  | nil => exact runs_attempt_bind.mpr ⟨[], .ok bound, s, tr, runs_pure.mpr ⟨rfl, rfl, rfl⟩, h, rfl⟩
  | cons entry entries ih =>
      obtain ⟨name, e | b⟩ := entry
      · rw [bindEntries] at h
        exact hreport rfl h
      · rw [bindEntries] at h
        have hentry : (Except.ok b : Except ShellError (Binding σ)).bind (s.bind name) = s.bind name b := by
          rw [Except.bind]
        cases hb : s.bind name b with
        | ok u =>
            obtain ⟨tr₁, hrest, rfl⟩ := (runs_perform_bind_ok hb).mp h
            obtain ⟨tr₂, outcome, v, tr₃, hrun, hnext, rfl⟩ := runs_attempt_bind.mp (ih _ _ _ hrest)
            exact runs_attempt_bind.mpr ⟨⟨u, none⟩ :: tr₂, outcome, v, tr₃,
              (Shell.runs_bindEntries_ok (hentry.trans hb)).mpr ⟨tr₂, hrun, rfl⟩, hnext, rfl⟩
        | error e => exact hreport (hentry.trans hb) ((runs_perform_bind_error hb).mp h)

theorem Action.perform_bindManifest (m : Manifest) (table : HostTable σ)
    (next : Except ShellError Nat → Action σ) :
    Eval.perform nested (bindManifest m table next) = (do
      let outcome ← attempt (Shell.bindManifest m table)
      Eval.perform nested (next outcome)) :=
  perform_bindEntries 0 (m.bindings table) next

end CommandShell
