import CommandShell.Proofs.Commands
import CommandShell.Proofs.Conversions
import CommandShell.Proofs.Evaluation.Reachable

/-!
# `CommandShell.Proofs.Reporting` — every failure is reported once

A failure is written to the channel where it arises and travels on as `aborted`, which nobody writes. So
an evaluation that begins without error lines ends with none if it succeeds, and with exactly one, the
last line of all, if it fails — through all levels of sub-evaluations, aliases, blocks and elements of
literals that the failure crosses on its way.

This needs commands that leave errors to the evaluator: an orderly command writes no error and takes no
line back, and when a nested evaluation fails it ends at once with this failure. All built-in commands,
aliases and variables in cells are orderly.

## Contents
- `Channel.Quiet` and `Channel.Failed`.
- `Action.Orderly`, with `Policy.orderly`, and `Parse.Forwards`.
- `Contract.reporting` and its lawfulness.
- `Shell.eval_reports_once`, for every line of input and every limit, and `Shell.eval_misreports`, what
  commands that are not orderly make of it.
-/

namespace CommandShell

open Contract

variable {σ α β : Type}

/-! ## Error lines -/

namespace Channel

variable {ch : Channel}

/-- No line is an error. -/
def Quiet (ch : Channel) : Prop :=
  ∀ line ∈ ch.lines, line.severity ≠ .error

instance : Decidable ch.Quiet :=
  inferInstanceAs (Decidable (∀ line ∈ ch.lines, line.severity ≠ .error))

/-- Exactly one line is an error, and it is the last one. -/
def Failed (ch : Channel) : Prop :=
  ∃ before line, ch.lines = before ++ [line] ∧ line.severity = .error ∧
    ∀ l ∈ before, l.severity ≠ .error

/-- What a channel shows after a run that ended with a failure, if it did. -/
def Shows (ch : Channel) (e? : Option ShellError) : Prop :=
  if e? = some .aborted then ch.Failed else ch.Quiet

/-- A channel does not count as failed and as quiet. -/
theorem Failed.not_quiet (h : ch.Failed) : ¬ ch.Quiet := by
  obtain ⟨before, line, hlines, hline, -⟩ := h
  intro hquiet
  exact hquiet line (by simp [hlines]) hline

@[simp] theorem shows_none : ch.Shows none = ch.Quiet := by
  simp [Shows]

@[simp] theorem shows_aborted : ch.Shows (some .aborted) = ch.Failed := by
  simp [Shows]

/-- Whatever else a run has ended with, it has left no error line yet. -/
theorem shows_of_ne {e? : Option ShellError} (he : e? ≠ some .aborted) : ch.Shows e? = ch.Quiet := by
  simp [Shows, he]

/-- A line that is no error leaves a channel quiet, whichever lines it drops for it. -/
theorem Quiet.emit (h : ch.Quiet) {line : Line} (hline : line.severity ≠ .error) :
    (ch.emit line).Quiet := by
  obtain ⟨kept, hkept, hmem⟩ := retain_concat ch.capacity ch.lines line
  intro l hl
  rw [lines_emit, hkept] at hl
  rcases List.mem_append.mp hl with hl | hl
  · exact h l (hmem.subset hl)
  · cases List.mem_singleton.mp hl
    exact hline

/-- The first error line is the only one, and capacity never costs it: the oldest lines go. -/
theorem Quiet.emit_error (h : ch.Quiet) (text : String) : (ch.emit ⟨text, .error⟩).Failed := by
  obtain ⟨kept, hkept, hmem⟩ := retain_concat ch.capacity ch.lines ⟨text, .error⟩
  exact ⟨kept, ⟨text, .error⟩, hkept, rfl, fun l hl => h l (hmem.subset hl)⟩

theorem Quiet.popLast (h : ch.Quiet) : ch.popLast?.2.Quiet :=
  fun l hl => h l (List.dropLast_subset _ hl)

end Channel

/-! ## Orderly commands -/

/-- The command leaves errors to the evaluator: it writes none and takes no line back, and when a nested
    evaluation has failed it ends at once with this failure. The failure `aborted` says that a nested
    evaluation has reported its own, so no command makes one up. What it binds is orderly, and it
    registers no conversion. -/
def Action.Orderly : Action σ → Prop
  | .done result => result ≠ .error .aborted
  | .inspect next => ∀ s : Shell σ, (next s.view).Orderly
  | .update _ next => next.Orderly
  | .emit line next => line.severity ≠ .error ∧ next.Orderly
  | .popLast _ => False
  | .drain _ => False
  | .evalBlock _ next => next (.error .aborted) = .done (.error .aborted) ∧
      ∀ r, r ≠ .error .aborted → (next r).Orderly
  | .resolve _ next => next (.error .aborted) = .done (.error .aborted) ∧
      ∀ r, r ≠ .error .aborted → (next r).Orderly
  | .fetch _ _ next => next (.error .aborted) = .done (.error .aborted) ∧
      ∀ r, r ≠ .error .aborted → (next r).Orderly
  | .convert _ _ next => next (.error (.resolution .aborted)) = .done (.error .aborted) ∧
      ∀ r, r ≠ .error (.resolution .aborted) → (next r).Orderly
  | .bind _ _ body next => (∀ args, (body args).Orderly) ∧
      ∀ r, r ≠ .error .aborted → (next r).Orderly
  | .unbind _ next => ∀ profile?, (next profile?).Orderly
  | .registerType _ _ _ => False

/-- Calling the binding is an orderly command. -/
def Binding.Orderly (b : Binding σ) : Prop :=
  ∀ args, (b.run args).Orderly

/-- The policy that allows orderly bindings and no conversion besides the built-in ones. -/
def Policy.orderly : Policy σ where
  binding := Binding.Orderly
  conversion _ _ := False

/-- Orderly commands are closed under the requests that most built-in commands are made of. -/
theorem Action.tame_orderly : Action.Tame (· ≠ .aborted) (Action.Orderly : Action σ → Prop) where
  own he _ := he
  answer v? := by simp [Action.Orderly]
  failure he := by simpa [Action.Orderly] using he
  inspect h := h
  update _ h := h
  emit hline h := ⟨hline, h⟩
  evalBlock hend h := ⟨hend, fun r hr => h r (ne_aborted_iff.mpr hr)⟩

/-- An alias passes on how its statement ends. -/
theorem Binding.orderly_ofAlias (target : String) : (ofAlias target : Binding σ).Orderly :=
  tame_ofAlias Action.tame_orderly target

/-- A variable in a cell evaluates nothing. -/
theorem Binding.orderly_ofCell (type : ValueType) (index : Nat) :
    (ofCell type index : Binding σ).Orderly :=
  tame_ofCell Action.tame_orderly type index

/-- They are closed under the definition and the removal of names, too. -/
theorem Action.naming_orderly : Action.Naming (· ≠ .aborted) (Action.Orderly : Action σ → Prop) where
  toTame := tame_orderly
  bindAlias h := ⟨Binding.orderly_ofAlias _, fun r hr => h r (ne_aborted_iff.mpr hr)⟩
  bindCell h := ⟨Binding.orderly_ofCell .text _, fun r hr => h r (ne_aborted_iff.mpr hr)⟩
  unbind h := h

/-- All built-in commands are orderly. -/
theorem Command.orderly {c : Command σ} (hc : c ∈ Builtin.all) : c.toBinding.Orderly :=
  fun args => Builtin.naming Action.naming_orderly hc (args.safe_ne_aborted _)

/-- An orderly command registers nothing but orderly bindings, even where it may not go on. -/
theorem Action.Orderly.obeys {a : Action σ} (h : a.Orderly) : a.Obeys Policy.orderly := by
  -- What follows the answer of a nested evaluation is orderly, or it is the end of the command.
  have hnext {ρ : Type} {next : ρ → Action σ} {bad : ρ}
      (h : next bad = .done (.error .aborted) ∧ ∀ r, r ≠ bad → (next r).Orderly) (r : ρ) :
      (next r).Orderly ∨ ∃ result, next r = .done result := by
    by_cases hr : r = bad
    · exact .inr ⟨_, hr ▸ h.1⟩
    · exact .inl (h.2 r hr)
  have horderly : Action.Hereditary (Policy.orderly : Policy σ) Action.Orderly := {
    emit := And.right
    popLast := False.elim
    drain := False.elim
    evalBlock := hnext
    resolve := hnext
    fetch := hnext
    convert := hnext
    bind := fun h => h
    registerType := False.elim }
  exact horderly.obeys h

/-- What an orderly command may bind is orderly again, so a shell of such commands remains one. -/
theorem Policy.closed_orderly : (Policy.orderly : Policy σ).Closed where
  bodies hb args := (hb args).obeys
  builtins _ hc := Command.orderly hc
  aliases := Binding.orderly_ofAlias

/-! ## Conversions -/

/-- The conversion ends with the failure of a nested evaluation as soon as it gets one, and it never
    makes one up. -/
inductive Parse.Forwards : Parse α → Prop
  | done {result : Except ParseFailure α} (h : result ≠ .error (.resolution .aborted)) :
      Forwards (.done result)
  | resolve {expression : String} {next : Except ShellError String → Parse α}
      (hend : next (.error .aborted) = .done (.error (.resolution .aborted)))
      (hnext : ∀ r, r ≠ .error .aborted → Forwards (next r)) : Forwards (.resolve expression next)

/-- The parser does so on every text. -/
def Parser.Forwards (parser : Parser) : Prop :=
  ∀ text, (parser text).Forwards

namespace Parse

theorem forwards_pure (a : α) : (pure a : Parse α).Forwards :=
  .done (by simp)

theorem forwards_fail {f : ParseFailure} (hf : f ≠ .resolution .aborted) :
    (fail f : Parse α).Forwards :=
  .done (by simpa using hf)

/-- Two steps of a conversion, the second of which is told how the first one ended. -/
theorem Forwards.andThen {p : Parse α} {f : Except ParseFailure α → Parse β} (hp : p.Forwards)
    (hend : f (.error (.resolution .aborted)) = .done (.error (.resolution .aborted)))
    (hf : ∀ r, r ≠ .error (.resolution .aborted) → (f r).Forwards) : (p.andThen f).Forwards := by
  induction hp with
  | done h => exact hf _ h
  | resolve hfirst hnext ih =>
      refine .resolve ?_ ih
      rw [hfirst]
      exact hend

theorem Forwards.bind {p : Parse α} {f : α → Parse β} (hp : p.Forwards) (hf : ∀ a, (f a).Forwards) :
    (p >>= f).Forwards := by
  refine hp.andThen rfl ?_
  intro r hr
  cases r with
  | ok a => exact hf a
  | error e => exact forwards_fail (fun he => hr (by rw [he]))

theorem Forwards.mapFailure {p : Parse α} {f : ParseFailure → ParseFailure} (hp : p.Forwards)
    (hf : ∀ e, f e = .resolution .aborted ↔ e = .resolution .aborted) : (p.mapFailure f).Forwards := by
  refine hp.andThen ?_ ?_
  · show Parse.done (.error (f (.resolution .aborted))) = .done (.error (.resolution .aborted))
    rw [(hf _).mpr rfl]
  · intro r hr
    cases r with
    | ok a => exact forwards_pure a
    | error e =>
        refine forwards_fail fun he => hr ?_
        rw [(hf e).mp he]

/-- The request itself passes the answer on as it is. -/
theorem forwards_resolved (expression : String) : (resolved expression).Forwards := by
  refine .resolve rfl ?_
  intro r hr
  cases r with
  | ok text => exact forwards_pure text
  | error e => exact forwards_fail (fun he => hr (by cases he; rfl))

end Parse

/-- The mark of an element neither hides a reported failure nor makes one up. -/
theorem atElement_eq_aborted (index : Nat) (isResult : Bool) (e : ParseFailure) :
    atElement index isResult e = .resolution .aborted ↔ e = .resolution .aborted := by
  unfold atElement
  split
  · exact .rfl
  · next hne =>
    refine ⟨fun h => ?_, fun h => absurd h (hne _)⟩
    cases h

section Elements

variable {element : Parser} (helement : element.Forwards)
include helement

/-- An element is read, evaluated if it is an expression, and converted; only the second of these steps
    asks. -/
theorem forwards_parseElement (index : Nat) (part : List Char) :
    (parseElement element index part).Forwards := by
  unfold parseElement
  dsimp only
  split
  · next e he =>
    obtain ⟨c, rfl⟩ := nextToken_error he
    exact Parse.forwards_fail (by simp)
  · split
    · exact Parse.forwards_fail (by simp)
    · split
      · exact (Parse.forwards_resolved _).bind fun text =>
          (helement text).mapFailure (atElement_eq_aborted index true)
      · exact (helement _).mapFailure (atElement_eq_aborted index false)

/-- The elements are converted in order, and the first failure ends the conversion of all. -/
theorem forwards_parseParts (index : Nat) (parts : List (List Char)) :
    (parseParts element index parts).Forwards := by
  induction parts generalizing index with
  | nil => exact Parse.forwards_pure _
  | cons part parts ih =>
      exact (forwards_parseElement helement index part).bind fun _ =>
        (ih (index + 1)).bind fun _ => Parse.forwards_pure _

theorem forwards_parseElements (s : String) : (parseElements element s).Forwards := by
  unfold parseElements
  split
  · exact Parse.forwards_pure _
  · split
    · next e he =>
      obtain ⟨c, rfl⟩ := splitArray_error he
      exact Parse.forwards_fail (by simp)
    · exact forwards_parseParts helement 0 _

end Elements

theorem forwards_parseOptional {inner : Parser} (hinner : inner.Forwards) :
    Parser.Forwards (parseOptional inner) := by
  intro s
  unfold parseOptional
  split
  · exact Parse.forwards_pure _
  · exact hinner s

theorem forwards_parseArray {element : Parser} (helement : element.Forwards) :
    Parser.Forwards (parseArray element) := by
  intro s
  exact (forwards_parseElements helement s).bind fun _ => Parse.forwards_pure _

/-- A reading of a text that is not what it should be is a failure of its own. -/
theorem forwards_orInvalid (text expected : String) (v? : Option Value) :
    (Parse.done (orInvalid text expected v?)).Forwards := by
  cases v? with
  | none => exact .done (by simp [orInvalid])
  | some v => exact .done (by simp [orInvalid])

theorem forwards_parseBool (s : String) : (Parse.done (parseBool s)).Forwards := by
  unfold parseBool
  dsimp only
  split
  · exact .done (by simp)
  · split
    · exact .done (by simp)
    · exact .done (by simp)

theorem forwards_parseVector (bounds : ValueType.VectorBounds) :
    Parser.Forwards (parseVector bounds) := by
  intro s
  refine (forwards_parseElements (fun text => forwards_orInvalid _ _ _) s).bind fun vs => ?_
  split
  · exact Parse.forwards_fail (by simp)
  · exact Parse.forwards_pure _

/-- The conversions that every shell has from the beginning forward failures. -/
theorem forwards_standard {entry : ValueType × Parser} (h : entry ∈ Conversions.standard.entries) :
    entry.2.Forwards := by
  intro text
  rcases List.mem_append.mp h with h | h
  · simp only [List.mem_cons, List.not_mem_nil, or_false] at h
    rcases h with rfl | rfl | rfl | rfl
    · exact Parse.forwards_pure _
    · exact forwards_orInvalid _ _ _
    · exact forwards_orInvalid _ _ _
    · exact forwards_parseBool text
  · obtain ⟨type, -, hentry⟩ := List.mem_filterMap.mp h
    obtain ⟨bounds, -, rfl⟩ := Option.map_eq_some_iff.mp hentry
    exact forwards_parseVector bounds text

/-- Conversions that are derived from forwarding ones forward failures. -/
theorem forwards_parserFor {table : Conversions} {type : ValueType} {parser : Parser}
    (htable : ∀ entry ∈ table.entries, entry.2.Forwards) (h : table.parserFor? type = some parser) :
    parser.Forwards := by
  refine Conversions.parserFor?_induction (M := fun _ parser => parser.Forwards) ?_ ?_ ?_ h
  · intro type parser hentry
    exact htable (type, parser) hentry
  · intro inner parser hinner
    exact forwards_parseOptional hinner
  · intro element parser helement
    exact forwards_parseArray helement

/-! ## The contract -/

/-- A run that begins without errors ends without one, unless it fails as one that has reported its
    failure; then it ends in the only error. -/
def Contract.reporting : Contract σ :=
  Policy.orderly.contract fun s _ e? t => s.output.Quiet → t.output.Shows e?

section Reporting

variable {s t : Shell σ} {tr : List (Moment σ)}

/-- A run that has failed, but not with a reported failure, shows no error so far. -/
theorem reporting_of_ne {e? : Option ShellError} (he : e? ≠ some .aborted)
    (h : s.output.Quiet → t.output.Quiet) : Contract.reporting.rel s tr e? t := by
  intro hs
  rw [Channel.shows_of_ne he]
  exact h hs

/-- A conversion shows what its requests show. Once one of them has failed there is no other. -/
theorem admitsParse_reporting {p : Parse α} (hp : p.Forwards)
    (ht : s.output.Quiet → t.output.Quiet) : Contract.reporting.AdmitsParse s p tr t := by
  induction hp generalizing tr t with
  | @done result h =>
      refine reporting_of_ne ?_ ht
      rcases result with f | a
      · intro he
        cases f <;> cases he
        exact h rfl
      · simp [resolutionOf]
  | resolve hend hnext ih =>
      intro r tr' u hu
      by_cases hr : r = .error .aborted
      · -- The request has failed and reported it; the conversion ends with that report.
        subst hr
        rw [hend]
        intro hs
        exact hu.rel (ht hs)
      · apply ih r hr
        intro hs
        have := hu.rel (ht hs)
        rwa [Channel.shows_of_ne] at this
        intro he
        cases r with
        | ok a => cases he
        | error e =>
            cases he
            exact hr rfl

/-- An orderly command reports nothing itself. The induction is on its requests; as long as it goes on,
    nothing has been reported by the evaluations it has asked for either. -/
theorem admits_reporting {a : Action σ} (ha : a.Orderly) (hobeys : t.Obeys Policy.orderly)
    (ht : s.output.Quiet → t.output.Quiet) : Contract.reporting.Admits s a tr t := by
  -- What follows an answer that is not the report of a failure, and the end that follows a report.
  have hnested {ρ ε : Type} {next : Except ε ρ → Action σ} {bad : ε} {e? : Option ShellError}
      {t u : Shell σ} {tr tr' : List (Moment σ)} {r : Except ε ρ}
      (ih : ∀ r {t : Shell σ} {tr : List (Moment σ)}, (next r).Orderly → t.Obeys Policy.orderly →
        (s.output.Quiet → t.output.Quiet) → Contract.reporting.Admits s (next r) tr t)
      (ha : next (.error bad) = .done (.error .aborted) ∧
        ∀ r, r ≠ .error bad → (next r).Orderly)
      (he : e? = some .aborted ↔ r = .error bad) (ht : s.output.Quiet → t.output.Quiet)
      (hu : Contract.reporting.Holds t tr' e? u) :
      Contract.reporting.Admits s (next r) (tr ++ tr') u := by
    by_cases hr : r = .error bad
    · rw [hr, ha.1]
      intro hs
      have := hu.rel (ht hs)
      rwa [he.mpr hr] at this
    · apply ih r (ha.2 r hr) hu.inv
      intro hs
      have := hu.rel (ht hs)
      rwa [Channel.shows_of_ne (fun h => hr (he.mp h))] at this
  have hfailure {ρ : Type} (r : Except ShellError ρ) :
      failureOf r = some .aborted ↔ r = .error .aborted := by
    cases r <;> simp
  induction a generalizing tr t with
  | done result =>
      refine reporting_of_ne ?_ ht
      intro he
      exact ha ((hfailure result).mp he)
  | inspect next ih => exact ih _ (ha t) hobeys ht
  | update change next ih => exact ih ha (hobeys.congr (t.sameSetup_update change)) ht
  | emit line next ih =>
      exact ih ha.2 (hobeys.congr (t.sameSetup_emit line)) fun hs => (ht hs).emit ha.1
  | popLast next ih => exact ha.elim
  | drain next ih => exact ha.elim
  | evalBlock text next ih =>
      intro r tr' u hu
      exact hnested ih ha (hfailure r) ht hu
  | resolve expression next ih =>
      intro r tr' u hu
      exact hnested ih ha (hfailure r) ht hu
  | fetch index param next ih =>
      intro r tr' u hu
      exact hnested ih ha (hfailure r) ht hu
  | convert type text next ih =>
      intro r tr' u hu
      refine hnested ih ha ?_ ht hu
      cases r with
      | ok v => simp [resolutionOf]
      | error f => cases f <;> simp [resolutionOf]
  | bind name profile body next _ ih =>
      refine ⟨?_, ?_⟩
      · intro u hu
        have hbody : Binding.Orderly ⟨profile, body⟩ := ha.1
        have hobeys' := hobeys.bind hbody hu
        refine ⟨hobeys', ih _ (ha.2 _ (by simp)) hobeys' ?_⟩
        rw [Shell.bind_eq hu]
        exact ht
      · intro e he
        exact ih _ (ha.2 _ (by simpa using Shell.bind_ne_aborted he)) hobeys ht
  | unbind name next ih => exact ⟨hobeys.unbind name, ih _ (ha _) (hobeys.unbind name) ht⟩
  | registerType type parser next ih => exact ha.elim

/-- Every step of the evaluator keeps the contract: an evaluation reports what has not been reported,
    and the others pass failures on. -/
theorem Contract.lawful_reporting : (Contract.reporting : Contract σ).Lawful where
  inv_congr := Shell.Obeys.congr
  fit_of_lookup := Policy.fit_of_lookup
  nil _ hs := by simpa using hs
  trans h h' hs := h' (by simpa using h hs)
  fail he h := reporting_of_ne (by simpa using he) (by simpa [reporting, Policy.contract] using h)
  report := by
    intro s t tr e _ h hs
    have hshows := h hs
    -- A failure that has been reported is passed on; any other one is the first error line.
    by_cases he : e = .aborted
    · subst he
      exact hshows
    · rw [Channel.shows_of_ne (by simpa using he)] at hshows
      simp only [Shell.report, ShellError.isReported, he, decide_false, Channel.shows_aborted]
      exact hshows.emit_error e.message
  enclose h := h
  answer _ hs := by
    rw [Channel.shows_none]
    exact hs.emit (by simp)
  expire hs _ _ := by
    refine ⟨hs.unbind _, fun hquiet => ?_⟩
    rw [Channel.shows_none]
    exact hquiet
  take := by
    intro s t tr expression ht h
    refine ⟨fun _ => h, fun line _ hs => ?_⟩
    have hquiet := h hs
    rw [Channel.shows_none] at hquiet ⊢
    exact hquiet.popLast
  conversions := by
    intro s type parser text hs hparser
    refine admitsParse_reporting (forwards_parserFor ?_ hparser text) id
    intro entry hentry
    exact forwards_standard ((hs.conversions entry hentry).resolve_right id)
  calls hs hfit _ _ := admits_reporting (hfit _) hs id

end Reporting

/-! ## Evaluations -/

namespace Shell

/-- The built-in commands, aliases and variables in cells are orderly, and in every reachable state of a
    shell of orderly commands that shows no error, the evaluation of a line succeeds if the channel shows
    none afterwards, and it fails if the channel shows exactly one, as its last line. -/
theorem eval_reports_once :
    ((∀ c ∈ Builtin.all, (c.toBinding : Binding σ).Orderly) ∧
      (∀ target, (Binding.ofAlias target : Binding σ).Orderly) ∧
      ∀ type index, (Binding.ofCell type index : Binding σ).Orderly) ∧
    ∀ {config : Config} {host : σ} {s : Shell σ}, Reachable Policy.orderly config host s →
      s.output.Quiet → ∀ text,
        (((eval text).run s).1 = true ↔ ((eval text).run s).2.output.Quiet) ∧
          (((eval text).run s).1 = false ↔ ((eval text).run s).2.output.Failed) := by
  refine ⟨⟨fun c => Command.orderly, Binding.orderly_ofAlias, Binding.orderly_ofCell⟩, ?_⟩
  intro config host s h hquiet text
  obtain ⟨hobeys, hbounded⟩ := h.obeys Policy.closed_orderly
  have hshown : (s.shown text).output.Quiet := by
    unfold shown
    split
    · exact hquiet.emit (by simp)
    · exact hquiet
  have hself := (evalBlock text).runs_self (s.shown text)
  have hshows := (lawful_reporting.evalBlock text ((s.sameLevel_shown text).bounded hbounded)
    (hobeys.shown text) hself).rel hshown
  rw [run_eval]
  -- A channel is not quiet and failed at once, so each outcome settles both equivalences.
  cases hr : ((evalBlock text).exec (s.shown text)).1 with
  | ok _ =>
      rw [hr, failureOf_ok, Channel.shows_none] at hshows
      simp only [Except.toBool, Bool.true_eq_false, true_iff, false_iff]
      exact ⟨hshows, fun hfailed => hfailed.not_quiet hshows⟩
  | error e =>
      rw [hr] at hself
      cases Eval.aborted_of_runs_evaluateWithin (Eval.runs_get_bind.mp hself)
      rw [hr, failureOf_error, Channel.shows_aborted] at hshows
      simp only [Except.toBool, Bool.false_eq_true, true_iff, false_iff]
      exact ⟨hshows.not_quiet, hshows⟩

/-- A failure inside a sub-evaluation of a block, reported in the end by one line. -/
theorem eval_reports_once_started :
    (start {} ()).output.Quiet ∧
      ((eval "repeat 2 \x7bprint (echo (nope))\x7d").run (start {} ())).2.output.Failed := by
  have hquiet : (start {} ()).output.Quiet := by decide +kernel
  refine ⟨hquiet, ?_⟩
  have hreachable := reachable_start (Policy.closed_orderly : Policy.orderly.Closed) {} ()
  refine (eval_reports_once.2 hreachable hquiet _).2.mp ?_
  decide +kernel

/-! ## Commands that are not orderly

The two commands here write no error, take nothing back and hand on every failure they are given. -/

/-- A command that ends as if a nested evaluation had failed. -/
def feignCommand : Binding Unit :=
  .ofScript fun _ => Script.fail .aborted

/-- A command that is not told of the failure it causes, but only that there was one. -/
def attemptCommand : Binding Unit :=
  .ofScript fun _ => return some (.bool (← Script.eval "nope"))

/-- The policy that allows these two besides the orderly commands. -/
def lax : Policy Unit where
  binding b := b.Orderly ∨ b = feignCommand ∨ b = attemptCommand
  conversion _ _ := False

/-- The host that binds both. -/
def unruly : Action Unit :=
  .bind "feign" feignCommand.profile feignCommand.run fun _ =>
    .bind "attempt" attemptCommand.profile attemptCommand.run fun _ => .done (.ok none)

/-- Where both are bound, the evaluation of the first one fails and no line says so, and that of the second
    one succeeds behind an error line. -/
theorem eval_misreports : ∃ s : Shell Unit, Reachable lax {} () s ∧ s.output.Quiet ∧
    (((eval "feign").run s).1 = false ∧ ((eval "feign").run s).2.output.Quiet) ∧
    (((eval "attempt").run s).1 = true ∧ ¬ ((eval "attempt").run s).2.output.Quiet) := by
  have hobeys : unruly.Obeys lax :=
    ⟨.inr (.inl rfl), fun _ _ => ⟨.inr (.inr rfl), fun _ _ => trivial⟩⟩
  refine ⟨((serve unruly).exec (configured {} ())).2, ⟨unruly, hobeys, ?_⟩, ?_⟩
  · exact Eval.mem_visits.mpr (.inr (.inr rfl))
  · decide +kernel

end Shell
end CommandShell
