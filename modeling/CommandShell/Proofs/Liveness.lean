import CommandShell.Demo.Player
import CommandShell.Proofs.Evaluation.Passage
import CommandShell.Proofs.Evaluation.Reachable
import CommandShell.Proofs.TypedValues

/-!
# `CommandShell.Proofs.Liveness` — calls and the targets they need

Whether the target of a binding still exists is decided when its name has been found, before the first
argument is converted. To convert an argument may evaluate anything: the elements of an array literal may
hold sub-evaluations. So the target of a call can be lost between the decision and the call, and then the
binding runs without it. This module says that it is the only way: each call of each run goes back to a
state in which its target existed, nothing runs from there to the call but the sub-evaluations that the
arguments ask for, and the target is missing in the call exactly if one of these has lost it. What is
lost earlier is seen, and the binding is removed instead of called.

## Contents
- `SubEvaluation`, with `Parse.Evaluates` and `Frame.Evaluates`: what a conversion asks for, and what the
  arguments of a frame ask for.
- `Call.LosesTarget`, with `Call.losesTarget_iff`.
- `Call.Quiet`, arguments that ask for nothing, with `Call.quiet_of_isScalar`.
- `Call.Prepared.found`, what lies between the decision and the call.
- `Eval.CallsPrepared`, what comes before every call, for all passages.
- `Eval.runs_dispatch_expired`, a dispatch that finds the target missing.
- `Shell.calls_find_target_iff`, with a call whose target is lost.
-/

namespace CommandShell

open Eval

variable {σ α β : Type}

/-! ## The sub-evaluations of arguments -/

/-- The evaluation of an expression, from one state through moments to another. -/
structure SubEvaluation (σ : Type) where
  expression : String
  start : Shell σ
  moments : List (Moment σ)
  final : Shell σ

/-- Each sub-evaluation begins where the one before has ended. -/
def Linked : Shell σ → List (SubEvaluation σ) → Shell σ → Prop
  | u, [], v => u = v
  | u, sub :: subs, v => sub.start = u ∧ Linked sub.final subs v

/-- Two lists of sub-evaluations, one behind the other, meet in a state. -/
theorem linked_append {u v : Shell σ} {subs subs' : List (SubEvaluation σ)} :
    Linked u (subs ++ subs') v ↔ ∃ w, Linked u subs w ∧ Linked w subs' v := by
  induction subs generalizing u with
  | nil => simp [Linked]
  | cons sub subs ih => simp [Linked, ih, and_assoc]

section Asked

variable (nested : String → Eval σ Unit)

/-- A conversion asks for these sub-evaluations in order. The next request may depend on the answers so
    far. -/
inductive Parse.Evaluates : Parse α → Shell σ → List (SubEvaluation σ) → Shell σ → Prop
  | done (result : Except ParseFailure α) (s : Shell σ) : Evaluates (.done result) s [] s
  | resolve {expression : String} {next : Except ShellError String → Parse α} {s t u : Shell σ}
      {tr : List (Moment σ)} {answer : Except ShellError String} {subs : List (SubEvaluation σ)} :
      (subEvaluate nested expression).Runs s tr answer t → Evaluates (next answer) t subs u →
      Evaluates (.resolve expression next) s (⟨expression, s, tr, t⟩ :: subs) u

/-- While the arguments of the frame are converted, for parameters of which the first has the given index,
    these sub-evaluations are asked for: those of the conversion for the first parameter, as the table has
    it by then, and those for the others. -/
inductive Frame.Evaluates (frame : Frame) :
    Nat → List Param → Shell σ → List (SubEvaluation σ) → Shell σ → Prop
  | nil (index : Nat) (s : Shell σ) : Evaluates frame index [] s [] s
  | missing {index : Nat} {param : Param} {params : List Param} {s t : Shell σ}
      {subs : List (SubEvaluation σ)} :
      frame.arguments[index]? = none → Evaluates frame (index + 1) params s subs t →
      Evaluates frame index (param :: params) s subs t
  | convert {index : Nat} {param : Param} {params : List Param} {argument : Argument} {parser : Parser}
      {s t u : Shell σ} {subs subs' : List (SubEvaluation σ)} :
      frame.arguments[index]? = some argument → s.types.parserFor? param.type = some parser →
      (parser argument.text).Evaluates nested s subs t →
      Evaluates frame (index + 1) params t subs' u →
      Evaluates frame index (param :: params) s (subs ++ subs') u

variable {nested}

/-- The sub-evaluations of a conversion lead from where it begins to where it ends. -/
theorem Parse.Evaluates.linked {p : Parse α} {s t : Shell σ} {subs : List (SubEvaluation σ)}
    (h : p.Evaluates nested s subs t) : Linked s subs t := by
  induction h with
  | done result s => rfl
  | resolve _ _ ih => exact ⟨rfl, ih⟩

/-- So do those of all arguments, for each is converted where the one before has ended. -/
theorem Frame.Evaluates.linked {frame : Frame} {index : Nat} {params : List Param} {s t : Shell σ}
    {subs : List (SubEvaluation σ)} (h : frame.Evaluates nested index params s subs t) :
    Linked s subs t := by
  induction h with
  | nil index s => rfl
  | missing _ _ ih => exact ih
  | convert _ _ hparse _ ih => exact linked_append.mpr ⟨_, hparse.linked, ih⟩

/-- The moments of a conversion are those of its sub-evaluations. The induction is on its requests. -/
theorem Eval.evaluates_of_runs_convert {p : Parse Value} {s t : Shell σ} {tr : List (Moment σ)}
    {r : Except ShellError (Except ParseFailure Value)} (h : (convert nested p).Runs s tr r t) :
    ∃ subs, p.Evaluates nested s subs t ∧ tr = subs.flatMap (·.moments) := by
  induction p generalizing s tr with
  | done result =>
      obtain ⟨rfl, -, rfl⟩ := runs_pure.mp h
      exact ⟨[], .done result t, rfl⟩
  | resolve expression next ih =>
      obtain ⟨tr₁, answer, u, tr₂, hrun, hrest, rfl⟩ := runs_attempt_bind.mp h
      obtain ⟨subs, hsubs, rfl⟩ := ih answer hrest
      exact ⟨⟨expression, s, tr₁, u⟩ :: subs, .resolve hrun hsubs, by simp⟩

/-- A parameter that has no argument is given its value at once, or the lack of it. -/
theorem Eval.runs_fetch_missing {frame : Frame} {index : Nat} {param : Param} {s t : Shell σ}
    {tr : List (Moment σ)} {r : Except ShellError Value} (hframe : s.stack.current = .ok frame)
    (hnone : frame.arguments[index]? = none) :
    (fetch nested index param).Runs s tr r t ↔
      tr = [] ∧ r = Eval.missing frame index param ∧ t = s := by
  rw [fetch, runs_get_bind, hframe, runs_lift_bind]
  simp [hnone, runs_lift]

/-- An argument is converted with what the table has for its parameter at that moment. -/
theorem Eval.evaluates_of_runs_fetch {frame : Frame} {index : Nat} {param : Param} {argument : Argument}
    {s t : Shell σ} {tr : List (Moment σ)} {v : Value} (hframe : s.stack.current = .ok frame)
    (hargument : frame.arguments[index]? = some argument)
    (h : (fetch nested index param).Runs s tr (.ok v) t) :
    ∃ parser subs, s.types.parserFor? param.type = some parser ∧
      (parser argument.text).Evaluates nested s subs t ∧ tr = subs.flatMap (·.moments) := by
  rw [fetch, runs_get_bind, hframe] at h
  rcases runs_lift_bind.mp h with ⟨frame', hsame, hfound⟩ | ⟨e, he, -⟩
  · cases hsame
    rw [hargument] at hfound
    dsimp only at hfound
    split at hfound
    · cases (runs_throw.mp hfound).2.1
    · next parser hparser =>
      rcases runs_bind.mp hfound with ⟨tr₁, result, u, tr₂, hconvert, hend, rfl⟩ | ⟨e, -, he⟩
      · obtain ⟨subs, hsubs, rfl⟩ := evaluates_of_runs_convert hconvert
        cases result with
        | ok v =>
            obtain ⟨rfl, -, rfl⟩ := runs_pure.mp hend
            exact ⟨parser, subs, hparser, hsubs, by simp⟩
        | error f => cases (runs_throw.mp hend).2.1
      · cases he
  · cases he

/-- The arguments of the innermost frame are converted one after the other. Whatever a sub-evaluation
    does, it leaves this frame where it is for the next one. -/
theorem Eval.evaluates_of_runs_fetchFrom (hnested : ∀ text, (nested text).Passes) {frame : Frame}
    {index : Nat} {params : List Param} {s t : Shell σ} {tr : List (Moment σ)} {vs : List Value}
    (hframe : s.stack.current = .ok frame) (h : (fetchFrom nested index params).Runs s tr (.ok vs) t) :
    ∃ subs, frame.Evaluates nested index params s subs t ∧ tr = subs.flatMap (·.moments) := by
  induction params generalizing index s tr vs with
  | nil =>
      obtain ⟨rfl, -, rfl⟩ := runs_pure.mp h
      exact ⟨[], .nil index t, rfl⟩
  | cons param params ih =>
      rcases runs_bind.mp h with ⟨tr₁, v, u, tr₂, hfirst, hrest, rfl⟩ | ⟨e, -, he⟩
      · rcases runs_bind.mp hrest with ⟨tr₃, vs', w, tr₄, hothers, hend, rfl⟩ | ⟨e, -, he⟩
        · obtain ⟨rfl, -, rfl⟩ := runs_pure.mp hend
          -- The next parameter is taken from the same frame.
          have hkept : u.stack.current = .ok frame := by
            rw [(passes_fetch hnested index param hfirst).sameLevel.stack]
            exact hframe
          obtain ⟨subs', hsubs', rfl⟩ := ih hkept hothers
          cases hargument : frame.arguments[index]? with
          | none =>
              obtain ⟨rfl, -, rfl⟩ := (runs_fetch_missing hframe hargument).mp hfirst
              exact ⟨subs', .missing hargument hsubs', by simp⟩
          | some argument =>
              obtain ⟨parser, subs, hparser, hsubs, rfl⟩ :=
                evaluates_of_runs_fetch hframe hargument hfirst
              exact ⟨subs ++ subs', .convert hargument hparser hsubs hsubs', by simp⟩
        · cases he
      · cases he

/-- Where no conversion asks for anything, nothing is evaluated. The induction is on the arguments; the
    table is still the same when the next one is converted. -/
theorem Frame.Evaluates.eq_of_quiet {frame : Frame} {index : Nat} {params : List Param} {s t : Shell σ}
    {subs : List (SubEvaluation σ)} (h : frame.Evaluates nested index params s subs t)
    (hquiet : ∀ (i : Nat) (param : Param) (argument : Argument) (parser : Parser),
      params[i]? = some param → frame.arguments[index + i]? = some argument →
      s.types.parserFor? param.type = some parser → ∃ result, parser argument.text = .done result) :
    subs = [] ∧ t = s := by
  induction h with
  | nil index s => exact ⟨rfl, rfl⟩
  | @missing index param params s t subs _ _ ih =>
      refine ih fun i param' argument parser hparam hargument => ?_
      rw [Nat.add_right_comm] at hargument
      exact hquiet (i + 1) param' argument parser hparam hargument
  | @convert index param params argument parser s t u subs subs' hargument hparser hparse _ ih =>
      obtain ⟨result, hdone⟩ := hquiet 0 param argument parser rfl hargument hparser
      rw [hdone] at hparse
      cases hparse
      refine ih fun i param' argument parser hparam hargument => ?_
      rw [Nat.add_right_comm] at hargument
      exact hquiet (i + 1) param' argument parser hparam hargument

end Asked

/-! ## Losing a target -/

/-- One of the sub-evaluations makes the target of the call vanish, and the later ones leave it so. -/
def Call.LosesTarget (c : Call σ) (subs : List (SubEvaluation σ)) : Prop :=
  ∃ before sub after, subs = before ++ sub :: after ∧
    c.binding.profile.isAlive sub.start.memory = true ∧
    ∀ sub' ∈ sub :: after, c.binding.profile.isAlive sub'.final.memory = false

/-- Where the target existed at first, it is missing in the end exactly if it has been lost. The
    induction is on the last sub-evaluation: the target has vanished there, or it was missing before. -/
theorem Call.losesTarget_iff {c : Call σ} {u v : Shell σ} {subs : List (SubEvaluation σ)}
    (hlinked : Linked u subs v) (h : c.binding.profile.isAlive u.memory = true) :
    c.LosesTarget subs ↔ c.binding.profile.isAlive v.memory = false := by
  constructor
  · rintro ⟨before, sub, after, rfl, -, hdead⟩
    obtain ⟨w, -, hrest⟩ := linked_append.mp hlinked
    obtain ⟨init, last, hlast⟩ := (sub :: after).eq_nil_or_concat.resolve_left (List.cons_ne_nil sub after)
    rw [hlast, List.concat_eq_append] at hdead hrest
    obtain ⟨w', -, -, rfl⟩ := linked_append.mp hrest
    exact hdead last (by simp)
  · intro hdead
    induction subs using List.reverseRecOn generalizing v with
    | nil =>
        cases hlinked
        rw [h] at hdead
        cases hdead
    | append_singleton subs sub ih =>
        obtain ⟨w, hbefore, rfl, rfl⟩ := linked_append.mp hlinked
        -- Where the target is missing before the last one already, an earlier one has lost it.
        cases hstart : c.binding.profile.isAlive sub.start.memory with
        | true => exact ⟨subs, sub, [], rfl, hstart, by simpa using hdead⟩
        | false =>
            obtain ⟨before, sub', after, rfl, halive, hafter⟩ := ih hbefore hstart
            refine ⟨before, sub', after ++ [sub], by simp, halive, ?_⟩
            intro sub'' hsub''
            rw [← List.cons_append, List.mem_append, List.mem_singleton] at hsub''
            rcases hsub'' with hsub'' | rfl
            · exact hafter sub'' hsub''
            · exact hdead

/-! ## What comes before a call -/

/-- The sub-evaluations that the arguments of the call ask for, with so many levels left. -/
def Call.Evaluates (c : Call σ) (levels : Nat) (u : Shell σ) (subs : List (SubEvaluation σ))
    (v : Shell σ) : Prop :=
  c.frame.Evaluates (evaluateWithin levels) 0 c.binding.profile.params u subs v

/-- The arguments of the call are converted without evaluating anything. -/
def Call.Quiet (c : Call σ) (types : Conversions) : Prop :=
  ∀ (i : Nat) (param : Param) (argument : Argument) (parser : Parser),
    c.binding.profile.params[i]? = some param → c.frame.arguments[i]? = some argument →
    types.parserFor? param.type = some parser → ∃ result, parser argument.text = .done result

/-- The conversion asks for nothing. -/
def Parse.isDone : Parse α → Bool
  | .done _ => true
  | .resolve _ _ => false

theorem Parse.isDone_iff {p : Parse α} : p.isDone = true ↔ ∃ result, p = .done result := by
  cases p <;> simp [isDone]

/-- It can be looked up, parameter by parameter, whether the arguments ask for anything. -/
instance (c : Call σ) (types : Conversions) : Decidable (c.Quiet types) :=
  decidable_of_iff
    (∀ entry ∈ c.binding.profile.params.zip c.frame.arguments,
      ∀ parser ∈ types.parserFor? entry.1.type, (parser entry.2.text).isDone = true) <| by
    constructor
    · intro h i param argument parser hparam hargument hparser
      have hentry : (param, argument) ∈ c.binding.profile.params.zip c.frame.arguments :=
        List.mem_of_getElem? (List.getElem?_zip_eq_some.mpr ⟨hparam, hargument⟩)
      exact Parse.isDone_iff.mp (h _ hentry parser hparser)
    · intro h entry hentry parser hparser
      obtain ⟨i, hi⟩ := List.mem_iff_getElem?.mp hentry
      obtain ⟨hparam, hargument⟩ := List.getElem?_zip_eq_some.mp hi
      exact Parse.isDone_iff.mpr (h i _ _ parser hparam hargument hparser)

/-- A value of the type has no elements, or it is nothing at all. -/
def ValueType.IsScalar : ValueType → Prop
  | text | int | float | bool => True
  | optional inner => inner.IsScalar
  | _ => False

/-- No type of the host is part of such a type. -/
theorem ValueType.IsScalar.mentionsCustom {type : ValueType} (h : type.IsScalar) :
    type.mentionsCustom = false := by
  induction type with
  | optional inner ih => exact ih h
  | text | int | float | bool => rfl
  | array | vec2 | vec3 | vec4 | custom => exact h.elim

theorem ValueType.IsScalar.vectorBounds?_eq_none {type : ValueType} (h : type.IsScalar) :
    type.vectorBounds? = none := by
  cases type with
  | text | int | float | bool | optional | array | custom => rfl
  | vec2 | vec3 | vec4 => exact h.elim

/-- Only the elements of a value may be evaluated, so a text for a value without any is converted as it
    is. The host may have conversions for types of its own. -/
theorem Conversions.isDone_of_isScalar {table : Conversions} (htable : table.KeepsBuiltin) {type : ValueType}
    {parser : Parser} (hparser : table.parserFor? type = some parser) (htype : type.IsScalar)
    (text : String) : (parser text).isDone = true := by
  let M (type : ValueType) (parser : Parser) : Prop :=
    type.IsScalar → ∀ text, (parser text).isDone = true
  have hdone : M type parser := by
    refine Conversions.parserFor?_induction (M := M) ?_ ?_ ?_ hparser
    · intro type parser hentry htype text
      have hstandard : (type, parser) ∈ Conversions.standard.entries := by
        refine (htable _ hentry).resolve_right ?_
        simp [htype.mentionsCustom]
      rcases Conversions.mem_standard hstandard with
        ⟨-, rfl⟩ | ⟨-, rfl⟩ | ⟨-, rfl⟩ | ⟨-, rfl⟩ | ⟨bounds, hbounds, -⟩
      · rfl
      · rfl
      · rfl
      · rfl
      · rw [htype.vectorBounds?_eq_none] at hbounds
        cases hbounds
    · intro type parser ih htype text
      show (if isNullText text then pure .null else parser text : Parse Value).isDone = true
      split
      · rfl
      · exact ih htype text
    · intro type parser _ htype
      exact htype.elim
  exact hdone htype text

/-- So a call whose parameters have no elements asks for nothing. -/
theorem Call.quiet_of_isScalar {c : Call σ} {types : Conversions} (htypes : types.KeepsBuiltin)
    (h : ∀ param ∈ c.binding.profile.params, param.type.IsScalar) : c.Quiet types := by
  intro i param argument parser hparam _ hparser
  have hscalar := h param (List.mem_of_getElem? hparam)
  exact Parse.isDone_iff.mp (Conversions.isDone_of_isScalar htypes hparser hscalar argument.text)

namespace Call.Prepared

variable {c : Call σ} {u v : Shell σ} {conversion : List (Moment σ)}

/-- The evaluator prepares a call of what it has found under the name of the frame, with its target in
    place, and then nothing runs but the sub-evaluations that the arguments ask for. -/
theorem found (h : c.Prepared u conversion v) :
    u.registry.lookup? c.frame.name = some c.binding ∧ c.binding.profile.isAlive u.memory = true ∧
      ∃ levels subs, c.Evaluates levels u subs v ∧ conversion = subs.flatMap (·.moments) := by
  obtain ⟨levels, hrun⟩ := h.prepares
  rw [prepare, runs_get_bind] at hrun
  split at hrun
  · cases (runs_throw.mp hrun).2.1
  · next b hb =>
    split at hrun
    · next halive =>
      rcases runs_bind.mp hrun with ⟨tr₁, vs, w, tr₂, hfetch, hend, rfl⟩ | ⟨e, -, he⟩
      · obtain ⟨rfl, hready, rfl⟩ := runs_pure.mp hend
        simp only [Except.ok.injEq, Prod.mk.injEq] at hready
        obtain ⟨rfl, -⟩ := hready
        obtain ⟨subs, hsubs, rfl⟩ :=
          evaluates_of_runs_fetchFrom (passes_evaluateWithin levels) h.framed hfetch
        exact ⟨hb, halive, levels, subs, hsubs, by simp⟩
      · cases he
    · obtain ⟨tr₁, hend, -⟩ := runs_modify_bind.mp hrun
      cases (runs_throw.mp hend).2.1

/-- A call with arguments that evaluate nothing has its target in place. -/
theorem isAlive_of_quiet (h : c.Prepared u conversion v) (hquiet : c.Quiet u.types) :
    c.binding.profile.isAlive v.memory = true := by
  obtain ⟨-, halive, levels, subs, hsubs, -⟩ := h.found
  obtain ⟨-, rfl⟩ := hsubs.eq_of_quiet fun i param argument parser hparam hargument => by
    rw [Nat.zero_add] at hargument
    exact hquiet i param argument parser hparam hargument
  exact halive

end Call.Prepared

/-! ## Calls of a run -/

/-- Every call among the moments comes right behind its preparation, which begins where its frame is
    pushed. -/
def Eval.CallsPrepared (tr : List (Moment σ)) : Prop :=
  ∀ ⦃before c v after⦄, tr = before ++ ⟨v, some (.call c)⟩ :: after →
    ∃ earlier u conversion, before = earlier ++ ⟨u, none⟩ :: conversion ∧ c.Prepared u conversion v

namespace Eval

theorem callsPrepared_nil : CallsPrepared ([] : List (Moment σ)) := by
  intro before c v after h
  simp at h

/-- A moment that is no call. -/
theorem CallsPrepared.cons {m : Moment σ} {tr : List (Moment σ)} (hm : ∀ c, m.note? ≠ some (.call c))
    (h : CallsPrepared tr) : CallsPrepared (m :: tr) := by
  intro before c v after heq
  cases before with
  | nil =>
      cases heq
      exact absurd rfl (hm c)
  | cons m' before =>
      rw [List.cons_append] at heq
      cases heq
      obtain ⟨earlier, u, conversion, rfl, hprepared⟩ := h rfl
      exact ⟨m :: earlier, u, conversion, rfl, hprepared⟩

theorem callsPrepared_change (s : Shell σ) : CallsPrepared [⟨s, none⟩] :=
  callsPrepared_nil.cons (by simp)

/-- A moment among those of two parts is a moment of one of them. -/
theorem cut_append {tr tr' before after : List (Moment σ)} {m : Moment σ}
    (h : tr ++ tr' = before ++ m :: after) :
    (∃ rest, tr = before ++ m :: rest) ∨ ∃ rest, before = tr ++ rest ∧ tr' = rest ++ m :: after := by
  rcases List.append_eq_append_iff.mp h with ⟨rest, hbefore, hrest⟩ | ⟨rest, htr, hrest⟩
  · exact .inr ⟨rest, hbefore, hrest⟩
  · cases rest with
    | nil => exact .inr ⟨[], by simpa using htr.symm, hrest.symm⟩
    | cons m' rest =>
        rw [List.cons_append] at hrest
        cases hrest
        exact .inl ⟨rest, htr⟩

/-- The preparation of a call lies in the same part as the call. -/
theorem CallsPrepared.append {tr tr' : List (Moment σ)} (h : CallsPrepared tr) (h' : CallsPrepared tr') :
    CallsPrepared (tr ++ tr') := by
  intro before c v after heq
  rcases cut_append heq with ⟨rest, htr⟩ | ⟨rest, rfl, htr'⟩
  · exact h htr
  · obtain ⟨earlier, u, conversion, rfl, hprepared⟩ := h' htr'
    exact ⟨tr ++ earlier, u, conversion, by simp, hprepared⟩

/-- Behind its preparation comes the call itself, or it is a call of the conversion that is meant. -/
theorem CallsPrepared.snoc_call {c : Call σ} {u v : Shell σ} {conversion : List (Moment σ)}
    (h : CallsPrepared conversion) (hprepared : c.Prepared u conversion v) :
    CallsPrepared ((⟨u, none⟩ :: conversion) ++ [⟨v, some (.call c)⟩]) := by
  have hbefore : CallsPrepared (⟨u, none⟩ :: conversion) := h.cons (by simp)
  intro before c' v' after heq
  rcases cut_append heq with ⟨rest, htr⟩ | ⟨rest, rfl, hcall⟩
  · exact hbefore htr
  · cases rest with
    | nil =>
        cases hcall
        exact ⟨[], u, conversion, by simp, hprepared⟩
    | cons m rest => simp at hcall

end Eval

/-- The induction is on the passage: the call that the evaluator makes comes behind its preparation, and
    every other call is one of a part. -/
theorem Passage.callsPrepared {s t : Shell σ} {tr : List (Moment σ)} (h : Passage s tr t) :
    CallsPrepared tr := by
  induction h with
  | nil s => exact callsPrepared_nil
  | append _ _ ih ih' => exact ih.append ih'
  | change hl => exact callsPrepared_change _
  | take s expression start => exact callsPrepared_nil.cons (by simp)
  | enclose depth stack _ ih => exact (ih.append (callsPrepared_change _)).cons (by simp)
  | @call s u v w c conversion body _ hprepared _ _ ih ih' =>
      have hcall := ih.snoc_call hprepared
      have hrest := ih'.append (callsPrepared_change (w.atLevel s.depth s.stack))
      simpa using hcall.append hrest

/-! ## Missing targets -/

/-- A dispatch that finds the target missing removes the binding and calls nothing. -/
theorem Eval.runs_dispatch_expired (nested : String → Eval σ Unit) {s : Shell σ} {frame : Frame}
    {b : Binding σ} (hb : s.registry.lookup? frame.name = some b)
    (hdead : b.profile.isAlive s.memory = false) :
    (dispatch nested frame).Runs s
      [⟨s.atLevel s.depth (s.stack.push frame), none⟩,
        ⟨(s.unbind frame.name).atLevel s.depth (s.stack.push frame), none⟩, ⟨s.unbind frame.name, none⟩]
      (.error (.invalidated frame.name)) (s.unbind frame.name) := by
  have hprepare : (prepare nested frame.name).Runs (s.atLevel s.depth (s.stack.push frame))
      [⟨(s.unbind frame.name).atLevel s.depth (s.stack.push frame), none⟩]
      (.error (.invalidated frame.name)) ((s.unbind frame.name).atLevel s.depth (s.stack.push frame)) := by
    rw [prepare, runs_get_bind]
    simp only [Shell.atLevel, hb, hdead]
    exact runs_modify_bind.mpr ⟨[], runs_throw.mpr ⟨rfl, rfl, rfl⟩, rfl⟩
  refine runs_modify_bind.mpr ⟨_, runs_attempt_bind.mpr ⟨_, _, _, _,
    runs_bind.mpr (.inr ⟨_, hprepare, rfl⟩), runs_modify_bind.mpr ⟨[], ?_, rfl⟩, rfl⟩, rfl⟩
  exact runs_lift.mpr ⟨rfl, rfl, rfl⟩

theorem Registry.lookup?_remove (r : Registry σ) (name : String) : (r.remove name).lookup? name = none := by
  simp [lookup?, remove, Dictionary.getElem?_erase]

/-- A test that a call among the notes passes can be run, and the call is found. -/
theorem Eval.exists_call_of_any (notes : List (Note σ × Shell σ)) (test : Call σ → Shell σ → Bool)
    (h : notes.any (fun | (.call c, v) => test c v | (.take _ _, _) => false) = true) :
    ∃ c v, (.call c, v) ∈ notes ∧ test c v = true := by
  obtain ⟨⟨note, v⟩, hmem, hnote⟩ := List.any_eq_true.mp h
  cases note with
  | call c => exact ⟨c, v, hmem, hnote⟩
  | take expression start => cases hnote

namespace Shell

/-- Every call of every run has been prepared in a state in which its target existed, and from there to the
    call there are only the sub-evaluations that its arguments ask for. The target is there in the call
    unless one of these has lost it, and so it is if the arguments ask for none. Where the conversions are
    the built-in ones, only parameters with elements have arguments that ask: arrays and vectors. A
    dispatch that finds the target missing fails, calls nothing and leaves the name without a binding. -/
theorem calls_find_target_iff (program : Action σ) (s : Shell σ) :
    (∀ before c v after, (serve program).trace s = before ++ ⟨v, some (.call c)⟩ :: after →
      ∃ earlier u conversion, before = earlier ++ ⟨u, none⟩ :: conversion ∧
        c.Prepared u conversion v ∧ c.binding.profile.isAlive u.memory = true ∧
        (∃ levels subs, c.Evaluates levels u subs v ∧ conversion = subs.flatMap (·.moments) ∧
          (c.binding.profile.isAlive v.memory = true ↔ ¬ c.LosesTarget subs)) ∧
        (c.Quiet u.types → c.binding.profile.isAlive v.memory = true)) ∧
    (∀ (c : Call σ) (types : Conversions), types.KeepsBuiltin →
      (∀ param ∈ c.binding.profile.params, param.type.IsScalar) → c.Quiet types) ∧
    ∀ nested frame b, s.registry.lookup? frame.name = some b → b.profile.isAlive s.memory = false →
      (dispatch nested frame).exec s = (.error (.invalidated frame.name), s.unbind frame.name) ∧
        (dispatch nested frame).notes s = [] ∧
        (s.unbind frame.name).registry.lookup? frame.name = none := by
  refine ⟨?_, fun c types htypes => Call.quiet_of_isScalar htypes, ?_⟩
  · intro before c v after htrace
    have hpassage := passes_perform passes_evalBlock program (runs_self (serve program) s)
    obtain ⟨earlier, u, conversion, hbefore, hprepared⟩ := hpassage.callsPrepared htrace
    obtain ⟨-, halive, levels, subs, hsubs, hconversion⟩ := hprepared.found
    refine ⟨earlier, u, conversion, hbefore, hprepared, halive, ⟨levels, subs, hsubs, hconversion, ?_⟩,
      hprepared.isAlive_of_quiet⟩
    rw [Call.losesTarget_iff hsubs.linked halive, Bool.not_eq_false]
  · intro nested frame b hb hdead
    have hrun := runs_dispatch_expired nested hb hdead
    refine ⟨hrun.exec, ?_, s.registry.lookup?_remove frame.name⟩
    rw [notes, hrun.trace]
    rfl

/-- A host at work that has `heal` called with a number. -/
def healing : Action Demo.Player :=
  .evalBlock "heal 5" fun _ => .done (.ok none)

/-- A number asks for nothing, so `heal` has its player. -/
theorem calls_find_target_number :
    ∃ c u v conversion,
      (.call c, v) ∈ (serve healing).notes ((bindDemo .panics .whole).exec (start {} {})).2 ∧
      c.frame = ⟨"heal", [⟨"5", .literal⟩]⟩ ∧ c.Prepared u conversion v ∧ c.Quiet u.types ∧
      c.binding.profile.isAlive v.memory = true := by
  obtain ⟨c, v, hmem, hcall⟩ := exists_call_of_any
    ((serve healing).notes ((bindDemo .panics .whole).exec (start {} {})).2)
    (fun c _ => c.frame = ⟨"heal", [⟨"5", .literal⟩]⟩ ∧
      ∀ m ∈ (serve healing).trace ((bindDemo .panics .whole).exec (start {} {})).2, c.Quiet m.shell.types)
    (by decide +kernel)
  obtain ⟨hframe, hquiet⟩ := of_decide_eq_true hcall
  obtain ⟨before, after, htrace⟩ := List.append_of_mem (mem_notes.mp hmem)
  obtain ⟨earlier, u, conversion, hbefore, hprepared, -, -, hfound⟩ :=
    (calls_find_target_iff healing _).1 before c v after htrace
  have hu := hquiet ⟨u, none⟩ (by rw [htrace, hbefore]; simp)
  exact ⟨c, u, v, conversion, hmem, hframe, hprepared, hu, hfound hu⟩

/-- The demo host at work: a call of `teleport` with an array whose first element removes the player. -/
def despawning : Action Demo.Player :=
  .evalBlock "teleport ((despawn; print 1), 2, 3)" fun _ => .done (.ok none)

/-- The player is there when `teleport` has been found, and is moved when it has been removed. -/
theorem calls_lost_target :
    ∃ c v, (.call c, v) ∈ (serve despawning).notes ((bindDemo .panics .whole).exec (start {} {})).2 ∧
      c.frame.name = "teleport" ∧ c.binding.profile.isAlive v.memory = false := by
  obtain ⟨c, v, hmem, hcall⟩ := exists_call_of_any
    ((serve despawning).notes ((bindDemo .panics .whole).exec (start {} {})).2)
    (fun c v => c.frame.name == "teleport" && !c.binding.profile.isAlive v.memory)
    (by decide +kernel)
  simp only [Bool.and_eq_true, beq_iff_eq, Bool.not_eq_true'] at hcall
  exact ⟨c, v, hmem, hcall.1, hcall.2⟩

end Shell
end CommandShell
