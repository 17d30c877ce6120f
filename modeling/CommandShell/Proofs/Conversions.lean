import CommandShell.Conversion.Table
import CommandShell.Proofs.Evaluation.Run
import CommandShell.Proofs.Scanning
import CommandShell.Shell.Evaluate

/-!
# `CommandShell.Proofs.Conversions` — what a conversion can give

What a conversion gives depends on the answers it gets. Which answers those are, its resolver decides: a
function, the shell, or a host with a state of its own. So results are spoken of here by what all answers
have in common, and what holds of them holds under every resolver whose answers are of this kind.

An array literal is converted part by part, and each value in it comes from the conversion of its
elements. A conversion that could not evaluate something failed because a group is open in a literal,
because of an answer, or because the conversion of an element says so.

## Contents
- `Parse.Gives`, with one lemma for each way to build a conversion.
- `Parse.ok_of_parseElements` and `Parse.resolution_of_parseElements`, the two ends of a literal.
- `Conversions.parserFor?_induction`, a fact about every conversion of a table.
- `Parse.gives_run` and `Eval.gives_of_runs_convert`, two resolvers, and how the second one fails.
-/

namespace CommandShell

variable {α β : Type}

namespace Parse

variable {A : Except ShellError String → Prop}

/-- The conversion gives this result if it gets certain answers, which all satisfy `A`. -/
inductive Gives (A : Except ShellError String → Prop) : Parse α → Except ParseFailure α → Prop where
  | done (result) : Gives A (.done result) result
  | resolve {expression next answer result} : A answer → Gives A (next answer) result →
      Gives A (.resolve expression next) result

/-! ## Steps -/

section Steps

variable {p : Parse α}

theorem gives_done {r result : Except ParseFailure α} :
    (Parse.done result).Gives A r ↔ r = result := by
  constructor
  · rintro ⟨⟩
    rfl
  · rintro rfl
    exact .done r

theorem gives_pure {a : α} {r : Except ParseFailure α} : (pure a : Parse α).Gives A r ↔ r = .ok a :=
  gives_done

theorem gives_fail {e : ParseFailure} {r : Except ParseFailure α} :
    (fail e : Parse α).Gives A r ↔ r = .error e :=
  gives_done

/-- A sequence gives what its second part gives, from something that its first part gives. -/
theorem gives_andThen {f : Except ParseFailure α → Parse β} {r : Except ParseFailure β} :
    (p.andThen f).Gives A r ↔ ∃ result, p.Gives A result ∧ (f result).Gives A r := by
  induction p with
  | done result =>
      rw [andThen]
      constructor
      · intro h
        exact ⟨result, .done result, h⟩
      · rintro ⟨result', hfirst, h⟩
        rw [gives_done] at hfirst
        rwa [hfirst] at h
  | resolve expression next ih =>
      rw [andThen]
      constructor
      · rintro (_ | ⟨hA, h⟩)
        obtain ⟨result, hfirst, hrest⟩ := (ih _).mp h
        exact ⟨result, .resolve hA hfirst, hrest⟩
      · rintro ⟨result, (_ | ⟨hA, hfirst⟩), hrest⟩
        exact .resolve hA ((ih _).mpr ⟨result, hfirst, hrest⟩)

theorem gives_bind {f : α → Parse β} {r : Except ParseFailure β} :
    (p >>= f).Gives A r ↔
      (∃ a, p.Gives A (.ok a) ∧ (f a).Gives A r) ∨ ∃ e, p.Gives A (.error e) ∧ r = .error e := by
  refine gives_andThen.trans ⟨?_, ?_⟩
  · rintro ⟨a | e, hfirst, hrest⟩
    · exact .inr ⟨_, hfirst, gives_fail.mp hrest⟩
    · exact .inl ⟨_, hfirst, hrest⟩
  · rintro (⟨a, hfirst, hrest⟩ | ⟨e, hfirst, rfl⟩)
    · exact ⟨.ok a, hfirst, hrest⟩
    · exact ⟨.error e, hfirst, gives_fail.mpr rfl⟩

theorem gives_mapFailure_ok {f : ParseFailure → ParseFailure} {a : α} :
    (p.mapFailure f).Gives A (.ok a) ↔ p.Gives A (.ok a) := by
  refine gives_andThen.trans ⟨?_, fun h => ⟨.ok a, h, .done _⟩⟩
  rintro ⟨b | b, hresult, hend⟩
  · cases gives_done.mp hend
  · cases gives_done.mp hend
    exact hresult

theorem gives_mapFailure_error {f : ParseFailure → ParseFailure} {e : ParseFailure} :
    (p.mapFailure f).Gives A (.error e) ↔ ∃ e', p.Gives A (.error e') ∧ f e' = e := by
  refine gives_andThen.trans ⟨?_, ?_⟩
  · rintro ⟨e' | a, hresult, hend⟩
    · cases gives_done.mp hend
      exact ⟨e', hresult, rfl⟩
    · cases gives_done.mp hend
  · rintro ⟨e', hresult, rfl⟩
    exact ⟨.error e', hresult, .done _⟩

theorem gives_resolved {expression : String} {r : Except ParseFailure String} :
    (resolved expression).Gives A r ↔
      (∃ text, A (.ok text) ∧ r = .ok text) ∨ ∃ e, A (.error e) ∧ r = .error (.resolution e) := by
  constructor
  · rintro (_ | @⟨_, _, answer, _, hA, h⟩)
    cases answer with
    | ok text => exact .inl ⟨text, hA, gives_done.mp h⟩
    | error e => exact .inr ⟨e, hA, gives_fail.mp h⟩
  · rintro (⟨text, hA, rfl⟩ | ⟨e, hA, rfl⟩)
    · exact .resolve hA (.done _)
    · exact .resolve hA (.done _)

/-- Under a resolver with a state of its own, which may answer anything. -/
theorem gives_run {ρ : Type} (resolver : String → StateM ρ (Except ShellError String)) (p : Parse α)
    (start : ρ) : p.Gives (fun _ => True) ((p.run resolver).run start).1 := by
  induction p generalizing start with
  | done result => exact .done result
  | resolve expression next ih =>
      have hrest := ih ((resolver expression).run start).1 ((resolver expression).run start).2
      exact .resolve trivial hrest

end Steps

/-! ## Literals -/

section Literals

variable {element : Parser} {v : Value} {e : ShellError}

/-- One part of a literal that converts, by the text that its token stands for. -/
theorem ok_of_parseElement {index : Nat} {part : List Char}
    (h : (parseElement element index part).Gives A (.ok v)) :
    ∃ text, (element text).Gives A (.ok v) := by
  unfold parseElement at h
  dsimp only at h
  split at h
  · cases gives_fail.mp h
  · split at h
    · cases gives_fail.mp h
    · split at h
      · rcases gives_bind.mp h with ⟨text, -, hrest⟩ | ⟨f, -, hv⟩
        · exact ⟨text, gives_mapFailure_ok.mp hrest⟩
        · cases hv
      · exact ⟨_, gives_mapFailure_ok.mp h⟩

theorem ok_of_parseParts {index : Nat} {parts : List (List Char)} {vs : List Value}
    (h : (parseParts element index parts).Gives A (.ok vs)) :
    ∀ v ∈ vs, ∃ text, (element text).Gives A (.ok v) := by
  induction parts generalizing index vs with
  | nil =>
      cases gives_pure.mp h
      exact fun v hv => absurd hv (by simp)
  | cons part parts ih =>
      rw [parseParts] at h
      rcases gives_bind.mp h with ⟨v, hfirst, hrest⟩ | ⟨f, -, hvs⟩
      · rcases gives_bind.mp hrest with ⟨rest, hparts, hend⟩ | ⟨f, -, hvs⟩
        · cases gives_pure.mp hend
          exact List.forall_mem_cons.mpr ⟨ok_of_parseElement hfirst, ih hparts⟩
        · cases hvs
      · cases hvs

/-- The values of a literal that converts are values that its elements convert to. -/
theorem ok_of_parseElements {s : String} {vs : List Value}
    (h : (parseElements element s).Gives A (.ok vs)) :
    ∀ v ∈ vs, ∃ text, (element text).Gives A (.ok v) := by
  unfold parseElements at h
  split at h
  · cases gives_pure.mp h
    exact fun v hv => absurd hv (by simp)
  · split at h
    · cases gives_fail.mp h
    · exact ok_of_parseParts h

/-- Why something could not be evaluated: a group is open in a literal, an answer says so, or the
    conversion of an element does. -/
def Unresolved (A : Except ShellError String → Prop) (element : Parser) (e : ShellError) : Prop :=
  (∃ closer, e = .unexpectedEnd closer) ∨ A (.error e) ∨
    ∃ text, (element text).Gives A (.error (.resolution e))

theorem resolution_of_atElement {index : Nat} {isResult : Bool} {f : ParseFailure}
    (h : atElement index isResult f = .resolution e) : f = .resolution e := by
  cases f with
  | resolution e' => exact h
  | invalid | components | element | notSingle | returned | unsupported => cases h

theorem resolution_of_parseElement {index : Nat} {part : List Char}
    (h : (parseElement element index part).Gives A (.error (.resolution e))) :
    Unresolved A element e := by
  have hmapped {isResult : Bool} {text : String}
      (h : ((element text).mapFailure (atElement index isResult)).Gives A (.error (.resolution e))) :
      Unresolved A element e := by
    obtain ⟨f, hresult, hf⟩ := gives_mapFailure_error.mp h
    rw [resolution_of_atElement hf] at hresult
    exact .inr (.inr ⟨text, hresult⟩)
  unfold parseElement at h
  dsimp only at h
  split at h
  · next e' he' =>
    cases gives_fail.mp h
    exact .inl (nextToken_error he')
  · split at h
    · cases gives_fail.mp h
    · split at h
      · rcases gives_bind.mp h with ⟨text, -, hrest⟩ | ⟨f, hresolved, he⟩
        · exact hmapped hrest
        · cases he
          rcases gives_resolved.mp hresolved with ⟨text, -, he⟩ | ⟨e', hA, he⟩
          · cases he
          · cases he
            exact .inr (.inl hA)
      · exact hmapped h

theorem resolution_of_parseParts {index : Nat} {parts : List (List Char)}
    (h : (parseParts element index parts).Gives A (.error (.resolution e))) :
    Unresolved A element e := by
  induction parts generalizing index with
  | nil => cases gives_pure.mp h
  | cons part parts ih =>
      rw [parseParts] at h
      rcases gives_bind.mp h with ⟨v, -, hrest⟩ | ⟨f, hfirst, he⟩
      · rcases gives_bind.mp hrest with ⟨rest, -, hend⟩ | ⟨f, hparts, he⟩
        · cases gives_pure.mp hend
        · cases he
          exact ih hparts
      · cases he
        exact resolution_of_parseElement hfirst

/-- What keeps a literal from being evaluated keeps one of its elements from it, or the literal is not
    closed. -/
theorem resolution_of_parseElements {s : String}
    (h : (parseElements element s).Gives A (.error (.resolution e))) : Unresolved A element e := by
  unfold parseElements at h
  split at h
  · cases gives_pure.mp h
  · split at h
    · next e' he' =>
      cases gives_fail.mp h
      exact .inl (splitArray_error he')
    · exact resolution_of_parseParts h

end Literals

end Parse

/-! ## Tables -/

namespace Conversions

variable {table : Conversions} {type : ValueType}

theorem mem_entries_of_registered {parser : Parser} (h : table.registered? type = some parser) :
    (type, parser) ∈ table.entries := by
  obtain ⟨before, after, hentries, -⟩ := List.lookup_eq_some_iff.mp h
  rw [hentries]
  exact List.mem_append_right before List.mem_cons_self

/-- What holds of the registered conversions and goes over to optional values and arrays holds of every
    conversion that a table has. The induction is on the type. -/
theorem parserFor?_induction {M : ValueType → Parser → Prop}
    (hregistered : ∀ {type parser}, (type, parser) ∈ table.entries → M type parser)
    (hoptional : ∀ {type parser}, M type parser → M (.optional type) (parseOptional parser))
    (harray : ∀ {type parser}, M type parser → M (.array type) (parseArray parser))
    {parser : Parser} (h : table.parserFor? type = some parser) : M type parser := by
  induction type generalizing parser with
  | optional inner ih =>
      unfold parserFor? at h
      split at h
      · next registered hreg =>
        cases h
        exact hregistered (mem_entries_of_registered hreg)
      · obtain ⟨p, hp, rfl⟩ := Option.map_eq_some_iff.mp h
        exact hoptional (ih hp)
  | array element ih =>
      unfold parserFor? at h
      split at h
      · next registered hreg =>
        cases h
        exact hregistered (mem_entries_of_registered hreg)
      · obtain ⟨p, hp, rfl⟩ := Option.map_eq_some_iff.mp h
        exact harray (ih hp)
  | text | int | float | bool | vec2 | vec3 | vec4 | custom name =>
      unfold parserFor? at h
      split at h
      · next registered hreg =>
        cases h
        exact hregistered (mem_entries_of_registered hreg)
      · cases h

/-- A conversion that stands in the built-in table: that of a scalar, or that of a vector. -/
theorem mem_standard {parser : Parser} (h : (type, parser) ∈ standard.entries) :
    (type = .text ∧ parser = fun s => .done (parseText s)) ∨
      (type = .int ∧ parser = fun s => .done (parseInt s)) ∨
      (type = .float ∧ parser = fun s => .done (parseFloat s)) ∨
      (type = .bool ∧ parser = fun s => .done (parseBool s)) ∨
      ∃ bounds, type.vectorBounds? = some bounds ∧ parser = parseVector bounds := by
  rcases List.mem_append.mp h with h | h
  · simp only [List.mem_cons, Prod.mk.injEq, List.not_mem_nil, or_false] at h
    rcases h with h | h | h | h
    · exact .inl h
    · exact .inr (.inl h)
    · exact .inr (.inr (.inl h))
    · exact .inr (.inr (.inr (.inl h)))
  · obtain ⟨vector, -, hentry⟩ := List.mem_filterMap.mp h
    obtain ⟨bounds, hbounds, heq⟩ := Option.map_eq_some_iff.mp hentry
    cases heq
    exact .inr (.inr (.inr (.inr ⟨bounds, hbounds, rfl⟩)))

end Conversions

/-! ## In a shell -/

namespace Eval

variable {σ : Type} {nested : String → Eval σ Unit} {s t : Shell σ} {tr : List (Moment σ)}

/-- An evaluation that fails has reported its failure. -/
theorem aborted_of_runs_evaluateWithin {levels : Nat} {text : String} {e : ShellError}
    (h : (evaluateWithin levels text).Runs s tr (.error e) t) : e = .aborted := by
  have habort {e' : ShellError} {s t : Shell σ} {tr : List (Moment σ)}
      (h : (abort e' : Eval σ Unit).Runs s tr (.error e) t) : e = .aborted := by
    obtain ⟨-, he, -⟩ := runs_abort.mp h
    cases he
    rfl
  cases levels with
  | zero => exact habort (runs_get_bind.mp h)
  | succ levels =>
      obtain ⟨tr₁, hbody, rfl⟩ := runs_modify_bind.mp (runs_get_bind.mp h)
      obtain ⟨tr₂, outcome, u, tr₃, -, hrest, rfl⟩ := runs_attempt_bind.mp hbody
      obtain ⟨tr₄, hend, rfl⟩ := runs_modify_bind.mp hrest
      cases outcome with
      | ok _ => cases (runs_pure.mp hend).2.1
      | error e' => exact habort hend

/-- A sub-evaluation fails as one that has reported its failure, or because it has no result. -/
theorem failure_of_runs_subEvaluate
    (hnested : ∀ {text s tr e t}, (nested text).Runs s tr (.error e) t → e = .aborted)
    {expression : String} {e : ShellError}
    (h : (subEvaluate nested expression).Runs s tr (.error e) t) :
    e = .aborted ∨ e = .voidReturn expression := by
  rcases runs_bind.mp (runs_get_bind.mp h) with ⟨tr₁, _, u, tr₂, -, hrest, -⟩ | ⟨e', hrun, he⟩
  · rw [runs_get_bind] at hrest
    by_cases hsame : u.output.emitted = s.output.emitted
    · rw [if_pos hsame] at hrest
      cases (runs_throw.mp hrest).2.1
      exact .inr rfl
    · rw [if_neg hsame] at hrest
      obtain ⟨tr₃, hpopped, -⟩ := runs_note_bind.mp hrest
      split at hpopped
      · obtain ⟨tr₄, hend, -⟩ := runs_set_bind.mp hpopped
        cases (runs_pure.mp hend).2.1
      · cases (runs_throw.mp hpopped).2.1
        exact .inr rfl
  · cases he
    exact .inl (hnested hrun)

/-- A conversion in a shell gives what it does for the outcomes of the sub-evaluations it asks for. -/
theorem gives_of_runs_convert {A : Except ShellError String → Prop}
    (hA : ∀ {expression s tr r t}, (subEvaluate nested expression).Runs s tr r t → A r) {p : Parse Value}
    {r : Except ShellError (Except ParseFailure Value)} (h : (convert nested p).Runs s tr r t) :
    ∃ result, r = .ok result ∧ p.Gives A result := by
  induction p generalizing s tr with
  | done result =>
      obtain ⟨-, hresult, -⟩ := runs_pure.mp h
      exact ⟨result, hresult, .done result⟩
  | resolve expression next ih =>
      obtain ⟨tr₁, answer, u, tr₂, hanswer, hrest, -⟩ := runs_attempt_bind.mp h
      obtain ⟨result, hresult, hgives⟩ := ih answer hrest
      exact ⟨result, hresult, .resolve (hA hanswer) hgives⟩

end Eval
end CommandShell
