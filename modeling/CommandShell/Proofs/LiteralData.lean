import CommandShell.Proofs.Conversions
import CommandShell.Proofs.InertArrays

/-!
# `CommandShell.Proofs.LiteralData` — data does not depend on the resolver

A conversion goes through the parts of a literal from left to right. It asks the resolver at the first
part that is a sub-evaluation, whatever stands behind it, and a part in front of it that does not convert
decides before anything is asked. So a resolver that always fails tells the two kinds of texts apart: it
fails on a text that is asked about, and of any other text the conversion is the same under every
resolver.

What fails without a question is at fault itself: no result of a sub-evaluation is in it, and all that
could not be evaluated is a group that is not closed. A call whose argument is such a text reports the
group as it is, and everything else as a wrong argument.

## Contents
- `ParseFailure.IsWritten`, the failures of a text alone.
- `Parse.Settles`, a conversion that is done or asks, with one lemma for each way to build one.
- `Conversions.settles_standard`, for every supported type.
- `Conversions.parse_literal`, the texts that are data, with a group that is not closed.
-/

namespace CommandShell

variable {α β : Type}

namespace ParseFailure

/-- The failure of a text that is written out: nothing in it has been returned, and where something
    could not be read, the text ends inside of a group. -/
structure IsWritten (f : ParseFailure) : Prop where
  notReturned : f.isReturned = false
  open_of_resolution : ∀ e, f = .resolution e → ∃ closer, e = .unexpectedEnd closer

theorem IsWritten.invalid (text expected : String) : IsWritten (.invalid text expected) where
  notReturned := rfl
  open_of_resolution := by rintro e ⟨⟩

theorem IsWritten.components (found least most : Nat) : IsWritten (.components found least most) where
  notReturned := rfl
  open_of_resolution := by rintro e ⟨⟩

theorem IsWritten.unexpectedEnd {e : ShellError} (h : ∃ closer, e = .unexpectedEnd closer) :
    IsWritten (.resolution e) where
  notReturned := rfl
  open_of_resolution := by
    rintro _ ⟨⟩
    exact h

/-- An element that is more than one token is at fault as it is written. -/
theorem IsWritten.notSingle (index : Nat) (text : String) :
    IsWritten (.element index (.notSingle text)) where
  notReturned := rfl
  open_of_resolution := by rintro e ⟨⟩

/-- An element that is written out is named and not marked. -/
theorem IsWritten.atElement {f : ParseFailure} (h : f.IsWritten) (index : Nat) :
    (atElement index false f).IsWritten := by
  cases f with
  | resolution e => exact h
  | invalid | components | element | notSingle | returned | unsupported =>
      refine ⟨h.notReturned, ?_⟩
      rintro e ⟨⟩

end ParseFailure

namespace Parse

/-! ## Conversions that are done or ask -/

/-- The conversion looks at the text alone until it asks: either it is done, and what is wrong is wrong
    in the text, or it asks before anything else is decided. -/
def Settles (p : Parse α) : Prop :=
  (∃ result, p = .done result ∧ ∀ f, result = .error f → f.IsWritten) ∨ p.Asks

variable {p : Parse α} {element : Parser}

theorem settles_pure (a : α) : (pure a : Parse α).Settles := by
  refine .inl ⟨.ok a, rfl, ?_⟩
  rintro f ⟨⟩

theorem settles_fail {f : ParseFailure} (h : f.IsWritten) : (fail f : Parse α).Settles := by
  refine .inl ⟨.error f, rfl, ?_⟩
  rintro _ ⟨⟩
  exact h

/-- A conversion that is done settles unless a sub-evaluation has failed in it. -/
theorem settles_done {result : Except ParseFailure α} (h : ∀ f, result = .error f → f.IsWritten) :
    (Parse.done result).Settles :=
  .inl ⟨result, rfl, h⟩

/-- Two steps settle if each of them does, for the first one decides what comes next only by its value.
    -/
theorem Settles.bind (h : p.Settles) {f : α → Parse β} (hf : ∀ a, (f a).Settles) :
    (p >>= f).Settles := by
  rcases h with ⟨a | e, rfl, hwritten⟩ | hasks
  · exact settles_fail (hwritten _ rfl)
  · exact hf _
  · exact .inr (hasks.bind f)

/-- The mark of an element does not change where its failure comes from. -/
theorem Settles.atElement (h : p.Settles) (index : Nat) :
    (p.mapFailure (atElement index false)).Settles := by
  rcases h with ⟨e | a, rfl, hwritten⟩ | hasks
  · exact settles_fail ((hwritten e rfl).atElement index)
  · exact settles_pure a
  · exact .inr (hasks.mapFailure fun _ => rfl)

/-! ## Literals -/

section Elements

variable (helement : ∀ text, (element text).Settles)
include helement

/-- What is done with the result of a sub-evaluation does not matter: it has been asked for. -/
theorem settles_parseElement (index : Nat) (part : List Char) :
    (parseElement element index part).Settles := by
  unfold parseElement
  dsimp only
  split
  · next e he => exact settles_fail (.unexpectedEnd (nextToken_error he))
  · split
    · exact settles_fail (.notSingle index _)
    · split
      -- A sub-evaluation asks before the element is looked at.
      · exact .inr (asks_resolved_bind _ _)
      · exact (helement _).atElement index

/-- The elements are settled one after the other, by induction on the parts. -/
theorem settles_parseParts (index : Nat) (parts : List (List Char)) :
    (parseParts element index parts).Settles := by
  induction parts generalizing index with
  | nil => exact settles_pure []
  | cons part parts ih =>
      exact (settles_parseElement helement index part).bind fun v =>
        (ih (index + 1)).bind fun vs => settles_pure (v :: vs)

/-- A literal is blank, not closed, or a list of parts. -/
theorem settles_parseElements (text : String) : (parseElements element text).Settles := by
  unfold parseElements
  split
  · exact settles_pure []
  · split
    · next e he => exact settles_fail (.unexpectedEnd (splitArray_error he))
    · exact settles_parseParts helement 0 _

end Elements

/-! ## Built-in conversions -/

theorem settles_orInvalid (text expected : String) (v? : Option Value) :
    (Parse.done (orInvalid text expected v?)).Settles := by
  refine settles_done fun f hf => ?_
  cases v? with
  | some v => cases hf
  | none =>
      cases hf
      exact .invalid text expected

theorem settles_parseBool (text : String) : (Parse.done (parseBool text)).Settles := by
  unfold parseBool
  dsimp only
  split
  · exact settles_pure _
  · split
    · exact settles_pure _
    · exact settles_fail (.invalid text "bool")

/-- A vector is an array of numbers with bounds on their count. -/
theorem settles_parseVector (bounds : ValueType.VectorBounds) (text : String) :
    (parseVector bounds text).Settles := by
  refine (settles_parseElements (fun part => settles_orInvalid part "float" _) text).bind fun vs => ?_
  split
  · exact settles_fail (.components _ _ _)
  · exact settles_pure _

theorem settles_parseOptional {inner : Parser} (h : ∀ text, (inner text).Settles) (text : String) :
    (parseOptional inner text).Settles := by
  unfold parseOptional
  split
  · exact settles_pure _
  · exact h text

/-- An array settles if its elements do. -/
theorem settles_parseArray (h : ∀ text, (element text).Settles) (text : String) :
    (parseArray element text).Settles :=
  (settles_parseElements h text).bind fun vs => settles_pure (Value.array vs)

end Parse

/-- The conversion of every supported type settles; the induction is on the type. -/
theorem Conversions.settles_standard {type : ValueType} {parser : Parser}
    (h : standard.parserFor? type = some parser) : ∀ text, (parser text).Settles := by
  refine parserFor?_induction (M := fun _ parser => ∀ text, (parser text).Settles) ?_
    Parse.settles_parseOptional Parse.settles_parseArray h
  intro type parser hentry text
  rcases mem_standard hentry with ⟨-, rfl⟩ | ⟨-, rfl⟩ | ⟨-, rfl⟩ | ⟨-, rfl⟩ | ⟨bounds, -, rfl⟩
  · exact Parse.settles_pure _
  · exact Parse.settles_orInvalid text "int" _
  · exact Parse.settles_orInvalid text "float" _
  · exact Parse.settles_parseBool text
  · exact Parse.settles_parseVector bounds text

/-! ## Arguments that are written out -/

/-- What is fetched for a parameter whose argument is written in the statement, by the result of its
    conversion: an open group is reported as it is, and any other failure is one of the argument. -/
def Eval.writtenOutcome (frame : Frame) (index : Nat) (param : Param) :
    Except ParseFailure Value → Except ShellError Value
  | .ok v => .ok v
  | .error (.resolution e) => .error e
  | .error f => .error (.argumentType frame.name index param.name param.type.name f.message)

/-- The failure of a written argument is that of its type. -/
theorem Eval.argumentFailure_of_isWritten {frame : Frame} {index : Nat} {param : Param}
    {f : ParseFailure} (h : f.isReturned = false) :
    .error (argumentFailure frame index param .literal f) =
      writtenOutcome frame index param (.error f) := by
  have hliteral : ¬ (Origin.literal = .subEval ∨ f.isReturned) := by simp [h]
  cases f with
  | resolution e => rfl
  | invalid | components | element | notSingle | returned | unsupported =>
      unfold argumentFailure
      dsimp only
      rw [if_neg hliteral]
      rfl

theorem Eval.runs_fetch_of_done {σ : Type} {nested : String → Eval σ Unit} {s : Shell σ} {index : Nat}
    {param : Param} {frame : Frame} {argument : Argument} {parser : Parser}
    {result : Except ParseFailure Value} (hframe : s.stack.current = .ok frame)
    (hargument : frame.arguments[index]? = some argument) (horigin : argument.origin = .literal)
    (hparser : s.types.parserFor? param.type = some parser)
    (hdone : parser argument.text = .done result) (hwritten : ∀ f, result = .error f → f.IsWritten) :
    (fetch nested index param).Runs s [] (writtenOutcome frame index param result) s := by
  rw [runs_fetch_of_argument hframe hargument hparser, hdone, horigin]
  cases result with
  | ok v => exact runs_pure.mpr ⟨rfl, rfl, rfl⟩
  | error f =>
      rw [← argumentFailure_of_isWritten (hwritten f rfl).notReturned]
      exact runs_throw.mpr ⟨rfl, rfl, rfl⟩

/-- A text whose conversion does not fail as the resolver does, when this always fails, has the same
    conversion under every resolver, whatever effects that has; and a failure is one of the text alone. As
    an argument that is written in a statement it is converted in no step at all: a group that is not
    closed is reported as it is, any other failure as a wrong argument. -/
theorem Conversions.parse_literal {type : ValueType} (htype : standard.supports type = true)
    {text : String} (hdata : (standard.parse type text).runPure (fun _ => .error .aborted) ≠
      .error (.resolution .aborted)) :
    ∃ result,
      (standard.parse type text).runPure (fun _ => .error .aborted) = result ∧
      (∀ {m : Type → Type} [Monad m] (resolver : String → m (Except ShellError String)),
        (standard.parse type text).run resolver = pure result) ∧
      (∀ f, result = .error f → f.isReturned = false ∧
        ∀ e, f = .resolution e → ∃ closer, e = .unexpectedEnd closer) ∧
      ∀ {σ : Type} {s : Shell σ} {nested : String → Eval σ Unit} {frame : Frame} {index : Nat}
        {argument : Argument} {param : Param},
        s.types.parserFor? type = standard.parserFor? type → s.stack.current = .ok frame →
        frame.arguments[index]? = some argument → argument.text = text → argument.origin = .literal →
        param.type = type →
        (Eval.fetch nested index param).Runs s [] (Eval.writtenOutcome frame index param result) s := by
  obtain ⟨parser, hparser⟩ := Option.isSome_iff_exists.mp htype
  have hparse : standard.parse type text = parser text := by
    rw [parse, hparser]
  rw [hparse] at hdata ⊢
  rcases settles_standard hparser text with ⟨result, hdone, hwritten⟩ | hasks
  · rw [hdone]
    refine ⟨result, rfl, fun resolver => rfl, ?_, ?_⟩
    · intro f hf
      exact ⟨(hwritten f hf).notReturned, (hwritten f hf).open_of_resolution⟩
    · intro σ s nested frame index argument param htypes hframe hargument htext horigin hparam
      have hfound : s.types.parserFor? param.type = some parser := by
        rw [hparam, htypes, hparser]
      rw [← htext] at hdone
      exact Eval.runs_fetch_of_done hframe hargument horigin hfound hdone hwritten
  · obtain ⟨expression, hfailed⟩ := hasks.runPure fun _ => .aborted
    exact absurd hfailed hdata

/-- A list of lists with an expression in the last one, which is not looked at: the second list holds a
    word that is no truth value. So no resolver has a say in it. -/
theorem Conversions.parse_literal_nested :
    standard.supports (.array (.array .bool)) = true ∧
      (standard.parse (.array (.array .bool)) "(0, 1), (1, x), ((print 1), 0)").runPure
          (fun _ => .error .aborted) = .error (.element 1 (.element 1 (.invalid "x" "bool"))) ∧
      ∀ resolver : String → StateM Nat (Except ShellError String),
        (standard.parse (.array (.array .bool)) "(0, 1), (1, x), ((print 1), 0)").run resolver =
          pure (.error (.element 1 (.element 1 (.invalid "x" "bool")))) := by
  have htype : standard.supports (.array (.array .bool)) = true := rfl
  have hrun : (standard.parse (.array (.array .bool)) "(0, 1), (1, x), ((print 1), 0)").runPure
      (fun _ => .error .aborted) = .error (.element 1 (.element 1 (.invalid "x" "bool"))) := rfl
  have hdata : (standard.parse (.array (.array .bool)) "(0, 1), (1, x), ((print 1), 0)").runPure
      (fun _ => .error .aborted) ≠ .error (.resolution .aborted) := by
    rw [hrun]
    rintro ⟨⟩
  obtain ⟨result, hresult, hresolvers, -, -⟩ := parse_literal htype hdata
  rw [hrun] at hresult
  refine ⟨htype, hrun, fun resolver => ?_⟩
  rw [hresolvers resolver, ← hresult]

/-- An argument whose group is open is data, and it is not reported as a wrong argument. -/
theorem Shell.fetch_open_group :
    (Conversions.standard.parse (.array .int) "(1, 2").runPure (fun _ => .error .aborted) =
        .error (.resolution (.unexpectedEnd ')')) ∧
      ((fetch 0 (.required "xs" (.array .int))).exec
          { empty {} () with stack := ⟨[⟨"nums", [⟨"(1, 2", .literal⟩]⟩]⟩ }).1 =
        .error (.unexpectedEnd ')') ∧
      ∀ name index param type message, (ShellError.unexpectedEnd ')') ≠
        .argumentType name index param type message := by
  refine ⟨rfl, rfl, ?_⟩
  rintro name index param type message ⟨⟩

end CommandShell
