import CommandShell.Proofs.Conversions

/-!
# `CommandShell.Proofs.ConversionFailures` — how a conversion fails

A conversion fails because a text is not what was asked for, or because something could not be evaluated.
A failure of the first kind names the elements on the way to the text, and marks those whose text is the
result of a sub-evaluation. A failure of the second kind stands alone: whoever could not evaluate
something has reported that, or is about to, and nothing may be wrapped around it.

The element that a failure names is the first one that fails. Those before it have been converted, one
after the other, by a resolver that may have changed its state on the way.

## Contents
- `ParseFailure.Within`, the failures inside a failure, with `ParseFailure.isReturned_iff`.
- `ParseFailure.IsChain` and `ParseFailure.IsRegular`, the two kinds, with `Parse.isRegular_of_parserFor`.
- `Parse.PartConverts` and `Parse.PartsConvert`, parts of a literal that convert, with
  `Parse.exists_failing_part`.
- `Conversions.failure_of_parse`.
-/

namespace CommandShell

variable {α β : Type}

/-! ## Failures inside failures -/

namespace ParseFailure

/-- The failure is `f` or one of those that `f` is wrapped around. -/
inductive Within : ParseFailure → ParseFailure → Prop where
  | self (f) : Within f f
  | element {g f} (index) : Within g f → Within g (.element index f)
  | returned {g f} : Within g f → Within g (.returned f)

/-- A text is not what was asked for: it stands in an element, which may be marked, of an element, and so
    on. -/
inductive IsChain : ParseFailure → Prop where
  | invalid (text expected) : IsChain (.invalid text expected)
  | components (found least most) : IsChain (.components found least most)
  | notSingle (text) : IsChain (.notSingle text)
  | element {f} (index) : IsChain f → IsChain (.element index f)
  | result {f} (index) : IsChain f → IsChain (.element index (.returned f))

variable {f g : ParseFailure}

/-- The mark is seen through all elements around it. -/
theorem isReturned_iff : f.isReturned = true ↔ ∃ g, (returned g).Within f := by
  induction f with
  | element index f ih =>
      rw [isReturned, ih]
      constructor
      · rintro ⟨g, hg⟩
        exact ⟨g, .element index hg⟩
      · rintro ⟨g, hg⟩
        cases hg with
        | element _ hg => exact ⟨g, hg⟩
  | returned f _ => exact iff_of_true rfl ⟨f, .self _⟩
  | invalid | components | notSingle | unsupported | resolution =>
      refine iff_of_false Bool.false_ne_true ?_
      rintro ⟨g, hg⟩
      cases hg

/-- Nothing that could not be evaluated is inside of such a failure. -/
theorem IsChain.not_resolution (h : f.IsChain) (e : ShellError) : ¬ (resolution e).Within f := by
  intro he
  induction h with
  | invalid | components | notSingle => cases he
  | element index _ ih =>
      cases he with
      | element _ he => exact ih he
  | result index _ ih =>
      cases he with
      | element _ he =>
          cases he with
          | returned he => exact ih he

/-- A mark stands directly inside of an element. -/
theorem IsChain.marked (h : f.IsChain) (hg : (returned g).Within f) :
    ∃ index, (ParseFailure.element index (.returned g)).Within f := by
  induction h with
  | invalid | components | notSingle => cases hg
  | element index _ ih =>
      cases hg with
      | element _ hg =>
          obtain ⟨i, hi⟩ := ih hg
          exact ⟨i, .element index hi⟩
  | result index _ ih =>
      cases hg with
      | element _ hg =>
          cases hg with
          | self => exact ⟨index, .self _⟩
          | returned hg =>
              obtain ⟨i, hi⟩ := ih hg
              exact ⟨i, .element index (.returned hi)⟩

/-- The failure is one of the two kinds. -/
def IsRegular (f : ParseFailure) : Prop :=
  (∃ e, f = .resolution e) ∨ f.IsChain

theorem IsRegular.atElement (h : f.IsRegular) (index : Nat) (isResult : Bool) :
    (atElement index isResult f).IsRegular := by
  rcases h with ⟨e, rfl⟩ | h
  · exact .inl ⟨e, rfl⟩
  · have hwrapped : CommandShell.atElement index isResult f =
        .element index (if isResult then .returned f else f) := by
      cases h <;> rfl
    rw [hwrapped]
    cases isResult with
    | true => exact .inr (.result index h)
    | false => exact .inr (.element index h)

end ParseFailure

/-! ## The failures of a conversion -/

namespace Parse

variable {A : Except ShellError String → Prop} {f : ParseFailure} {element : Parser}

section Elements

variable (helement : ∀ {text f}, (element text).Gives A (.error f) → f.IsRegular)
include helement

theorem isRegular_of_parseElement {index : Nat} {part : List Char}
    (h : (parseElement element index part).Gives A (.error f)) : f.IsRegular := by
  have hmapped {isResult : Bool} {text : String}
      (h : ((element text).mapFailure (atElement index isResult)).Gives A (.error f)) :
      f.IsRegular := by
    obtain ⟨g, hg, rfl⟩ := gives_mapFailure_error.mp h
    exact (helement hg).atElement index isResult
  unfold parseElement at h
  dsimp only at h
  split at h
  · cases gives_fail.mp h
    exact .inl ⟨_, rfl⟩
  · split at h
    · cases gives_fail.mp h
      exact .inr (.element index (.notSingle _))
    · split at h
      · rcases gives_bind.mp h with ⟨text, -, hrest⟩ | ⟨g, hresolved, hf⟩
        · exact hmapped hrest
        · cases hf
          rcases gives_resolved.mp hresolved with ⟨text, -, he⟩ | ⟨e, -, he⟩
          · cases he
          · cases he
            exact .inl ⟨e, rfl⟩
      · exact hmapped h

theorem isRegular_of_parseParts {index : Nat} {parts : List (List Char)}
    (h : (parseParts element index parts).Gives A (.error f)) : f.IsRegular := by
  induction parts generalizing index with
  | nil => cases gives_pure.mp h
  | cons part parts ih =>
      rw [parseParts] at h
      rcases gives_bind.mp h with ⟨v, -, hrest⟩ | ⟨g, hfirst, hf⟩
      · rcases gives_bind.mp hrest with ⟨vs, -, hend⟩ | ⟨g, hparts, hf⟩
        · cases gives_pure.mp hend
        · cases hf
          exact ih hparts
      · cases hf
        exact isRegular_of_parseElement helement hfirst

theorem isRegular_of_parseElements {s : String}
    (h : (parseElements element s).Gives A (.error f)) : f.IsRegular := by
  unfold parseElements at h
  split at h
  · cases gives_pure.mp h
  · split at h
    · cases gives_fail.mp h
      exact .inl ⟨_, rfl⟩
    · exact isRegular_of_parseParts helement h

end Elements

theorem isRegular_of_orInvalid {text expected : String} {v? : Option Value}
    (h : .error f = orInvalid text expected v?) : f.IsRegular := by
  cases v? with
  | some v => cases h
  | none =>
      cases h
      exact .inr (.invalid text expected)

/-- The scalars fail because a text is invalid, and vectors for the same reason in one of their
    components or because of the number of those. -/
theorem isRegular_of_standard {type : ValueType} {parser : Parser}
    (h : (type, parser) ∈ Conversions.standard.entries) {text : String}
    (hf : (parser text).Gives A (.error f)) : f.IsRegular := by
  rcases Conversions.mem_standard h with ⟨-, rfl⟩ | ⟨-, rfl⟩ | ⟨-, rfl⟩ | ⟨-, rfl⟩ | ⟨bounds, -, rfl⟩
  · cases gives_done.mp hf
  · exact isRegular_of_orInvalid (gives_done.mp hf)
  · exact isRegular_of_orInvalid (gives_done.mp hf)
  · have hbool := gives_done.mp hf
    unfold parseBool at hbool
    dsimp only at hbool
    split at hbool
    · cases hbool
    · split at hbool
      · cases hbool
      · cases hbool
        exact .inr (.invalid text "bool")
  · unfold parseVector at hf
    rcases gives_bind.mp hf with ⟨vs, -, hrest⟩ | ⟨g, helements, hg⟩
    · split at hrest
      · cases gives_fail.mp hrest
        exact .inr (.components _ _ _)
      · cases gives_pure.mp hrest
    · cases hg
      exact isRegular_of_parseElements (fun hfloat => isRegular_of_orInvalid (gives_done.mp hfloat))
        helements

/-- Optional values and arrays fail as the type inside does. -/
theorem isRegular_of_parserFor {type : ValueType} {parser : Parser}
    (h : Conversions.standard.parserFor? type = some parser) {text : String}
    (hf : (parser text).Gives A (.error f)) : f.IsRegular := by
  refine Conversions.parserFor?_induction
    (M := fun _ parser => ∀ {text f}, (parser text).Gives A (.error f) → f.IsRegular)
    (fun hentry => isRegular_of_standard hentry) ?_ ?_ h hf
  · intro type parser ih text f hf
    unfold parseOptional at hf
    split at hf
    · cases gives_pure.mp hf
    · exact ih hf
  · intro type parser ih text f hf
    unfold parseArray at hf
    rcases gives_bind.mp hf with ⟨vs, -, hrest⟩ | ⟨g, helements, hg⟩
    · cases gives_pure.mp hrest
    · cases hg
      exact isRegular_of_parseElements ih helements

/-! ## Runs of a conversion -/

section Runs

variable {ρ : Type} (resolver : String → StateM ρ (Except ShellError String))

theorem run_andThen (p : Parse α) (f : Except ParseFailure α → Parse β) (start : ρ) :
    ((p.andThen f).run resolver).run start =
      ((f ((p.run resolver).run start).1).run resolver).run ((p.run resolver).run start).2 := by
  induction p generalizing start with
  | done result => rfl
  | resolve expression next ih => exact ih _ _

theorem run_bind (p : Parse α) (f : α → Parse β) (start : ρ) :
    ((p >>= f).run resolver).run start =
      match (p.run resolver).run start with
      | (.ok a, mid) => ((f a).run resolver).run mid
      | (.error e, mid) => (.error e, mid) := by
  refine (run_andThen resolver p _ start).trans ?_
  rcases (p.run resolver).run start with ⟨_ | _, mid⟩ <;> rfl

theorem run_mapFailure (f : ParseFailure → ParseFailure) (p : Parse α) (start : ρ) :
    ((p.mapFailure f).run resolver).run start =
      (((p.run resolver).run start).1.mapError f, ((p.run resolver).run start).2) :=
  run_andThen resolver p _ start

theorem run_resolve (expression : String) (next : Except ShellError String → Parse α) (start : ρ) :
    ((resolve expression next).run resolver).run start =
      ((next ((resolver expression).run start).1).run resolver).run ((resolver expression).run start).2 :=
  rfl

theorem run_resolved (expression : String) (start : ρ) :
    ((resolved expression).run resolver).run start =
      (((resolver expression).run start).1.mapError .resolution, ((resolver expression).run start).2) := by
  rw [resolved, run_resolve]
  rcases (resolver expression).run start with ⟨_ | _, mid⟩ <;> rfl

/-! ## Parts that convert -/

/-- The text that a token stands for, its own one or the result of its sub-evaluation, and the state in
    which the resolver is then. -/
def Stands (token : Token) (start : ρ) (text : String) (finish : ρ) : Prop :=
  if token.kind = .subEval then (resolver token.text).run start = (.ok text, finish)
  else text = token.text ∧ finish = start

/-- The part, trimmed, is a single token, and the text that this stands for converts to a value. -/
def PartConverts (element : Parser) (start : ρ) (part : List Char) (finish : ρ) : Prop :=
  ∃ s text mid v, nextToken (Text.trimChars part) = .ok s ∧
    (s.endsStatement = false ∧ Text.allBlank s.rest = true) ∧ Stands resolver s.token start text mid ∧
    ((element text).run resolver).run mid = (.ok v, finish)

/-- All parts convert in order, each from the state that the one before has left. -/
inductive PartsConvert (element : Parser) : ρ → List (List Char) → ρ → Prop where
  | nil (start) : PartsConvert element start [] start
  | cons {start mid finish part parts} : PartConverts resolver element start part mid →
      PartsConvert element mid parts finish → PartsConvert element start (part :: parts) finish

variable {resolver} {start finish : ρ} {index i : Nat} {part : List Char} {parts : List (List Char)}

theorem partConverts_of_run {v : Value}
    (h : ((parseElement element index part).run resolver).run start = (.ok v, finish)) :
    PartConverts resolver element start part finish := by
  have hmapped {isResult : Bool} {text : String} {mid : ρ}
      (h : (((element text).mapFailure (atElement index isResult)).run resolver).run mid =
        (.ok v, finish)) : ((element text).run resolver).run mid = (.ok v, finish) := by
    rw [run_mapFailure] at h
    rcases hrun : ((element text).run resolver).run mid with ⟨_ | _, last⟩ <;> rw [hrun] at h <;> cases h
    rfl
  unfold parseElement at h
  dsimp only at h
  split at h
  · cases h
  · next s hs =>
    split at h
    · cases h
    · next hsingle =>
      simp only [Bool.or_eq_true, Bool.not_eq_true', not_or, Bool.not_eq_true, Bool.not_eq_false] at hsingle
      split at h
      · next hkind =>
        rw [run_bind, run_resolved] at h
        rcases hresolver : (resolver s.token.text).run start with ⟨_ | text, mid⟩ <;>
          rw [hresolver] at h
        · cases h
        · exact ⟨s, text, mid, v, hs, hsingle, (if_pos hkind).mpr hresolver, hmapped h⟩
      · next hkind =>
        exact ⟨s, s.token.text, start, v, hs, hsingle, (if_neg hkind).mpr ⟨rfl, rfl⟩, hmapped h⟩

/-- The conversion of a part names no other element than the part itself. -/
theorem index_eq_of_parseElement (h : (parseElement element index part).Gives A (.error (.element i f))) :
    i = index := by
  have hmapped {isResult : Bool} {text : String}
      (h : ((element text).mapFailure (atElement index isResult)).Gives A (.error (.element i f))) :
      i = index := by
    obtain ⟨g, -, hg⟩ := gives_mapFailure_error.mp h
    cases g <;> cases hg <;> rfl
  unfold parseElement at h
  dsimp only at h
  split at h
  · cases gives_fail.mp h
  · split at h
    · cases gives_fail.mp h
      rfl
    · split at h
      · rcases gives_bind.mp h with ⟨text, -, hrest⟩ | ⟨g, hresolved, hf⟩
        · exact hmapped hrest
        · cases hf
          rcases gives_resolved.mp hresolved with ⟨text, -, he⟩ | ⟨e, -, he⟩ <;> cases he
      · exact hmapped h

/-- The element that is named stands behind parts that convert. -/
theorem exists_failing_part
    (h : ((parseParts element index parts).run resolver).run start = (.error (.element i f), finish)) :
    ∃ before part after mid, parts = before ++ part :: after ∧ i = index + before.length ∧
      PartsConvert resolver element start before mid ∧
      ((parseElement element i part).run resolver).run mid = (.error (.element i f), finish) := by
  induction parts generalizing index start with
  | nil => cases h
  | cons part parts ih =>
      rw [parseParts, run_bind] at h
      rcases hfirst : ((parseElement element index part).run resolver).run start with ⟨e | v, mid⟩ <;>
        rw [hfirst] at h
      · -- The first part fails, and the failure of a part names the part itself.
        cases h
        have hgives := gives_run resolver (parseElement element index part) start
        rw [hfirst] at hgives
        obtain rfl := index_eq_of_parseElement hgives
        exact ⟨[], part, parts, start, rfl, rfl, .nil start, hfirst⟩
      · dsimp only at h
        rw [run_bind] at h
        rcases hparts : ((parseParts element (index + 1) parts).run resolver).run mid with ⟨e | vs, last⟩ <;>
          rw [hparts] at h <;> cases h
        obtain ⟨before, failing, after, last, hsplit, hi, hbefore, hfails⟩ := ih hparts
        refine ⟨part :: before, failing, after, last, by rw [hsplit]; rfl, ?_,
          .cons (partConverts_of_run hfirst) hbefore, hfails⟩
        rw [hi, List.length_cons]
        omega

/-- A literal that fails in one of its elements can be split, and the failure is that of its parts. -/
theorem run_parseParts_of_parseElements {s : String}
    (h : ((parseElements element s).run resolver).run start = (.error (.element i f), finish)) :
    ∃ parts, splitArray s.toList = .ok parts ∧
      ((parseParts element 0 parts).run resolver).run start = (.error (.element i f), finish) := by
  unfold parseElements at h
  split at h
  · cases h
  · split at h
    · cases h
    · next parts hparts => exact ⟨parts, hparts, h⟩

end Runs

/-- Answers every request with the expression itself, and counts the requests. -/
def counted (expression : String) : StateM Nat (Except ShellError String) := do
  modify (· + 1)
  return .ok expression

end Parse

/-! ## Failures of a table -/

namespace Conversions

/-- For arrays no conversion is built in. -/
theorem registered?_array (element : ValueType) : standard.registered? (.array element) = none := by
  cases hregistered : standard.registered? (.array element) with
  | none => rfl
  | some parser =>
      rcases mem_standard (mem_entries_of_registered hregistered) with ⟨h, -⟩ | ⟨h, -⟩ | ⟨h, -⟩ | ⟨h, -⟩ |
        ⟨bounds, h, -⟩ <;> cases h

/-- Arrays are converted by the conversion that is derived from that of their elements. -/
theorem parse_array {element : ValueType} (h : standard.supports (.array element) = true) :
    standard.parse (.array element) = parseArray (standard.parse element) := by
  have hderived : standard.parserFor? (.array element) = (standard.parserFor? element).map parseArray := by
    rw [parserFor?, registered?_array]
  funext s
  unfold supports at h
  rw [hderived, Option.isSome_map] at h
  obtain ⟨parser, hparser⟩ := Option.isSome_iff_exists.mp h
  have hparse : standard.parse element = parser := by
    funext s
    rw [parse, hparser]
  rw [parse, hderived, hparser, hparse, Option.map_some]

/-- Whatever the resolver, and whatever state it keeps, a failure to convert a text to a type with a
    built-in conversion is of one of two kinds. Something could not be evaluated, and then the failure says
    nothing else; or a text is not what was asked for, and then it stands in elements of elements, of which
    those are marked whose text is a result. An array fails at the first of its parts that fails: those
    before it are single tokens, whose texts or results convert, one after the other. -/
theorem failure_of_parse {type : ValueType} (htype : standard.supports type = true) {ρ : Type}
    (resolver : String → StateM ρ (Except ShellError String)) {start finish : ρ} {text : String}
    {f : ParseFailure}
    (h : ((standard.parse type text).run resolver).run start = (.error f, finish)) :
    ((∃ e, f = .resolution e) ∨ f.IsChain) ∧
      (∀ e, (ParseFailure.resolution e).Within f → f = .resolution e) ∧
      (∀ g, (ParseFailure.returned g).Within f → ∃ i, (ParseFailure.element i (.returned g)).Within f) ∧
      (f.isReturned = true ↔ ∃ g, (ParseFailure.returned g).Within f) ∧
      ∀ element i g, type = .array element → f = .element i g →
        ∃ before part after mid, splitArray text.toList = .ok (before ++ part :: after) ∧
          before.length = i ∧ Parse.PartsConvert resolver (standard.parse element) start before mid ∧
          ((parseElement (standard.parse element) i part).run resolver).run mid = (.error f, finish) := by
  have hgives := Parse.gives_run resolver (standard.parse type text) start
  rw [h] at hgives
  obtain ⟨parser, hparser⟩ := Option.isSome_iff_exists.mp htype
  have hregular : f.IsRegular := by
    rw [parse, hparser] at hgives
    exact Parse.isRegular_of_parserFor hparser hgives
  refine ⟨hregular, ?_, ?_, ParseFailure.isReturned_iff, ?_⟩
  · intro e he
    rcases hregular with ⟨e', rfl⟩ | hchain
    · cases he
      rfl
    · exact absurd he (hchain.not_resolution e)
  · intro g hg
    rcases hregular with ⟨e, rfl⟩ | hchain
    · cases hg
    · exact hchain.marked hg
  · rintro element i g rfl rfl
    rw [parse_array htype, parseArray, Parse.run_bind] at h
    rcases helements : ((parseElements (standard.parse element) text).run resolver).run start with
      ⟨e | vs, last⟩ <;> rw [helements] at h <;> cases h
    obtain ⟨parts, hsplit, hparts⟩ := Parse.run_parseParts_of_parseElements helements
    obtain ⟨before, part, after, mid, rfl, hi, hbefore, hfails⟩ := Parse.exists_failing_part hparts
    exact ⟨before, part, after, mid, hsplit, by omega, hbefore, hfails⟩

/-- A list of two lists, the second of which holds a result that is no truth value. -/
theorem failure_of_parse_nested :
    standard.supports (.array (.array .bool)) = true ∧
      ((standard.parse (.array (.array .bool)) "(0, (1)), (1, (x)), 2").run Parse.counted).run 0 =
        (.error (.element 1 (.element 1 (.returned (.invalid "x" "bool")))), 2) ∧
      ∃ before part after mid,
        splitArray "(0, (1)), (1, (x)), 2".toList = .ok (before ++ part :: after) ∧ before.length = 1 ∧
          Parse.PartsConvert Parse.counted (standard.parse (.array .bool)) 0 before mid := by
  have htype : standard.supports (.array (.array .bool)) = true := rfl
  have hrun : ((standard.parse (.array (.array .bool)) "(0, (1)), (1, (x)), 2").run Parse.counted).run 0 =
      (.error (.element 1 (.element 1 (.returned (.invalid "x" "bool")))), 2) := rfl
  obtain ⟨-, -, -, -, hparts⟩ := failure_of_parse htype Parse.counted hrun
  obtain ⟨before, part, after, mid, hsplit, hlength, hbefore, -⟩ := hparts _ _ _ rfl rfl
  exact ⟨htype, hrun, before, part, after, mid, hsplit, hlength, hbefore⟩

end Conversions

end CommandShell
