import CommandShell.Proofs.ArrayRoundTrip
import CommandShell.Proofs.Evaluation.Run
import CommandShell.Shell.Host

/-!
# `CommandShell.Proofs.InertArrays` — printed arrays that evaluate nothing

A list in parentheses is data if a comma stands directly inside them, and otherwise a sub-evaluation. So
a list with fewer than two elements that stands inside another one is printed as data and read as an
expression. An array is inert if there is no such list inside it. The text of an inert array is read back
without any question to the resolver; the text of any other asks for a result, and whoever has none to
give makes the conversion fail.

## Contents
- `Value.Inert`, with `Value.inert_array_iff`.
- `Parse.Asks`, a conversion whose first step is a request, and what is made of such conversions.
- `ValueType.IsTextual.parses_display`, the conversion of a printed value.
- `Eval.Evaluates`, a run that begins with the evaluation of a text.
- `parse_display_inert_iff`, with any resolver that always fails, and in a shell.
-/

namespace CommandShell

/-! ## Lists inside values -/

namespace Value

mutual

/-- The lists in a value, at any depth, and the value itself if it is one. -/
def lists : Value → List (List Value)
  | array items => items :: listsOf items
  | _ => []

/-- The lists in the values of a list. -/
def listsOf : List Value → List (List Value)
  | [] => []
  | v :: vs => lists v ++ listsOf vs

end

/-- The lists strictly inside a value. -/
def innerLists : Value → List (List Value)
  | array items => listsOf items
  | _ => []

/-- Every list inside the value has two elements at least. -/
def Inert (v : Value) : Prop :=
  ∀ items ∈ v.innerLists, 2 ≤ items.length

instance (v : Value) : Decidable v.Inert :=
  inferInstanceAs (Decidable (∀ items ∈ v.innerLists, 2 ≤ items.length))

/-- An element is read as an expression or as data. -/
theorem elementKind_eq_or (v : Value) : v.elementKind = .subEval ∨ v.elementKind = .literal := by
  cases v with
  | array items =>
      by_cases hlength : 2 ≤ items.length
      · exact .inr (if_pos hlength)
      · exact .inl (if_neg hlength)
  | null | text | int | float | bool | vector => exact .inr rfl

theorem elementKind_array_eq_literal_iff {items : List Value} :
    (array items).elementKind = .literal ↔ 2 ≤ items.length := by
  by_cases hlength : 2 ≤ items.length
  · have hdata : (array items).elementKind = .literal := if_pos hlength
    exact iff_of_true hdata hlength
  · have hcode : (array items).elementKind = .subEval := if_neg hlength
    exact iff_of_false (by simp [hcode]) hlength

theorem mem_listsOf {items : List Value} {inner : List Value} :
    inner ∈ listsOf items ↔ ∃ v ∈ items, inner ∈ v.lists := by
  induction items with
  | nil => simp [listsOf]
  | cons v items ih => simp [listsOf, ih]

/-- A value may stand inside an inert array if it is inert and, as a list, long enough to be data. -/
theorem forall_mem_lists_iff {v : Value} :
    (∀ items ∈ v.lists, 2 ≤ items.length) ↔ v.elementKind = .literal ∧ v.Inert := by
  cases v with
  | array items =>
      rw [lists, List.forall_mem_cons, elementKind_array_eq_literal_iff]
      rfl
  | null | text | int | float | bool | vector => simp [lists, elementKind, Inert, innerLists]

theorem inert_array_iff {items : List Value} :
    (array items).Inert ↔ ∀ v ∈ items, v.elementKind = .literal ∧ v.Inert := by
  have hinner : (array items).innerLists = listsOf items := rfl
  rw [Inert, hinner]
  constructor
  · intro h v hv
    rw [← forall_mem_lists_iff]
    exact fun inner hinner => h inner (mem_listsOf.mpr ⟨v, hv, hinner⟩)
  · intro h inner hinner
    obtain ⟨v, hv, hmem⟩ := mem_listsOf.mp hinner
    exact forall_mem_lists_iff.mpr (h v hv) inner hmem

end Value

/-! ## Conversions that ask -/

namespace Parse

variable {α β : Type} {p : Parse α} {element : Parser}

/-- The conversion asks for a result before anything else, and when there is none it fails with the
    cause. -/
def Asks (p : Parse α) : Prop :=
  ∃ expression next, p = .resolve expression next ∧ ∀ e, next (.error e) = fail (.resolution e)

theorem asks_resolved_bind (expression : String) (f : String → Parse β) :
    (resolved expression >>= f).Asks :=
  ⟨expression, _, rfl, fun _ => rfl⟩

theorem Asks.bind (h : p.Asks) (f : α → Parse β) : (p >>= f).Asks := by
  obtain ⟨expression, next, rfl, hfail⟩ := h
  refine ⟨expression, _, rfl, fun e => ?_⟩
  rw [hfail]
  rfl

theorem Asks.mapFailure (h : p.Asks) {f : ParseFailure → ParseFailure}
    (hf : ∀ e, f (.resolution e) = .resolution e) : (p.mapFailure f).Asks := by
  obtain ⟨expression, next, rfl, hfail⟩ := h
  refine ⟨expression, _, rfl, fun e => ?_⟩
  rw [hfail]
  show Parse.done (.error (f (.resolution e))) = _
  rw [hf]
  rfl

/-- A resolver that fails makes the conversion fail, with the cause. -/
theorem Asks.runPure (h : p.Asks) (fails : String → ShellError) :
    ∃ expression, p.runPure (fun e => .error (fails e)) = .error (.resolution (fails expression)) := by
  obtain ⟨expression, next, rfl, hfail⟩ := h
  refine ⟨expression, ?_⟩
  rw [runPure_resolve, hfail]
  rfl

/-- The parts of a list convert to its elements, or one of them asks while those before it convert. -/
theorem parseParts_done_or_asks {part : Value → List Char} {Good : Value → Prop} {items : List Value}
    (hdone : ∀ v ∈ items, Good v → ∀ index, parseElement element index (part v) = .done (.ok v))
    (hasks : ∀ v ∈ items, ¬ Good v → ∀ index, (parseElement element index (part v)).Asks)
    (index : Nat) :
    ((∀ v ∈ items, Good v) → parseParts element index (items.map part) = .done (.ok items)) ∧
      ((¬ ∀ v ∈ items, Good v) → (parseParts element index (items.map part)).Asks) := by
  induction items generalizing index with
  | nil => exact ⟨fun _ => rfl, fun h => absurd (by simp) h⟩
  | cons v items ih =>
      rw [List.forall_mem_cons] at hdone hasks
      obtain ⟨hrest, hrestAsks⟩ := ih hdone.2 hasks.2 (index + 1)
      rw [List.forall_mem_cons, List.map_cons, parseParts]
      by_cases hv : Good v
      · rw [hdone.1 hv index]
        refine ⟨fun hall => ?_, fun hnot => ?_⟩
        · show (parseParts element (index + 1) (items.map part) >>= _) = _
          rw [hrest hall.2]
          rfl
        · exact (hrestAsks fun hall => hnot ⟨hv, hall⟩).bind _
      · exact ⟨fun hall => absurd hall.1 hv, fun _ => (hasks.1 hv index).bind _⟩

/-! ## Printed values -/

/-- An element of a printed list: data that is read back, or a text that asks. -/
theorem parseElement_display {type : ValueType} {v : Value} {parser : Parser} (hv : type.Has v)
    (htexts : ∀ s ∈ v.texts, IsPrintable s) (hdone : v.Inert → parser v.display = .done (.ok v))
    (hasks : ¬ v.Inert → (parser v.display).Asks) (index : Nat) :
    (v.elementKind = .literal ∧ v.Inert →
        parseElement parser index v.elementText.toList = .done (.ok v)) ∧
      (¬ (v.elementKind = .literal ∧ v.Inert) →
        (parseElement parser index v.elementText.toList).Asks) := by
  rw [parseElement_of_token (isElement_elementText hv htexts) (nextToken_elementText hv htexts)]
  rcases v.elementKind_eq_or with hkind | hkind
  · -- A short list is an expression, whatever is in it.
    rw [if_pos hkind, hkind]
    exact ⟨fun h => absurd h.1 (by decide), fun _ => asks_resolved_bind _ _⟩
  · rw [if_neg (by simp [hkind])]
    refine ⟨fun h => ?_, fun h => ?_⟩
    · rw [hdone h.2]
      rfl
    · exact (hasks fun hinert => h ⟨hkind, hinert⟩).mapFailure fun _ => rfl

end Parse

/-- The conversion of a printed value has its result at once if the value is inert, and asks for another
    one if it is not. The induction is on the type, one level of the array at a time. -/
theorem ValueType.IsTextual.parses_display {type : ValueType} (htype : type.IsTextual) :
    ∃ parser, Conversions.standard.parserFor? type = some parser ∧
      ∀ v, type.Has v → (∀ s ∈ v.texts, IsPrintable s) →
        (v.Inert → parser v.display = .done (.ok v)) ∧ (¬ v.Inert → (parser v.display).Asks) := by
  induction htype with
  | text =>
      refine ⟨_, rfl, fun v hv _ => ?_⟩
      cases hv
      exact ⟨fun _ => rfl, fun h => absurd (by simp [Value.Inert, Value.innerLists]) h⟩
  | bool =>
      refine ⟨_, rfl, fun v hv _ => ?_⟩
      cases hv with
      | bool b =>
          refine ⟨fun _ => ?_, fun h => absurd (by simp [Value.Inert, Value.innerLists]) h⟩
          cases b <;> rfl
  | @array element _ ih =>
      obtain ⟨parser, hparser, hread⟩ := ih
      refine ⟨_, Conversions.parserFor?_standard_array hparser, fun v hv htexts => ?_⟩
      cases hv with
      | @array _ items hitems =>
          have hprintable : ∀ v ∈ items, ∀ s ∈ v.texts, IsPrintable s :=
            fun v hv s hs => htexts s (Value.mem_textsOf hv hs)
          have helements : ∀ v ∈ items, IsElement v.elementText.toList :=
            fun v hv => isElement_elementText (hitems v hv) (hprintable v hv)
          have hitem (v : Value) (hv : v ∈ items) :=
            Parse.parseElement_display (hitems v hv) (hprintable v hv)
              (hread v (hitems v hv) (hprintable v hv)).1 (hread v (hitems v hv) (hprintable v hv)).2
          have hdoneItem : ∀ v ∈ items, v.elementKind = .literal ∧ v.Inert → ∀ index,
              parseElement parser index v.elementText.toList = .done (.ok v) :=
            fun v hv hgood index => (hitem v hv index).1 hgood
          have hasksItem : ∀ v ∈ items, ¬ (v.elementKind = .literal ∧ v.Inert) → ∀ index,
              (parseElement parser index v.elementText.toList).Asks :=
            fun v hv hbad index => (hitem v hv index).2 hbad
          obtain ⟨hdone, hasks⟩ := Parse.parseParts_done_or_asks hdoneItem hasksItem 0
          rw [Value.inert_array_iff, parseArray, Parse.parseElements_display helements]
          refine ⟨fun hall => ?_, fun hnot => (hasks hnot).bind _⟩
          rw [hdone hall]
          rfl

/-! ## Evaluations -/

namespace Eval

variable {σ α : Type}

/-- The run from `s` begins with the evaluation of a text. -/
def Evaluates (x : Eval σ α) (s : Shell σ) : Prop :=
  ∃ text, (Shell.evalBlock text).trace s ≠ [] ∧ (Shell.evalBlock text).trace s <+: x.trace s

/-- An evaluation enters its level or reports that there is none left. -/
theorem trace_evaluateWithin_ne_nil (levels : Nat) (text : String) (s : Shell σ) :
    (evaluateWithin levels text).trace s ≠ [] := by
  have hruns := (evaluateWithin levels text).runs_self s
  cases levels with
  | zero =>
      rw [(runs_abort.mp (runs_get_bind.mp hruns)).1]
      simp
  | succ levels =>
      obtain ⟨tr, -, htrace⟩ := runs_modify_bind.mp (runs_get_bind.mp hruns)
      rw [htrace]
      simp

/-- A run that begins with the evaluation of a text still does with more behind it. -/
theorem Evaluates.bind {β : Type} {x : Eval σ α} {s : Shell σ} (h : x.Evaluates s)
    (f : α → Eval σ β) : (x >>= f).Evaluates s := by
  obtain ⟨text, hne, hprefix⟩ := h
  refine ⟨text, hne, ?_⟩
  have hruns := (x >>= f).runs_self s
  rcases runs_bind.mp hruns with ⟨tr₁, a, u, tr₂, hrun, -, htrace⟩ | ⟨e, hrun, -⟩
  · rw [htrace, ← hrun.trace]
    exact hprefix.trans (List.prefix_append _ _)
  · rw [← hrun.trace]
    exact hprefix

theorem Evaluates.congr {x y : Eval σ α} {s : Shell σ} (hx : x.Evaluates s)
    (h : ∀ {tr r t}, y.Runs s tr r t → x.Runs s tr r t) : y.Evaluates s := by
  obtain ⟨text, hne, hprefix⟩ := hx
  exact ⟨text, hne, (h (y.runs_self s)).trace ▸ hprefix⟩

theorem Evaluates.attempt {x : Eval σ α} {s : Shell σ} (h : x.Evaluates s) :
    x.attempt.Evaluates s := by
  obtain ⟨text, hne, hprefix⟩ := h
  obtain ⟨outcome, hrun, -⟩ := runs_attempt.mp (x.attempt.runs_self s)
  exact ⟨text, hne, hrun.trace ▸ hprefix⟩

theorem evaluates_subEvaluate (expression : String) (s : Shell σ) :
    (subEvaluate Shell.evalBlock expression).Evaluates s := by
  have hself : (Shell.evalBlock expression).Evaluates s :=
    ⟨expression, trace_evaluateWithin_ne_nil _ expression s, List.prefix_rfl⟩
  obtain ⟨text, hne, hprefix⟩ := hself.bind _
  exact ⟨text, hne, hprefix⟩

/-- A conversion that asks makes the shell evaluate what it asks for. -/
theorem evaluates_convert {p : Parse Value} (hp : p.Asks) (s : Shell σ) :
    (convert Shell.evalBlock p).Evaluates s := by
  obtain ⟨expression, next, rfl, -⟩ := hp
  exact (evaluates_subEvaluate expression s).attempt.bind _

/-- An argument is fetched by converting its text. -/
theorem runs_fetch_of_argument {nested : String → Eval σ Unit} {s t : Shell σ} {tr : List (Moment σ)}
    {r : Except ShellError Value} {index : Nat} {param : Param} {frame : Frame} {argument : Argument}
    {parser : Parser} (hframe : s.stack.current = .ok frame)
    (hargument : frame.arguments[index]? = some argument)
    (hparser : s.types.parserFor? param.type = some parser) :
    (fetch nested index param).Runs s tr r t ↔
      (do match ← convert nested (parser argument.text) with
          | .ok v => return v
          | .error f =>
              throw (argumentFailure frame index param argument.origin f) : Eval σ Value).Runs s tr r t := by
  rw [fetch, runs_get_bind, hframe, runs_lift_bind]
  constructor
  · rintro (⟨f, hf, h⟩ | ⟨e, he, -⟩)
    · cases hf
      rw [hargument, hparser] at h
      exact h
    · cases he
  · intro h
    refine .inl ⟨frame, rfl, ?_⟩
    rw [hargument, hparser]
    exact h

end Eval

/-! ## Reading printed arrays -/

/-- The text of an array of texts and truth values, nested to any depth, is read back under a resolver
    that always fails exactly if the array is inert; otherwise the conversion fails as the resolver does.
    In a shell the text of an inert array is converted, and fetched as an argument, in no step at all;
    that of any other one is evaluated in part. -/
theorem parse_display_inert_iff {element : ValueType} (htype : element.IsTextual) {v : Value}
    (hv : (ValueType.array element).Has v) (htexts : ∀ s ∈ v.texts, IsPrintable s) :
    (∀ fails : String → ShellError,
      ((Conversions.standard.parse (.array element) v.display).runPure (fun e => .error (fails e)) =
          .ok v ↔ v.Inert) ∧
        (¬ v.Inert → ∃ expression,
          (Conversions.standard.parse (.array element) v.display).runPure (fun e => .error (fails e)) =
            .error (.resolution (fails expression)))) ∧
    ∀ {σ : Type} {s : Shell σ}, s.types = .standard →
      (v.Inert → (Shell.convert (.array element) v.display).Runs s [] (.ok (.ok v)) s) ∧
      (¬ v.Inert → (Shell.convert (.array element) v.display).Evaluates s) ∧
      ∀ {frame : Frame} {index : Nat} {argument : Argument} {param : Param},
        s.stack.current = .ok frame → frame.arguments[index]? = some argument →
        argument.text = v.display → param.type = .array element →
        (v.Inert → (Shell.fetch index param).Runs s [] (.ok v) s) ∧
        (¬ v.Inert → (Shell.fetch index param).Evaluates s) := by
  obtain ⟨parser, hparser, hread⟩ := (ValueType.IsTextual.array htype).parses_display
  obtain ⟨hdone, hasks⟩ := hread v hv htexts
  have hparse : Conversions.standard.parse (.array element) v.display = parser v.display := by
    rw [Conversions.parse, hparser]
  rw [hparse]
  refine ⟨fun fails => ?_, fun {σ s} htypes => ?_⟩
  · have hfailed (hinert : ¬ v.Inert) := (hasks hinert).runPure fails
    refine ⟨⟨fun hok => ?_, fun hinert => ?_⟩, hfailed⟩
    · by_cases hinert : v.Inert
      · exact hinert
      · obtain ⟨expression, herror⟩ := hfailed hinert
        rw [hok] at herror
        cases herror
    · rw [hdone hinert]
      rfl
  · have hconvert {tr r t} : (Shell.convert (.array element) v.display).Runs s tr r t ↔
        (Eval.convert Shell.evalBlock (parser v.display)).Runs s tr r t := by
      rw [Shell.convert, Eval.runs_get_bind, htypes, hparse]
    have hinertRun (hinert : v.Inert) :
        (Eval.convert Shell.evalBlock (parser v.display)).Runs s [] (.ok (.ok v)) s := by
      rw [hdone hinert]
      exact Eval.runs_pure.mpr ⟨rfl, rfl, rfl⟩
    have hothers (hinert : ¬ v.Inert) :
        (Eval.convert Shell.evalBlock (parser v.display)).Evaluates s :=
      Eval.evaluates_convert (hasks hinert) s
    refine ⟨fun hinert => hconvert.mpr (hinertRun hinert), fun hinert => ?_, ?_⟩
    · exact (hothers hinert).congr hconvert.mp
    · intro frame index argument param hframe hargument htext hparam
      have hfound : s.types.parserFor? param.type = some parser := by
        rw [htypes, hparam, hparser]
      have hfetch {tr r t} : (Shell.fetch index param).Runs s tr r t ↔ _ :=
        Eval.runs_fetch_of_argument hframe hargument hfound
      rw [htext] at hfetch
      refine ⟨fun hinert => hfetch.mpr ?_, fun hinert => ?_⟩
      · exact Eval.runs_bind.mpr (.inl ⟨[], .ok v, s, [], hinertRun hinert,
          Eval.runs_pure.mpr ⟨rfl, rfl, rfl⟩, rfl⟩)
      · exact ((hothers hinert).bind _).congr hfetch.mp

/-- Lists of two and more elements inside each other, texts with delimiters in them, and no resolver at
    all. -/
theorem parse_display_inert_iff_nested :
    (Conversions.standard.parse (.array (.array .text)) (Value.array [.array [.text "a, (b", .text ""],
        .array [.text "c", .text "d e", .text "f"]]).display).runPure (fun _ => .error .aborted) =
      .ok (.array [.array [.text "a, (b", .text ""], .array [.text "c", .text "d e", .text "f"]]) := by
  have hv : (ValueType.array (.array .text)).Has
      (.array [.array [.text "a, (b", .text ""], .array [.text "c", .text "d e", .text "f"]]) := by
    refine .array (List.forall_mem_cons.mpr ⟨?_, List.forall_mem_singleton.mpr ?_⟩)
    · exact .array (List.forall_mem_cons.mpr ⟨.text _, List.forall_mem_singleton.mpr (.text _)⟩)
    · exact .array (List.forall_mem_cons.mpr ⟨.text _, List.forall_mem_cons.mpr ⟨.text _,
        List.forall_mem_singleton.mpr (.text _)⟩⟩)
  exact ((parse_display_inert_iff (.array .text) hv (by decide)).1 fun _ => .aborted).1.mpr (by decide)

end CommandShell
