import CommandShell.Proofs.Conversions
import Mathlib.Data.List.Defs

/-!
# `CommandShell.Proofs.TypedValues` — conversions give values of their type

What the conversion for a type gives is a value of this type: of the right kind, a vector with the right
number of components, an array of elements of the right type. This holds for every type that is made of
built-in ones, as long as no other conversion has been registered for such a type, and whatever answers
the conversion gets.

So a call gets arguments of the types of its parameters, except where an argument is missing and something
else stands for it. The accessors of a command fail on values of another kind; on arguments that fit they
do not.

## Contents
- `ValueType.Contains`, and `ValueType.mentionsCustom`, the types that are not built in.
- `Conversions.contains_of_gives`, from `Parse.exists_components_of_parseVector`.
- `Param.Takes` and `takes_of_runs_fetch`, the values of parameters.
- `Args.Fit`, with `Args.Fit.view`, and the failure of an accessor (`ShellError.IsWrongArgument`).
-/

namespace CommandShell

variable {α : Type}

/-! ## Values of a type -/

namespace ValueType

/-- A type of the host occurs in the type. -/
def mentionsCustom : ValueType → Bool
  | optional inner => inner.mentionsCustom
  | array element => element.mentionsCustom
  | custom _ => true
  | _ => false

/-- The value is one of the type. -/
inductive Contains : ValueType → Value → Prop where
  | text (s) : Contains .text (.text s)
  | int (n) : Contains .int (.int n)
  | float (x) : Contains .float (.float x)
  | bool (b) : Contains .bool (.bool b)
  | vec2 {components} : components.length = 2 → Contains .vec2 (.vector components)
  | vec3 {components} : components.length = 3 → Contains .vec3 (.vector components)
  | vec4 {components} : components.length = 4 → Contains .vec4 (.vector components)
  | absent {inner} : Contains (.optional inner) .null
  | present {inner v} : Contains inner v → Contains (.optional inner) v
  | array {element items} : (∀ v ∈ items, Contains element v) → Contains (.array element) (.array items)

theorem contains_vector {type : ValueType} {bounds : VectorBounds} (h : type.vectorBounds? = some bounds)
    {components : List Float} (hlength : components.length = bounds.size) :
    type.Contains (.vector components) := by
  cases type with
  | vec2 =>
      cases h
      exact .vec2 hlength
  | vec3 =>
      cases h
      exact .vec3 hlength
  | vec4 =>
      cases h
      exact .vec4 hlength
  | text | int | float | bool | optional inner | array element | custom name => cases h

end ValueType

/-! ## Conversions -/

section Conversions

variable {A : Except ShellError String → Prop} {v : Value}

/-- A value that is read is one of the type, and everything else is a failure. -/
theorem contains_of_orInvalid {type : ValueType} {text expected : String} {v? : Option Value}
    (hv? : ∀ w, v? = some w → type.Contains w) (h : .ok v = orInvalid text expected v?) :
    type.Contains v := by
  cases v? with
  | some w =>
      cases h
      exact hv? _ rfl
  | none => cases h

/-- A number that is read is cut down to an integer. -/
theorem contains_of_parseInt {text : String} (h : .ok v = parseInt text) : ValueType.int.Contains v := by
  refine contains_of_orInvalid ?_ h
  intro w hw
  obtain ⟨n, -, rfl⟩ := Option.map_eq_some_iff.mp hw
  exact .int n

theorem contains_of_parseFloat {text : String} (h : .ok v = parseFloat text) :
    ValueType.float.Contains v := by
  refine contains_of_orInvalid ?_ h
  intro w hw
  obtain ⟨n, -, rfl⟩ := Option.map_eq_some_iff.mp hw
  exact .float _

theorem contains_of_parseBool {text : String} (h : .ok v = parseBool text) :
    ValueType.bool.Contains v := by
  unfold parseBool at h
  dsimp only at h
  split at h
  · cases h
    exact .bool false
  · split at h
    · cases h
      exact .bool true
    · cases h

/-- A vector has the components that are written, all of them, and then zeros up to its size. -/
theorem Parse.exists_components_of_parseVector {bounds : ValueType.VectorBounds} {text : String}
    (h : (parseVector bounds text).Gives A (.ok v)) :
    ∃ components, bounds.least ≤ components.length ∧ components.length ≤ bounds.size ∧
      v = .vector (components ++ List.replicate (bounds.size - components.length) 0) := by
  rcases gives_bind.mp h with ⟨vs, helements, hend⟩ | ⟨f, -, hf⟩
  · have hfloats : ∃ components : List Float, vs = components.map .float := by
      have hall := ok_of_parseElements helements
      clear helements hend
      induction vs with
      | nil => exact ⟨[], rfl⟩
      | cons w vs ih =>
          rw [List.forall_mem_cons] at hall
          obtain ⟨⟨text', hw⟩, hvs⟩ := hall
          obtain ⟨components, rfl⟩ := ih hvs
          cases contains_of_parseFloat (gives_done.mp hw) with
          | float x => exact ⟨x :: components, rfl⟩
    obtain ⟨components, rfl⟩ := hfloats
    have hkept : (components.map Value.float).filterMap Value.float? = components := by
      rw [List.filterMap_map]
      exact List.filterMap_some
    split at hend
    · cases gives_fail.mp hend
    · next hcount =>
      cases gives_pure.mp hend
      rw [List.length_map, not_or, Nat.not_lt, Nat.not_lt] at hcount
      refine ⟨components, hcount.2, hcount.1, ?_⟩
      rw [vectorOf, hkept]
  · cases hf

/-- Each of the conversions that are there from the beginning yields values of its type. -/
theorem Conversions.contains_of_standard {type : ValueType} {parser : Parser}
    (h : (type, parser) ∈ standard.entries) {text : String} (hv : (parser text).Gives A (.ok v)) :
    type.Contains v := by
  rcases mem_standard h with
    ⟨rfl, rfl⟩ | ⟨rfl, rfl⟩ | ⟨rfl, rfl⟩ | ⟨rfl, rfl⟩ | ⟨bounds, hbounds, rfl⟩
  · cases Parse.gives_done.mp hv
    exact .text text
  · exact contains_of_parseInt (Parse.gives_done.mp hv)
  · exact contains_of_parseFloat (Parse.gives_done.mp hv)
  · exact contains_of_parseBool (Parse.gives_done.mp hv)
  · obtain ⟨components, -, hmost, rfl⟩ := Parse.exists_components_of_parseVector hv
    refine ValueType.contains_vector hbounds ?_
    rw [List.length_append, List.length_replicate]
    omega

/-- The table has conversions of its own for types of the host only. -/
def Conversions.KeepsBuiltin (table : Conversions) : Prop :=
  ∀ entry ∈ table.entries, entry ∈ Conversions.standard.entries ∨ entry.1.mentionsCustom = true

theorem Conversions.keepsBuiltin_standard : standard.KeepsBuiltin :=
  fun _ hentry => .inl hentry

/-- What a conversion for a built-in type gives is of this type. -/
theorem Conversions.contains_of_gives {table : Conversions} (htable : table.KeepsBuiltin)
    {type : ValueType} {parser : Parser} (hparser : table.parserFor? type = some parser)
    (htype : type.mentionsCustom = false) {text : String} (h : (parser text).Gives A (.ok v)) :
    type.Contains v := by
  let M (type : ValueType) (parser : Parser) : Prop := type.mentionsCustom = false →
    ∀ text v, (parser text).Gives A (.ok v) → type.Contains v
  have hsound : M type parser := by
    refine parserFor?_induction (M := M) ?_ ?_ ?_ hparser
    · intro type parser hentry htype text v hv
      rcases htable _ hentry with hstandard | hcustom
      · exact contains_of_standard hstandard hv
      · rw [htype] at hcustom
        cases hcustom
    · intro type parser ih htype text v hv
      unfold parseOptional at hv
      split at hv
      · cases Parse.gives_pure.mp hv
        exact .absent
      · exact .present (ih htype text v hv)
    · intro type parser ih htype text v hv
      rcases Parse.gives_bind.mp hv with ⟨vs, helements, hend⟩ | ⟨f, -, hf⟩
      · cases Parse.gives_pure.mp hend
        refine .array fun w hw => ?_
        obtain ⟨part, hpart⟩ := Parse.ok_of_parseElements helements w hw
        exact ih htype part w hpart
      · cases hf
  exact hsound htype text v h

/-- So do those that are derived from them. The induction is on the type, whose parts are as free of
    custom types. -/
theorem Conversions.contains_of_parse {table : Conversions} (htable : table.KeepsBuiltin)
    {type : ValueType} (htype : type.mentionsCustom = false) {text : String}
    (h : (table.parse type text).Gives A (.ok v)) : type.Contains v := by
  unfold parse at h
  split at h
  · next parser hparser => exact contains_of_gives htable hparser htype h
  · cases Parse.gives_fail.mp h

end Conversions

/-! ## Values of parameters -/

/-- The value is of the type of the parameter, or it is what stands for an argument that is left out. -/
def Param.Takes (param : Param) (v : Value) : Prop :=
  param.type.Contains v ∨ param.isOptional = true ∧ v = param.default?.getD .null

/-- Where an argument may be left out, there is a value of the type that stands for it. -/
def Param.IsFilled (param : Param) : Prop :=
  param.isOptional = true → ∃ v, param.default? = some v ∧ param.type.Contains v

theorem isFilled_required (name : String) (type : ValueType) : (Param.required name type).IsFilled := by
  rintro ⟨⟩

/-- The value of a parameter is of its type if the default is. -/
theorem Param.Takes.contains {param : Param} {v : Value} (h : param.Takes v) (hfilled : param.IsFilled) :
    param.type.Contains v := by
  rcases h with hcontains | ⟨hoptional, rfl⟩
  · exact hcontains
  · obtain ⟨w, hdefault, hw⟩ := hfilled hoptional
    rw [hdefault]
    exact hw

/-- Without an argument the value is the default, or nothing where the type allows that. -/
theorem takes_of_missing {frame : Frame} {index : Nat} {param : Param} {v : Value}
    (h : .ok v = Eval.missing frame index param) : param.Takes v := by
  unfold Eval.missing at h
  split at h
  · next hoptional =>
    cases h
    exact .inr ⟨hoptional, rfl⟩
  · split at h
    · next hnullable =>
      cases h
      cases htype : param.type with
      | optional inner =>
          rw [Param.Takes, htype]
          exact .inl .absent
      | text | int | float | bool | vec2 | vec3 | vec4 | array element | custom name =>
          rw [htype] at hnullable
          cases hnullable
    · cases h

/-- What is fetched for a parameter of a built-in type is a value that it takes. -/
theorem takes_of_runs_fetch {σ : Type} {nested : String → Eval σ Unit} {index : Nat} {param : Param}
    {s t : Shell σ} {tr : List (Moment σ)} {v : Value} (htable : s.types.KeepsBuiltin)
    (hparam : param.type.mentionsCustom = false)
    (h : (Eval.fetch nested index param).Runs s tr (.ok v) t) : param.Takes v := by
  rw [Eval.fetch, Eval.runs_get_bind] at h
  rcases Eval.runs_lift_bind.mp h with ⟨frame, -, hrest⟩ | ⟨e, -, -, he, -⟩
  · split at hrest
    · exact takes_of_missing (Eval.runs_lift.mp hrest).2.1
    · next argument _ =>
      split at hrest
      · cases (Eval.runs_throw.mp hrest).2.1
      · next parser hparser =>
        -- Of the answers that the conversion gets nothing needs to be known.
        have hanswer : ∀ {expression s tr t} {r : Except ShellError String},
            (Eval.subEvaluate nested expression).Runs s tr r t → (fun _ => True) r := by
          intros
          trivial
        rcases Eval.runs_bind.mp hrest with ⟨tr₁, result, u, tr₂, hrun, hend, -⟩ | ⟨e, -, he⟩
        · obtain ⟨_, hresult, hgives⟩ := Eval.gives_of_runs_convert hanswer hrun
          cases hresult
          cases result with
          | ok w =>
              cases (Eval.runs_pure.mp hend).2.1
              exact .inl (Conversions.contains_of_gives htable hparser hparam hgives)
          | error f => cases (Eval.runs_throw.mp hend).2.1
        · cases he
  · cases he

/-! ## Arguments of commands -/

/-- The failure is that of an accessor: an argument has not the kind that a command asks for. -/
def ShellError.IsWrongArgument (e : ShellError) : Prop :=
  ∃ (index : Nat) (kind : String),
    e = .command ("argument " ++ toString index ++ " is not a " ++ kind ++ " value")

namespace Args

/-- The arguments are values that the parameters take, one for each. -/
def Fit (args : Args) (params : List Param) : Prop :=
  List.Forall₂ Param.Takes params args.values

variable {args : Args} {params : List Param} {index : Nat} {param : Param}

theorem Fit.get (h : args.Fit params) (hparam : params[index]? = some param) :
    ∃ v, args.values[index]? = some v ∧ param.Takes v := by
  obtain ⟨values⟩ := args
  unfold Fit at h
  dsimp only at h ⊢
  induction h generalizing index with
  | nil => simp at hparam
  | @cons p v params values hv _ ih =>
      cases index with
      | zero =>
          cases hparam
          exact ⟨v, rfl, hv⟩
      | succ index => exact ih hparam

/-- An accessor does not fail where every value of the parameter has the kind it asks for. -/
theorem Fit.view (h : args.Fit params) (hparam : params[index]? = some param)
    (hfilled : param.IsFilled) {kind : String} {f : Value → Option α}
    (hf : ∀ v, param.type.Contains v → v.isNull = false ∧ ∃ a, f v = some a) :
    ∃ a, args.view index kind f = .ok a := by
  obtain ⟨v, hv, htakes⟩ := h.get hparam
  obtain ⟨hnull, a, ha⟩ := hf v (htakes.contains hfilled)
  have hget : args.get? index = some v := by
    rw [get?, hv, Option.filter_some, hnull]
    rfl
  refine ⟨a, ?_⟩
  rw [Args.view, hget, Option.bind_some, ha]

/-- An accessor has only one failure. -/
theorem isWrongArgument_of_view {kind : String} {f : Value → Option α} {e : ShellError}
    (h : args.view index kind f = .error e) : e.IsWrongArgument := by
  unfold Args.view at h
  split at h
  · cases h
  · cases h
    exact ⟨index, kind, rfl⟩

end Args
end CommandShell
