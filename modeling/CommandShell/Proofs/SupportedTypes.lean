import CommandShell.Proofs.Conversions
import CommandShell.Proofs.Evaluation.Manifests
import CommandShell.Proofs.Nesting

/-!
# `CommandShell.Proofs.SupportedTypes` — parameters can always be converted

A binding is registered only if the types of its parameters have conversions, and it is called later, when
other conversions may have been registered: for the types inside, or for the type itself. A conversion is
never taken away, so what a table supports it goes on to support, and the check at registration is enough.

The conversion of an argument may then fail in many ways, but not for lack of a conversion. That failure
only comes up if a conversion of the host makes it up itself, or if a command takes its arguments for
parameters other than those that it was registered with, which nobody has checked.

## Contents
- `Conversions.Grows`, with `Conversions.Grows.supports`.
- `Parse.Raises` and `Conversions.MakesUp`, failures that no evaluation has had.
- `Contract.supporting`, the growth of the table along a run, and its lawfulness.
- `Shell.Reachable.params_supported`, and `Shell.unsupported_made_up`, a conversion that does make it up
  and a command with a parameter that has not been checked.
-/

namespace CommandShell

open Eval Contract

variable {σ α : Type}

/-! ## Tables that grow -/

namespace Conversions

variable {table later : Conversions} {type : ValueType}

/-- The later table has the conversions of the earlier one behind those that were registered since. -/
def Grows (table later : Conversions) : Prop :=
  table.entries <:+ later.entries

theorem Grows.refl (table : Conversions) : table.Grows table :=
  List.suffix_rfl

theorem Grows.trans {last : Conversions} (h : table.Grows later) (h' : later.Grows last) :
    table.Grows last :=
  List.IsSuffix.trans h h'

/-- A conversion is registered in front of the others. -/
theorem grows_register (table : Conversions) (type : ValueType) (parser : Parser) :
    table.Grows (table.register type parser) :=
  List.suffix_cons _ _

/-- A type with a conversion of its own keeps one, maybe a newer one. -/
theorem Grows.registered (h : table.Grows later) (hs : (table.registered? type).isSome = true) :
    (later.registered? type).isSome = true := by
  obtain ⟨newer, hentries⟩ := h
  unfold registered? at hs ⊢
  rw [← hentries, List.lookup_append, Option.isSome_or, hs, Bool.or_true]

/-- A type is supported if a conversion is registered for it, or derived from that of the type inside. -/
theorem supports_iff : table.supports type = true ↔
    (table.registered? type).isSome = true ∨
      match type with
      | .optional inner => table.supports inner = true
      | .array element => table.supports element = true
      | _ => False := by
  unfold supports
  cases hreg : table.registered? type with
  | some parser =>
      unfold parserFor?
      simp [hreg]
  | none =>
      cases type with
      | optional inner =>
          rw [parserFor?, hreg]
          simp
      | array element =>
          rw [parserFor?, hreg]
          simp
      | text | int | float | bool | vec2 | vec3 | vec4 | custom name =>
          unfold parserFor?
          simp [hreg]

/-- What a table supports, every later one supports. The induction is on the type, for a conversion may
    have been registered at any level of it. -/
theorem Grows.supports (h : table.Grows later) (hs : table.supports type = true) :
    later.supports type = true := by
  induction type with
  | optional inner ih =>
      rw [supports_iff] at hs ⊢
      exact hs.imp h.registered ih
  | array element ih =>
      rw [supports_iff] at hs ⊢
      exact hs.imp h.registered ih
  | text | int | float | bool | vec2 | vec3 | vec4 | custom name =>
      rw [supports_iff] at hs ⊢
      exact hs.imp h.registered id

end Conversions

/-! ## Failures that are made up -/

/-- The conversion may fail to evaluate something in a way in which no evaluation that it asked for has
    failed. -/
def Parse.Raises (p : Parse α) (e : ShellError) : Prop :=
  p.Gives (· ≠ .error e) (.error (.resolution e))

/-- A conversion of the table that is not built in raises the failure. -/
def Conversions.MakesUp (table : Conversions) (e : ShellError) : Prop :=
  ∃ entry ∈ table.entries, entry ∉ Conversions.standard.entries ∧ ∃ text, (entry.2 text).Raises e

section Raises

variable {e : ShellError}

theorem Conversions.MakesUp.grows {table later : Conversions} (h : table.MakesUp e)
    (hgrows : table.Grows later) : later.MakesUp e := by
  obtain ⟨entry, hentry, hraises⟩ := h
  exact ⟨entry, hgrows.subset hentry, hraises⟩

/-- A literal raises nothing but what the conversion of its elements raises, unless it is not closed. -/
theorem Parse.exists_raises_of_parseElements {element : Parser} {s : String}
    (he : ∀ closer, e ≠ .unexpectedEnd closer) (h : (parseElements element s).Raises e) :
    ∃ text, (element text).Raises e := by
  rcases resolution_of_parseElements h with ⟨closer, hclosed⟩ | hanswer | hraises
  · exact absurd hclosed (he closer)
  · exact absurd rfl hanswer
  · exact hraises

theorem Parse.exists_raises_of_parseArray {element : Parser} {s : String}
    (he : ∀ closer, e ≠ .unexpectedEnd closer) (h : (parseArray element s).Raises e) :
    ∃ text, (element text).Raises e := by
  rcases gives_bind.mp h with ⟨vs, -, hend⟩ | ⟨f, helements, hf⟩
  · cases gives_pure.mp hend
  · cases hf
    exact exists_raises_of_parseElements he helements

/-- Null is no failure, so it is the conversion inside that raises it. -/
theorem Parse.raises_of_parseOptional {inner : Parser} {s : String}
    (h : (parseOptional inner s).Raises e) : (inner s).Raises e := by
  unfold parseOptional at h
  split at h
  · cases gives_pure.mp h
  · exact h

/-- Numbers and truth values evaluate nothing. -/
theorem Parse.not_raises_done {result : Except ParseFailure α} (hresult : result ≠ .error (.resolution e)) :
    ¬ (Parse.done result).Raises e :=
  fun h => hresult (gives_done.mp h).symm

theorem orInvalid_ne_resolution (text expected : String) (v? : Option Value) :
    orInvalid text expected v? ≠ .error (.resolution e) := by
  cases v? <;> simp [orInvalid]

theorem parseBool_ne_resolution (s : String) : parseBool s ≠ .error (.resolution e) := by
  unfold parseBool
  dsimp only
  split
  · simp
  · split <;> simp

/-- A number does not ask for anything, and a literal of numbers raises nothing else. -/
theorem Parse.not_raises_parseVector {bounds : ValueType.VectorBounds} {s : String}
    (he : ∀ closer, e ≠ .unexpectedEnd closer) : ¬ (parseVector bounds s).Raises e := by
  intro h
  rcases gives_bind.mp h with ⟨vs, -, hend⟩ | ⟨f, helements, hf⟩
  · split at hend
    · cases gives_fail.mp hend
    · cases gives_pure.mp hend
  · cases hf
    obtain ⟨text, hraises⟩ := exists_raises_of_parseElements he helements
    exact not_raises_done (orInvalid_ne_resolution _ _ _) hraises

/-- No conversion that is there from the beginning makes a failure up, apart from a text that ends too
    soon. -/
theorem Conversions.not_raises_standard {entry : ValueType × Parser}
    (h : entry ∈ Conversions.standard.entries) (he : ∀ closer, e ≠ .unexpectedEnd closer)
    (text : String) : ¬ (entry.2 text).Raises e := by
  obtain ⟨type, parser⟩ := entry
  rcases mem_standard h with ⟨-, rfl⟩ | ⟨-, rfl⟩ | ⟨-, rfl⟩ | ⟨-, rfl⟩ | ⟨bounds, -, rfl⟩
  · exact Parse.not_raises_done (by simp [parseText])
  · exact Parse.not_raises_done (orInvalid_ne_resolution _ _ _)
  · exact Parse.not_raises_done (orInvalid_ne_resolution _ _ _)
  · exact Parse.not_raises_done (parseBool_ne_resolution text)
  · exact Parse.not_raises_parseVector he

/-- What a conversion of a table raises is made up by one that was registered. -/
theorem Conversions.makesUp_of_raises {table : Conversions} {type : ValueType} {parser : Parser}
    (he : ∀ closer, e ≠ .unexpectedEnd closer) (h : table.parserFor? type = some parser) {text : String}
    (hraises : (parser text).Raises e) : table.MakesUp e := by
  let M (_ : ValueType) (parser : Parser) : Prop := ∀ text, (parser text).Raises e → table.MakesUp e
  have hparser : M type parser := by
    refine parserFor?_induction (M := M) ?_ ?_ ?_ h
    · intro type parser hentry text hraises
      refine ⟨(type, parser), hentry, fun hstandard => ?_, text, hraises⟩
      exact not_raises_standard hstandard he text hraises
    · intro type parser ih text hraises
      exact ih text (Parse.raises_of_parseOptional hraises)
    · intro type parser ih text hraises
      obtain ⟨part, hpart⟩ := Parse.exists_raises_of_parseArray he hraises
      exact ih part hpart
  exact hparser text hraises

end Raises

/-! ## Bindings and their parameters -/

/-- Every binding has only parameters that texts can be converted to. -/
def Shell.ParamsSupported (s : Shell σ) : Prop :=
  ∀ (key : String) (b : Binding σ), s.registry.bindings[key]? = some b →
    ∀ p ∈ b.profile.params, s.types.supports p.type = true

namespace Shell

variable {s t : Shell σ}

theorem ParamsSupported.congr (h : s.ParamsSupported) (hst : s.SameSetup t) : t.ParamsSupported := by
  intro key b hb p hp
  rw [hst.registry] at hb
  rw [hst.types]
  exact h key b hb p hp

/-- A binding is checked before it is registered. -/
theorem ParamsSupported.bind {name : String} {b : Binding σ} (h : s.ParamsSupported)
    (ht : s.bind name b = .ok t) : t.ParamsSupported := by
  obtain ⟨-, hparams, rfl⟩ := bind_eq_ok_iff.mp ht
  intro key b' hb' p hp
  rw [Dictionary.getElem?_insert] at hb'
  split at hb'
  · cases hb'
    exact hparams p hp
  · exact h key b' hb' p hp

theorem ParamsSupported.unbind (h : s.ParamsSupported) (name : String) :
    (s.unbind name).ParamsSupported :=
  fun key b hb => h key b (getElem?_unbind hb)

/-- The check of older bindings holds on, for the table has only grown. -/
theorem ParamsSupported.registerType (h : s.ParamsSupported) (type : ValueType) (parser : Parser) :
    (s.registerType type parser).ParamsSupported :=
  fun key b hb p hp => (Conversions.grows_register _ _ _).supports (h key b hb p hp)

/-- The commands and aliases of a configuration are checked like all others. -/
theorem paramsSupported_configured (config : Config) (host : σ) :
    (configured config host).ParamsSupported := by
  have hempty : (empty config host).ParamsSupported := by
    intro key b hb
    simp [empty] at hb
  unfold configured
  refine bindAll_induction (fun h => h.congr (sameSetup_report _ _)) ?_ ?_
  · intro _ _ s t hs ht
    exact hs.bind ht
  · refine bindAll_induction (fun h => h) ?_ hempty
    intro _ _ s t hs ht
    exact hs.bind ht

end Shell

/-! ## The contract -/

section Supporting

variable {s t u : Shell σ} {tr tr' : List (Moment σ)}

/-- At each moment of the run, and at its end, the table is the one of every earlier moment or has grown
    from it. -/
structure Grown (s : Shell σ) (tr : List (Moment σ)) (t : Shell σ) : Prop where
  whole : s.types.Grows t.types
  moments : ∀ m ∈ tr, s.types.Grows m.shell.types ∧ m.shell.types.Grows t.types
  order : tr.Pairwise fun m m' => m.shell.types.Grows m'.shell.types

theorem Grown.nil (s : Shell σ) : Grown s [] s where
  whole := .refl _
  moments := by simp
  order := .nil

theorem Grown.trans (h : Grown s tr t) (h' : Grown t tr' u) : Grown s (tr ++ tr') u where
  whole := h.whole.trans h'.whole
  moments := by
    intro m hm
    rcases List.mem_append.mp hm with hm | hm
    · exact ⟨(h.moments m hm).1, (h.moments m hm).2.trans h'.whole⟩
    · exact ⟨h.whole.trans (h'.moments m hm).1, (h'.moments m hm).2⟩
  order := by
    refine List.pairwise_append.mpr ⟨h.order, h'.order, ?_⟩
    intro m hm m' hm'
    exact (h.moments m hm).2.trans (h'.moments m' hm').1

theorem Grown.single {n? : Option (Note σ)} (h : s.types.Grows u.types) : Grown s [⟨u, n?⟩] u where
  whole := h
  moments := by
    intro m hm
    cases List.mem_singleton.mp hm
    exact ⟨h, .refl _⟩
  order := List.pairwise_singleton _ _

/-- One more moment, with a table that has grown or is the same. -/
theorem Grown.snoc {n? : Option (Note σ)} (h : Grown s tr t) (hu : t.types.Grows u.types) :
    Grown s (tr ++ [⟨u, n?⟩]) u :=
  h.trans (.single hu)

theorem Grown.pairwise_visits {x : Eval σ α} (h : Grown s (x.trace s) (x.exec s).2) :
    (x.visits s).Pairwise fun u v => u.types.Grows v.types := by
  have hmoments : ((x.trace s).map (·.shell)).Pairwise fun u v => u.types.Grows v.types :=
    List.pairwise_map.mpr h.order
  rw [visits, List.cons_append, List.pairwise_cons, List.pairwise_append]
  refine ⟨?_, hmoments, List.pairwise_singleton _ _, ?_⟩
  · intro u hu
    rcases List.mem_append.mp hu with hu | hu
    · obtain ⟨m, hm, rfl⟩ := List.mem_map.mp hu
      exact (h.moments m hm).1
    · cases List.mem_singleton.mp hu
      exact h.whole
  · intro u hu v hv
    obtain ⟨m, hm, rfl⟩ := List.mem_map.mp hu
    cases List.mem_singleton.mp hv
    exact (h.moments m hm).2

/-- Bindings keep parameters that texts can be converted to, and the table grows. -/
def Contract.supporting : Contract σ where
  fit _ := True
  inv := Shell.ParamsSupported
  rel s tr _ t := Grown s tr t

/-- A conversion that asks for sub-evaluations finds the table grown behind each of them. -/
theorem admitsParse_supporting {p : Parse α} (h : Grown s tr t) :
    Contract.supporting.AdmitsParse s p tr t := by
  induction p generalizing t tr with
  | done result => exact h
  | resolve expression next ih =>
      intro r tr' u hu
      exact ih r (h.trans hu.rel)

/-- Any command at all is admitted: what it binds is checked, and it cannot take a conversion away. -/
theorem admits_supporting {a : Action σ} (ht : t.ParamsSupported) (h : Grown s tr t) :
    Contract.supporting.Admits s a tr t := by
  induction a generalizing t tr with
  | done result => exact h
  | inspect next ih => exact ih _ ht h
  | update change next ih => exact ih (ht.congr (t.sameSetup_update change)) (h.snoc (.refl _))
  | emit line next ih => exact ih (ht.congr (t.sameSetup_emit line)) (h.snoc (.refl _))
  | popLast next ih => exact ih _ (ht.congr t.sameSetup_popLast) (h.snoc (.refl _))
  | drain next ih => exact ih _ (ht.congr t.sameSetup_drain) (h.snoc (.refl _))
  | evalBlock text next ih | resolve expression next ih =>
      intro r tr' u hu
      exact ih r hu.inv (h.trans hu.rel)
  | fetch index param next ih =>
      intro r tr' u hu
      exact ih r hu.inv (h.trans hu.rel)
  | convert type text next ih =>
      intro r tr' u hu
      exact ih r hu.inv (h.trans hu.rel)
  | bind name profile body next _ ih =>
      refine ⟨?_, fun e _ => ih _ ht h⟩
      intro u hu
      have hsame : t.types.Grows u.types := by
        rw [Shell.bind_eq hu]
        exact .refl _
      exact ⟨ht.bind hu, ih _ (ht.bind hu) (h.snoc hsame)⟩
  | unbind name next ih =>
      exact ⟨ht.unbind name, ih _ (ht.unbind name) (h.snoc (.refl _))⟩
  | registerType type parser next ih =>
      have hinv := ht.registerType type parser
      exact ⟨hinv, ih hinv (h.snoc (Conversions.grows_register _ _ _))⟩

/-- No step of the evaluator takes a conversion away. -/
theorem Contract.lawful_supporting : (Contract.supporting : Contract σ).Lawful where
  inv_congr := Shell.ParamsSupported.congr
  fit_of_lookup _ _ := trivial
  nil _ := .nil _
  trans := Grown.trans
  fail _ h := h
  report := by
    intro s t tr e _ h
    refine h.snoc ?_
    rw [(t.sameSetup_report e).types]
    exact .refl _
  enclose := by
    intro s t tr e? depth depth' stack stack' h
    have hbegin : Grown s [⟨s.atLevel depth stack, none⟩] (s.atLevel depth stack) :=
      .single (.refl s.types)
    exact hbegin.trans (h.snoc (.refl t.types))
  answer _ := .single (.refl _)
  expire hs _ _ := ⟨hs.unbind _, .single (.refl _)⟩
  take := by
    intro s t tr expression _ h
    have hnote : Grown t [⟨t, some (.take expression s)⟩] t := .single (.refl _)
    have hpopped : Grown t [⟨t, some (.take expression s)⟩, ⟨t.popLast?.2, none⟩] t.popLast?.2 :=
      hnote.snoc (.refl t.types)
    exact ⟨fun _ => h.trans hnote, fun line _ => h.trans hpopped⟩
  conversions _ _ _ := admitsParse_supporting (.nil _)
  calls hs _ _ _ := admits_supporting hs (.single (.refl _))

end Supporting

/-! ## Arguments -/

namespace Eval

variable {nested : String → Eval σ Unit} {L : Shell σ → Prop} {s t : Shell σ} {tr : List (Moment σ)}
  {caller name type : String}

/-- A parameter that has a conversion is not refused for lack of one. -/
theorem makesUp_of_runs_fetch
    (hnested : ∀ {text s tr e t}, (nested text).Runs s tr (.error e) t → e = .aborted)
    {index : Nat} {param : Param} (hparam : s.types.supports param.type = true)
    (h : (fetch nested index param).Runs s tr (.error (.unsupportedType caller name type)) t) :
    s.types.MakesUp (.unsupportedType caller name type) := by
  rw [fetch, runs_get_bind] at h
  rcases runs_lift_bind.mp h with ⟨frame, -, hrest⟩ | ⟨e, he, -, hsame, -⟩
  · split at hrest
    · have hmissing := (runs_lift.mp hrest).2.1
      unfold missing at hmissing
      split at hmissing
      · cases hmissing
      · split at hmissing <;> cases hmissing
    · next argument _ =>
      obtain ⟨parser, hparser⟩ := Option.isSome_iff_exists.mp hparam
      rw [hparser] at hrest
      -- The answers that the conversion gets are not this failure, so it would have to raise it.
      have hanswer : ∀ {expression s tr r t}, (subEvaluate nested expression).Runs s tr r t →
          r ≠ .error (.unsupportedType caller name type) := by
        rintro expression s tr r t hrun rfl
        rcases failure_of_runs_subEvaluate hnested hrun with he | he <;> cases he
      rcases runs_bind.mp hrest with ⟨tr₁, result, u, tr₂, hrun, hend, -⟩ | ⟨e, hrun, -⟩
      · obtain ⟨_, hresult, hgives⟩ := gives_of_runs_convert hanswer hrun
        cases hresult
        cases result with
        | ok v => cases (runs_pure.mp hend).2.1
        | error f =>
            have hf := (runs_throw.mp hend).2.1
            unfold argumentFailure at hf
            split at hf
            · cases hf
              exact Conversions.makesUp_of_raises (by simp) hparser hgives
            · split at hf <;> cases hf
      · obtain ⟨result, hresult, -⟩ := gives_of_runs_convert hanswer hrun
        cases hresult
  · cases hsame
    unfold CallStack.current at he
    split at he <;> cases he

/-- The same of several parameters: the table grows while the first of them is converted, so the others
    still have their conversions. -/
theorem makesUp_of_runs_fetchFrom (hL : Nestable L)
    (hmeets : ∀ text, Contract.supporting.Meets L (nested text))
    (hnested : ∀ {text s tr e t}, (nested text).Runs s tr (.error e) t → e = .aborted)
    {index : Nat} {params : List Param} (hs : L s) (hi : s.ParamsSupported)
    (hparams : ∀ p ∈ params, s.types.supports p.type = true)
    (h : (fetchFrom nested index params).Runs s tr (.error (.unsupportedType caller name type)) t) :
    t.types.MakesUp (.unsupportedType caller name type) := by
  induction params generalizing index s tr with
  | nil => cases (runs_pure.mp h).2.1
  | cons param params ih =>
      rw [List.forall_mem_cons] at hparams
      have hfirst := lawful_supporting.fetch hL hmeets index param
      rcases runs_bind.mp h with ⟨tr₁, v, u, tr₂, hrun, hrest, -⟩ | ⟨e, hrun, he⟩
      · have hu := hfirst hs hi hrun
        have hothers : ∀ p ∈ params, u.types.supports p.type = true :=
          fun p hp => hu.rel.whole.supports (hparams.2 p hp)
        rcases runs_bind.mp hrest with ⟨tr₃, vs, w, tr₄, -, hend, -⟩ | ⟨e, hothersRun, he⟩
        · cases (runs_pure.mp hend).2.1
        · cases he
          exact ih (hL.sameLevel hs hu.level) hu.inv hothers hothersRun
      · cases he
        exact (makesUp_of_runs_fetch hnested hparams.1 hrun).grows (hfirst hs hi hrun).rel.whole

end Eval

/-! ## Reachable states -/

namespace Shell

/-- What a host does to a shell with supported parameters keeps them, and lets the table grow. -/
theorem ParamsSupported.serve {s : Shell σ} (hs : s.Bounded) (h : s.ParamsSupported) (program : Action σ) :
    Contract.supporting.Holds s ((serve program).trace s) (failureOf ((serve program).exec s).1)
      ((serve program).exec s).2 :=
  lawful_supporting.perform nestable_bounded lawful_supporting.evalBlock [] hs (.refl h)
    (admits_supporting h (.nil s)) (runs_self _ _)

theorem Reachable.paramsSupported {P : Policy σ} {config : Config} {host : σ} {s : Shell σ}
    (h : Reachable P config host s) : s.ParamsSupported := by
  obtain ⟨program, -, hs⟩ := h
  have hstart := paramsSupported_configured config host
  have hserve := hstart.serve (bounded_configured config host) program
  rcases mem_visits.mp hs with rfl | ⟨m, hm, rfl⟩ | rfl
  · exact hstart
  · exact (hserve.moments m hm).1
  · exact hserve.inv

/-- In every reachable state every binding has only parameters of supported types, whatever the host and
    its commands bind, remove and register, a manifest included, which is bound by a request like any
    other. A type that is supported once is supported from there on. So while the arguments of a call are
    converted, the types of its parameters are supported at every moment, and the call does not fail for
    lack of a conversion, unless a conversion of the host makes this failure up. -/
theorem Reachable.params_supported {config : Config} {host : σ} {s : Shell σ}
    (h : Reachable Policy.unrestricted config host s) :
    (∀ (key : String) (b : Binding σ), s.registry.bindings[key]? = some b →
      ∀ p ∈ b.profile.params, s.types.supports p.type = true) ∧
    (∀ program : Action σ, ((serve program).visits s).Pairwise fun u v =>
      ∀ type, u.types.supports type = true → v.types.supports type = true) ∧
    (∀ (m : Manifest) (table : HostTable σ), ∃ request : (Except ShellError Nat → Action σ) → Action σ,
      ∀ nested next, Eval.perform nested (request next) =
        attempt (bindManifest m table) >>= fun outcome => Eval.perform nested (next outcome)) ∧
    ∀ name,
      (∀ b, s.registry.lookup? name = some b → ∀ u ∈ (prepare evalBlock name).visits s,
        ∀ p ∈ b.profile.params, u.types.supports p.type = true) ∧
      ∀ tr t caller param type,
        (prepare evalBlock name).Runs s tr (.error (.unsupportedType caller param type)) t →
          t.types.MakesUp (.unsupportedType caller param type) := by
  have hP := (Policy.closed_unrestricted : (Policy.unrestricted : Policy σ).Closed)
  have hL := (nestable_bounded : Nestable (Bounded : Shell σ → Prop))
  have hC := (lawful_supporting : (Contract.supporting : Contract σ).Lawful)
  obtain ⟨-, hs⟩ := h.obeys hP
  have hi := h.paramsSupported
  refine ⟨hi, ?_, ?_, ?_⟩
  · intro program
    have hpairwise := (hi.serve hs program).rel.pairwise_visits
    exact hpairwise.imp fun hgrows type => hgrows.supports
  · intro m table
    exact ⟨Action.bindManifest m table, fun nested next => Action.perform_bindManifest m table next⟩
  · intro name
    refine ⟨?_, ?_⟩
    · intro b hb u hu p hp
      have hsupported := hi (Text.lower name) b hb p hp
      have hrel := (hC.prepare hL hC.evalBlock hs hi (runs_self (prepare evalBlock name) s)).1.rel
      rcases mem_visits.mp hu with rfl | ⟨m, hm, rfl⟩ | rfl
      · exact hsupported
      · exact (hrel.moments m hm).1.supports hsupported
      · exact hrel.whole.supports hsupported
    · intro tr t caller param type hrun
      rw [prepare, runs_get_bind] at hrun
      split at hrun
      · cases (runs_throw.mp hrun).2.1
      · next b hb =>
        split at hrun
        · have haborted {text s tr e t} (h : (evalBlock text : Eval σ Unit).Runs s tr (.error e) t) :
              e = .aborted :=
            aborted_of_runs_evaluateWithin (runs_get_bind.mp h)
          rcases runs_bind.mp hrun with ⟨tr₁, vs, u, tr₂, -, hend, -⟩ | ⟨e, hfetch, he⟩
          · cases (runs_pure.mp hend).2.1
          · cases he
            exact makesUp_of_runs_fetchFrom hL hC.evalBlock haborted hs hi (hi _ b hb) hfetch
        · obtain ⟨tr₁, hend, -⟩ := runs_modify_bind.mp hrun
          cases (runs_throw.mp hend).2.1

/-- The shell that starts without a configuration file, and the commands in it. -/
theorem params_supported_started :
    (start {} ()).registry.contains "repeat" = true ∧
      ∀ (key : String) (b : Binding Unit), (start {} ()).registry.bindings[key]? = some b →
        ∀ p ∈ b.profile.params, (start {} ()).types.supports p.type = true := by
  refine ⟨by decide +kernel, ?_⟩
  exact (Reachable.params_supported (reachable_start Policy.closed_unrestricted {} ())).1

/-! ## Calls that fail for an unsupported type -/

/-- A conversion that answers every text with the failure that its type is not supported. -/
def disowning : Parser := fun _ =>
  .fail (.resolution (.unsupportedType "paint" "colour" "colour"))

/-- The host that registers it for a type of its own, and binds a command with a parameter of the type. -/
def disown : Action Unit :=
  .registerType (.custom "colour") disowning <|
    .bind "paint" { params := [.required "colour" (.custom "colour")] } (fun _ => .done (.ok none))
      fun _ => .done (.ok none)

/-- The shell that this host leaves. -/
def disowned : Shell Unit :=
  ((serve disown).exec (configured {} ())).2

/-- A host with a command that has no parameters, and takes its argument for one all the same. -/
def pry : Action Unit :=
  .bind "peek" {} (fun _ => Script.fetch 0 (.required "colour" (.custom "colour")) fun v => .done (.ok v))
    fun _ => .done (.ok none)

/-- The shell that this host leaves. -/
def pried : Shell Unit :=
  ((serve pry).exec (configured {} ())).2

/-- All parameters are of supported types, and a call fails all the same because a type is not: a
    conversion says so, or the command asks for a type that no parameter has. -/
theorem unsupported_made_up :
    (Reachable Policy.unrestricted {} () disowned ∧ disowned.ParamsSupported ∧
      ((dispatch evalBlock ⟨"paint", [⟨"red", .literal⟩]⟩).exec disowned).1 =
        .error (.unsupportedType "paint" "colour" "colour")) ∧
    Reachable Policy.unrestricted {} () pried ∧ pried.ParamsSupported ∧
      ((dispatch evalBlock ⟨"peek", [⟨"red", .literal⟩]⟩).exec pried).1 =
        .error (.unsupportedType "peek" "colour" "colour") := by
  have hreachable (program : Action Unit) :
      Reachable Policy.unrestricted {} () ((serve program).exec (configured {} ())).2 :=
    ⟨program, Action.obeys_unrestricted program, mem_visits.mpr (.inr (.inr rfl))⟩
  refine ⟨⟨hreachable disown, (hreachable disown).paramsSupported, ?_⟩,
    hreachable pry, (hreachable pry).paramsSupported, ?_⟩
  · decide +kernel
  · decide +kernel

end Shell
end CommandShell
