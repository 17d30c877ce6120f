import CommandShell.Proofs.Evaluation.Contract

/-!
# `CommandShell.Proofs.Evaluation.Arguments` — contracts while texts become arguments

The first half of the induction that `CommandShell.Proofs.Evaluation.Contract` announces: granted that
the evaluator of the next level meets a lawful contract, so do sub-evaluations, the tokens of a
statement, conversions and parameters.

## Contents
- `Contract.Reaches` and `Contract.Holds` of runs put together, and `Contract.Meets.bind`.
- `Contract.Lawful.subEvaluate`, `.resolveTokens`, `.parse`, `.fetch` and `.fetchFrom`.
- `Contract.Lawful.forall₂_fetched`, the values that a call gets.
-/

namespace CommandShell
namespace Contract

open Eval

variable {σ α β : Type} {C : Contract σ} {L : Shell σ → Prop} {nested : String → Eval σ Unit}

/-! ## Putting runs together -/

/-- Only calls need a frame. -/
theorem framed_of_none (s : Shell σ) : (⟨s, none⟩ : Moment σ).Framed := by
  intro c h
  cases h

theorem Reaches.refl {s : Shell σ} (hs : C.inv s) : C.Reaches s [] s :=
  ⟨.refl s, hs, by simp⟩

theorem Reaches.trans {s t u : Shell σ} {tr tr' : List (Moment σ)} (h : C.Reaches s tr t)
    (h' : C.Reaches t tr' u) : C.Reaches s (tr ++ tr') u := by
  refine ⟨h.level.trans h'.level, h'.inv, ?_⟩
  intro m hm
  exact (List.mem_append.mp hm).elim (h.moments m) (h'.moments m)

/-- One more moment, which leaves the level as it is. -/
theorem Reaches.snoc {s t u : Shell σ} {tr : List (Moment σ)} {n? : Option (Note σ)}
    (h : C.Reaches s tr t) (hs : s.Bounded) (hl : t.SameLevel u) (hu : C.inv u)
    (hn : (⟨u, n?⟩ : Moment σ).Framed) : C.Reaches s (tr ++ [⟨u, n?⟩]) u := by
  refine h.trans ⟨hl, hu, ?_⟩
  intro m hm
  cases List.mem_singleton.mp hm
  exact ⟨hu, (h.level.trans hl).bounded hs, hn⟩

theorem Holds.refl (hC : C.Lawful) {s : Shell σ} (hs : C.inv s) : C.Holds s [] none s :=
  ⟨.refl hs, hC.nil hs⟩

/-- A part that succeeds and another one behind it keep the contract together. -/
theorem Holds.trans (hC : C.Lawful) {s t u : Shell σ} {tr tr' : List (Moment σ)}
    {e? : Option ShellError} (h : C.Holds s tr none t) (h' : C.Holds t tr' e? u) :
    C.Holds s (tr ++ tr') e? u :=
  ⟨h.toReaches.trans h'.toReaches, hC.trans h.rel h'.rel⟩

/-- A failure that nobody has reported may be added at the end. -/
theorem Holds.fail (hC : C.Lawful) {s t : Shell σ} {tr : List (Moment σ)} {e : ShellError}
    (he : e ≠ .aborted) (h : C.Holds s tr none t) : C.Holds s tr (some e) t :=
  ⟨h.toReaches, hC.fail he h.rel⟩

/-! ## Putting evaluations together -/

theorem Meets.pure (hC : C.Lawful) (a : α) : C.Meets L (pure a : Eval σ α) := by
  intro s tr r t _ hi h
  obtain ⟨rfl, rfl, rfl⟩ := runs_pure.mp h
  exact .refl hC hi

/-- A failure that has still to be reported. -/
theorem Meets.throw (hC : C.Lawful) {e : ShellError} (he : e ≠ .aborted) :
    C.Meets L (throw e : Eval σ α) := by
  intro s tr r t _ hi h
  obtain ⟨rfl, rfl, rfl⟩ := runs_throw.mp h
  exact (Holds.refl hC hi).fail hC he

/-- The second part begins at the level of the first one, so it may nest evaluations as that may. -/
theorem Meets.bind (hC : C.Lawful) (hL : Nestable L) {x : Eval σ α} {f : α → Eval σ β}
    (hx : C.Meets L x) (hf : ∀ a, C.Meets L (f a)) : C.Meets L (x >>= f) := by
  intro s tr r t hs hi h
  rcases runs_bind.mp h with ⟨tr₁, a, u, tr₂, hrun, hrest, rfl⟩ | ⟨e, hrun, rfl⟩
  · have hu := hx hs hi hrun
    exact hu.trans hC (hf a (hL.sameLevel hs hu.level) hu.inv hrest)
  · exact hx hs hi hrun

/-- A contract that is met at some levels is met at fewer ones. -/
theorem Meets.mono {L' : Shell σ → Prop} {x : Eval σ α} (h : ∀ {s}, L' s → L s)
    (hx : C.Meets L x) : C.Meets L' x :=
  fun _ _ _ _ hs hi hrun => hx (h hs) hi hrun

/-! ## Sub-evaluations and tokens -/

section Nested

variable (hC : C.Lawful) (hL : Nestable L) (hnested : ∀ text, C.Meets L (nested text))
include hC hL hnested

/-- The expression is evaluated, and then a line may be taken. -/
theorem Lawful.subEvaluate (expression : String) : C.Meets L (Eval.subEvaluate nested expression) := by
  intro s tr r t hs hi h
  rw [Eval.subEvaluate, runs_get_bind] at h
  rcases runs_bind.mp h with ⟨tr₁, _, u, tr₂, hrun, hrest, rfl⟩ | ⟨e, hrun, rfl⟩
  · have hu := hnested expression hs hi hrun
    have hvoid : C.Holds s tr₁ (some (.voidReturn expression)) u := hu.fail hC (by simp)
    rw [runs_get_bind] at hrest
    by_cases hsame : u.output.emitted = s.output.emitted
    · -- Nothing was written, so nothing is taken.
      rw [if_pos hsame] at hrest
      obtain ⟨rfl, rfl, rfl⟩ := runs_throw.mp hrest
      simpa using hvoid
    · -- Something was written, but all of it may have been taken again.
      rw [if_neg hsame] at hrest
      obtain ⟨hempty, hline⟩ := hC.take expression hu.inv hu.rel
      have hnote : C.Reaches s (tr₁ ++ [⟨u, some (.take expression s)⟩]) u :=
        hu.snoc (hL.bounded hs) (.refl u) hu.inv (by intro c hc; cases hc)
      obtain ⟨tr₃, hpopped, rfl⟩ := runs_note_bind.mp hrest
      rcases hpop : u.popLast? with ⟨_ | line, v⟩
      · rw [hpop] at hpopped
        obtain ⟨rfl, rfl, rfl⟩ := runs_throw.mp hpopped
        exact Holds.fail hC (by simp) ⟨hnote, hempty (by rw [hpop])⟩
      · rw [hpop] at hpopped
        obtain ⟨tr₄, hend, rfl⟩ := runs_set_bind.mp hpopped
        obtain ⟨rfl, rfl, rfl⟩ := runs_pure.mp hend
        have hrel := hline line (by rw [hpop])
        have hinv : C.inv u.popLast?.2 := hC.inv_congr hu.inv u.sameSetup_popLast
        have hlast := hnote.snoc (hL.bounded hs) u.sameLevel_popLast hinv (framed_of_none _)
        simpa [hpop] using Holds.mk hlast (by simpa using hrel)
  · exact hnested expression hs hi hrun

theorem Lawful.resolveToken (token : Token) : C.Meets L (Eval.resolveToken nested token) := by
  unfold Eval.resolveToken
  split
  · have hsub := hC.subEvaluate hL hnested token.text
    exact hsub.bind hC hL fun text => .pure hC _
  · exact .pure hC _
  · exact .pure hC _

/-- The tokens of a statement, by induction on their list. -/
theorem Lawful.resolveTokens (tokens : List Token) :
    C.Meets L (tokens.mapM (Eval.resolveToken nested)) := by
  induction tokens with
  | nil =>
      rw [List.mapM_nil]
      exact .pure hC _
  | cons token tokens ih =>
      rw [List.mapM_cons]
      have hfirst := hC.resolveToken hL hnested token
      apply hfirst.bind hC hL
      intro argument
      exact ih.bind hC hL fun arguments => .pure hC _

/-! ## Conversions -/

/-- A conversion that the contract admits keeps it when the shell answers its requests. The induction is
    on the requests; the contract is carried as what the moments so far have kept. -/
theorem Lawful.parse {p : Parse α} {s t u : Shell σ} (tr : List (Moment σ)) {tr' : List (Moment σ)}
    {r : Except ShellError (Except ParseFailure α)} (hs : L s)
    (hbefore : C.Reaches s tr t)
    (hp : C.AdmitsParse s p tr t)
    (h : (p.run fun expression => attempt (Eval.subEvaluate nested expression)).Runs t tr' r u) :
    ∃ result, r = .ok result ∧ C.Holds s (tr ++ tr') (resolutionOf result) u := by
  induction p generalizing t tr tr' with
  | done result =>
      obtain ⟨rfl, rfl, rfl⟩ := runs_pure.mp h
      rw [List.append_nil]
      exact ⟨result, rfl, hbefore, hp⟩
  | resolve expression next ih =>
      obtain ⟨tr₁, answer, v, tr₂, hsub, hrest, rfl⟩ := runs_attempt_bind.mp h
      have hLt := hL.sameLevel hs hbefore.level
      have hv := hC.subEvaluate hL hnested expression hLt hbefore.inv hsub
      -- A failure is an answer as well: it is for the conversion to say what follows.
      obtain ⟨result, rfl, hres⟩ :=
        ih answer (tr ++ tr₁) (hbefore.trans hv.toReaches) (hp answer tr₁ v hv) hrest
      exact ⟨result, rfl, by simpa using hres⟩

/-- The conversion of a text with the table of the shell. -/
theorem Lawful.convert {type : ValueType} {text : String} {s t : Shell σ} {tr : List (Moment σ)}
    {r : Except ShellError (Except ParseFailure Value)} (hs : L s) (hi : C.inv s)
    (h : (Eval.convert nested (s.types.parse type text)).Runs s tr r t) :
    ∃ result, r = .ok result ∧ C.Holds s tr (resolutionOf result) t := by
  refine hC.parse hL hnested [] hs (.refl hi) ?_ h
  unfold Conversions.parse
  split
  · next parser hparser => exact hC.conversions text hi hparser
  · exact hC.nil hi

/-! ## Parameters -/

omit hC hL hnested in
theorem argumentFailure_ne_aborted {frame : Frame} {index : Nat} {param : Param} {origin : Origin}
    {f : ParseFailure} (hf : ∀ e, f ≠ .resolution e) :
    Eval.argumentFailure frame index param origin f ≠ .aborted := by
  unfold Eval.argumentFailure
  split
  · next e => exact absurd rfl (hf e)
  · split <;> simp

omit hL hnested in
/-- The failure of a call for its argument stands for the failure of the conversion: one that has been
    reported stays as it is. -/
theorem Holds.argumentFailure {s t : Shell σ} {tr : List (Moment σ)} {f : ParseFailure}
    (frame : Frame) (index : Nat) (param : Param) (origin : Origin)
    (h : C.Holds s tr (resolutionOf (.error f : Except ParseFailure α)) t) :
    C.Holds s tr (some (Eval.argumentFailure frame index param origin f)) t := by
  cases f with
  | resolution e => exact h
  | invalid | components | element | notSingle | returned | unsupported =>
      exact Holds.fail hC (argumentFailure_ne_aborted (by simp)) h

/-- An argument is converted with what the table has for its parameter. -/
theorem Lawful.fetch (index : Nat) (param : Param) : C.Meets L (Eval.fetch nested index param) := by
  intro s tr r t hs hi h
  have hstay {e : ShellError} (he : e ≠ .aborted) : C.Holds s [] (some e) s :=
    (Holds.refl hC hi).fail hC he
  rw [Eval.fetch, runs_get_bind] at h
  rcases runs_lift_bind.mp h with ⟨frame, -, hrest⟩ | ⟨e, he, rfl, rfl, rfl⟩
  · split at hrest
    · -- Without an argument no text is converted, and nothing is evaluated.
      obtain ⟨rfl, rfl, rfl⟩ := runs_lift.mp hrest
      unfold Eval.missing
      split
      · exact .refl hC hi
      · split
        · exact .refl hC hi
        · exact hstay (by simp)
    · next argument _ =>
      split at hrest
      · obtain ⟨rfl, rfl, rfl⟩ := runs_throw.mp hrest
        exact hstay (by simp)
      · next parser hparser =>
        have hp := hC.conversions argument.text hi hparser
        have hconvert {tr r u} (hrun : (Eval.convert nested (parser argument.text)).Runs s tr r u) :
            ∃ result, r = .ok result ∧ C.Holds s tr (resolutionOf result) u :=
          hC.parse hL hnested [] hs (.refl hi) hp hrun
        rcases runs_bind.mp hrest with ⟨tr₁, result, u, tr₂, hrun, hend, rfl⟩ | ⟨e, hrun, -⟩
        · obtain ⟨_, hres, hu⟩ := hconvert hrun
          cases hres
          -- The failure of a nested evaluation is passed on; any other one becomes that of the call.
          cases result with
          | ok v =>
              obtain ⟨rfl, rfl, rfl⟩ := runs_pure.mp hend
              simpa [resolutionOf] using hu
          | error f =>
              obtain ⟨rfl, rfl, rfl⟩ := runs_throw.mp hend
              simpa using hu.argumentFailure hC frame index param argument.origin
        · obtain ⟨_, hres, -⟩ := hconvert hrun
          cases hres
  · have : e = .noFrame := by
      unfold CallStack.current at he
      split at he <;> cases he
      rfl
    exact hstay (by simp [this])

/-- The arguments, by induction on the parameters that are left. -/
theorem Lawful.fetchFrom (index : Nat) (params : List Param) :
    C.Meets L (Eval.fetchFrom nested index params) := by
  induction params generalizing index with
  | nil => exact .pure hC _
  | cons param params ih =>
      have hfirst := hC.fetch hL hnested index param
      apply hfirst.bind hC hL
      intro v
      exact (ih (index + 1)).bind hC hL fun vs => .pure hC _

/-- The values of a call are those of its parameters. -/
theorem Lawful.forall₂_fetched {index : Nat} {params : List Param} {vs : List Value} {s t : Shell σ}
    {tr : List (Moment σ)} (hs : L s) (hi : C.inv s)
    (h : (Eval.fetchFrom nested index params).Runs s tr (.ok vs) t) :
    List.Forall₂ C.Fetched params vs := by
  induction params generalizing index vs s tr t with
  | nil =>
      cases (runs_pure.mp h).2.1
      exact .nil
  | cons param params ih =>
      rcases runs_bind.mp h with ⟨tr₁, v, u, tr₂, hfirst, hrest, -⟩ | ⟨e, -, he⟩
      · have hu := hC.fetch hL hnested index param hs hi hfirst
        rcases runs_bind.mp hrest with ⟨tr₃, rest, w, tr₄, hothers, hend, -⟩ | ⟨e, -, he⟩
        · cases (runs_pure.mp hend).2.1
          exact .cons ⟨nested, index, s, tr₁, u, hi, hfirst⟩
            (ih (hL.sameLevel hs hu.level) hu.inv hothers)
        · cases he
      · cases he

end Nested

end Contract
end CommandShell
