import CommandShell.Proofs.Evaluation.Calls
import CommandShell.Proofs.Registrations

/-!
# `CommandShell.Proofs.Evaluation.Reachable` — the states that a host can bring about

A host drives its shell by the very requests that a command makes, so a host is an action that is carried
out on the shell its configuration describes (`Shell.serve`). Every state on the way counts as reachable,
also one in the middle of an evaluation: there a command may be about to evaluate a text of its own.

What a host and its commands may declare is a `Policy`. Bindings and conversions that were declared
within a policy are all that a reachable shell has (`Shell.Reachable.obeys`), whatever is evaluated.

## Contents
- `Policy`, with `Action.Obeys` and `Shell.Obeys`, and `Policy.Closed`.
- `Action.Hereditary`, the properties of commands that make them obey a policy.
- `Shell.serve` and `Shell.Reachable`.
- `Policy.contract`, contracts whose invariant is the policy, with `Policy.admits_contract`, and
  `Policy.Closed.lawful_keeping`.
- `Shell.Reachable.obeys` and `Shell.reachable_start`.
-/

namespace CommandShell

open Eval

variable {σ : Type}

/-! ## Policies -/

/-- Which bindings may be registered, and which conversions besides the built-in ones. -/
structure Policy (σ : Type) where
  binding : Binding σ → Prop
  conversion : ValueType → Parser → Prop := fun _ _ => True

/-- Whatever the shell answers, the action registers what the policy allows and nothing else. -/
def Action.Obeys (P : Policy σ) : Action σ → Prop
  | .done _ => True
  | .inspect next => ∀ s : Shell σ, (next s.view).Obeys P
  | .update _ next => next.Obeys P
  | .emit _ next => next.Obeys P
  | .popLast next => ∀ line?, (next line?).Obeys P
  | .drain next => ∀ lines, (next lines).Obeys P
  | .evalBlock _ next => ∀ r, (next r).Obeys P
  | .resolve _ next => ∀ r, (next r).Obeys P
  | .fetch _ _ next => ∀ r, (next r).Obeys P
  | .convert _ _ next => ∀ r, (next r).Obeys P
  | .bind _ profile body next => P.binding ⟨profile, body⟩ ∧
      ∀ r, r ≠ .error .aborted → (next r).Obeys P
  | .unbind _ next => ∀ profile?, (next profile?).Obeys P
  | .registerType type parser next => P.conversion type parser ∧ next.Obeys P

/-- A property of commands that makes them register what the policy allows, and that they hand on: when a
    command with it makes a request, whatever follows has it too, or is the end. Most such properties are
    defined request by request in this very form, so an instance says what is special about them. -/
structure Action.Hereditary (P : Policy σ) (Q : Action σ → Prop) : Prop where
  inspect : ∀ {next : View σ → Action σ}, Q (.inspect next) → ∀ s : Shell σ, Q (next s.view) := by
    exact fun h => h
  update : ∀ {change next}, Q (.update change next) → Q next := by exact fun h => h
  emit : ∀ {line next}, Q (.emit line next) → Q next := by exact fun h => h
  popLast : ∀ {next}, Q (.popLast next) → ∀ line?, Q (next line?) := by exact fun h => h
  drain : ∀ {next}, Q (.drain next) → ∀ lines, Q (next lines) := by exact fun h => h
  evalBlock : ∀ {text next}, Q (.evalBlock text next) →
    ∀ r, Q (next r) ∨ ∃ result, next r = .done result := by exact fun h r => .inl (h r)
  resolve : ∀ {expression next}, Q (.resolve expression next) →
    ∀ r, Q (next r) ∨ ∃ result, next r = .done result := by exact fun h r => .inl (h r)
  fetch : ∀ {index param next}, Q (.fetch index param next) →
    ∀ r, Q (next r) ∨ ∃ result, next r = .done result := by exact fun h r => .inl (h r)
  convert : ∀ {type text next}, Q (.convert type text next) →
    ∀ r, Q (next r) ∨ ∃ result, next r = .done result := by exact fun h r => .inl (h r)
  bind : ∀ {name profile body next}, Q (.bind name profile body next) →
    P.binding ⟨profile, body⟩ ∧ ∀ r, r ≠ .error .aborted → Q (next r)
  unbind : ∀ {name next}, Q (.unbind name next) → ∀ profile?, Q (next profile?) := by exact fun h => h
  registerType : ∀ {type parser next}, Q (.registerType type parser next) →
    P.conversion type parser ∧ Q next

/-- The one induction behind all policies: a command with such a property obeys the policy. -/
theorem Action.Hereditary.obeys {P : Policy σ} {Q : Action σ → Prop} (hQ : Action.Hereditary P Q)
    {a : Action σ} (h : Q a) : a.Obeys P := by
  have hnext {ρ : Type} {next : ρ → Action σ} (ih : ∀ r, Q (next r) → (next r).Obeys P)
      (h : ∀ r, Q (next r) ∨ ∃ result, next r = .done result) (r : ρ) : (next r).Obeys P := by
    rcases h r with h | ⟨result, hend⟩
    · exact ih r h
    · rw [hend]
      trivial
  induction a with
  | done result => trivial
  | inspect next ih => exact fun s => ih _ (hQ.inspect h s)
  | update change next ih => exact ih (hQ.update h)
  | emit line next ih => exact ih (hQ.emit h)
  | popLast next ih => exact fun line? => ih _ (hQ.popLast h line?)
  | drain next ih => exact fun lines => ih _ (hQ.drain h lines)
  | evalBlock text next ih => exact hnext ih (hQ.evalBlock h)
  | resolve expression next ih => exact hnext ih (hQ.resolve h)
  | fetch index param next ih => exact hnext ih (hQ.fetch h)
  | convert type text next ih => exact hnext ih (hQ.convert h)
  | bind name profile body next _ ih => exact ⟨(hQ.bind h).1, fun r hr => ih r ((hQ.bind h).2 r hr)⟩
  | unbind name next ih => exact fun profile? => ih _ (hQ.unbind h profile?)
  | registerType type parser next ih => exact ⟨(hQ.registerType h).1, ih (hQ.registerType h).2⟩

/-- The shell has what the policy allows, under names that can be looked up, and the channel that its
    configuration asks for. -/
structure Shell.Obeys (P : Policy σ) (s : Shell σ) : Prop where
  keys : ∀ {key : String} {b : Binding σ}, s.registry.bindings[key]? = some b → Registry.IsKey key
  bindings : ∀ {key : String} {b : Binding σ}, s.registry.bindings[key]? = some b → P.binding b
  conversions : ∀ entry ∈ s.types.entries,
    entry ∈ Conversions.standard.entries ∨ P.conversion entry.1 entry.2
  text : s.types.supports .text = true
  capacity : s.output.capacity = s.config.maxOutputLines

/-- The policy allows the built-in commands, and what it allows keeps to it when it is called. -/
structure Policy.Closed (P : Policy σ) : Prop where
  bodies : ∀ {b}, P.binding b → ∀ args, (b.run args).Obeys P
  builtins : ∀ c ∈ Builtin.all, P.binding c.toBinding
  aliases : ∀ target, P.binding (.ofAlias target)

/-! ## What each operation does to the bindings -/

namespace Shell

variable {P : Policy σ} {s t : Shell σ}

theorem bind_of_accepts (s : Shell σ) {name : String} {b : Binding σ}
    (h : Registry.Accepts s.types name b) :
    s.bind name b = .ok { s with registry := ⟨s.registry.bindings.insert (Registry.keyOf name) b⟩ } := by
  rw [Shell.bind, Registry.register_of_accepts s.registry h]

/-- The shell refuses what its registry refuses, and for the same reason. -/
theorem bind_eq_error_iff {name : String} {b : Binding σ} {e : ShellError} :
    s.bind name b = .error e ↔ (s.registry.register s.types name b).1 = .error e := by
  unfold Shell.bind
  rcases s.registry.register s.types name b with ⟨_ | _, _⟩
  · simp
  · simp

/-- A name is bound unless it cannot be kept or a parameter cannot be converted. -/
theorem bind_eq_ok_iff {name : String} {b : Binding σ} :
    s.bind name b = .ok t ↔ Registry.IsKey (Registry.keyOf name) ∧
      (∀ p ∈ b.profile.params, s.types.supports p.type = true) ∧
      t = { s with registry := ⟨s.registry.bindings.insert (Registry.keyOf name) b⟩ } := by
  constructor
  · intro h
    have haccepts : Registry.Accepts s.types name b := by
      by_contra hrefused
      obtain ⟨e, he⟩ := (Registry.exists_error_iff (r := s.registry)).mpr hrefused
      rw [bind_eq_error_iff.mpr he] at h
      cases h
    rw [s.bind_of_accepts haccepts] at h
    cases h
    exact ⟨haccepts.1, haccepts.2, rfl⟩
  · rintro ⟨hkey, hparams, rfl⟩
    exact s.bind_of_accepts ⟨hkey, hparams⟩

theorem bind_eq {name : String} {b : Binding σ} (h : s.bind name b = .ok t) :
    t = { s with registry := ⟨s.registry.bindings.insert (Registry.keyOf name) b⟩ } :=
  (bind_eq_ok_iff.mp h).2.2

/-- A name is refused for what it is, or for a parameter that cannot be converted. -/
theorem error_of_bind {name : String} {b : Binding σ} {e : ShellError} (h : s.bind name b = .error e) :
    e = .command ("invalid binding name: '" ++ name ++ "'") ∨
      ∃ p ∈ b.profile.params, e = .unsupportedType (Registry.keyOf name) p.name p.type.name := by
  rcases Registry.register_eq_error_iff.mp (bind_eq_error_iff.mp h) with ⟨-, rfl⟩ | ⟨-, p, hp, rfl⟩
  · exact .inl rfl
  · exact .inr ⟨p, List.mem_of_find?_eq_some hp, rfl⟩

theorem bind_ne_aborted {name : String} {b : Binding σ} {e : ShellError}
    (h : s.bind name b = .error e) : e ≠ .aborted := by
  rcases error_of_bind h with rfl | ⟨p, -, rfl⟩
  · simp
  · simp

theorem Obeys.congr (h : s.Obeys P) (hst : s.SameSetup t) : t.Obeys P where
  keys := by
    rw [hst.registry]
    exact h.keys
  bindings := by
    rw [hst.registry]
    exact h.bindings
  conversions := by
    rw [hst.types]
    exact h.conversions
  text := by
    rw [hst.types]
    exact h.text
  capacity := by
    rw [hst.capacity, hst.config]
    exact h.capacity

theorem Obeys.bind {name : String} {b : Binding σ} (h : s.Obeys P) (hb : P.binding b)
    (ht : s.bind name b = .ok t) : t.Obeys P := by
  obtain ⟨hkey, -, rfl⟩ := bind_eq_ok_iff.mp ht
  refine ⟨?_, ?_, h.conversions, h.text, h.capacity⟩
  -- What is found under a key is the new binding or one that was there before.
  · intro key b' hb'
    rw [Dictionary.getElem?_insert] at hb'
    split at hb'
    · next heq =>
      rw [← heq]
      exact hkey
    · exact h.keys hb'
  · intro key b' hb'
    rw [Dictionary.getElem?_insert] at hb'
    split at hb'
    · cases hb'
      exact hb
    · exact h.bindings hb'

/-- A binding that is left when a name has been removed was there before. -/
theorem getElem?_unbind {name key : String} {b : Binding σ}
    (h : (s.unbind name).registry.bindings[key]? = some b) : s.registry.bindings[key]? = some b := by
  simp only [Shell.unbind, Registry.remove, Dictionary.getElem?_erase] at h
  split at h
  · cases h
  · exact h

theorem Obeys.unbind (h : s.Obeys P) (name : String) : (s.unbind name).Obeys P where
  keys hb := h.keys (getElem?_unbind hb)
  bindings hb := h.bindings (getElem?_unbind hb)
  conversions := h.conversions
  text := h.text
  capacity := h.capacity

theorem supports_text (table : Conversions) :
    table.supports .text = (table.entries.lookup .text).isSome := by
  simp only [Conversions.supports, Conversions.parserFor?, Conversions.registered?]
  cases table.entries.lookup .text <;> rfl

theorem Obeys.registerType {type : ValueType} {parser : Parser} (h : s.Obeys P)
    (hp : P.conversion type parser) : (s.registerType type parser).Obeys P where
  keys := h.keys
  bindings := h.bindings
  conversions := by
    intro entry hentry
    rcases List.mem_cons.mp hentry with rfl | hentry
    · exact .inr hp
    · exact h.conversions entry hentry
  text := by
    -- A conversion that is registered for texts takes the place of the one before.
    have htext := h.text
    rw [supports_text] at htext ⊢
    simp only [Shell.registerType, Conversions.register, List.lookup_cons]
    split
    · rfl
    · exact htext
  capacity := h.capacity

/-- What no refusal and no new binding destroys holds when all names have been bound. -/
theorem bindAll_induction {M : Shell σ → Prop} {refused : Shell σ → ShellError → Shell σ}
    {bindings : List (String × Binding σ)} (hrefused : ∀ {s e}, M s → M (refused s e))
    (hbind : ∀ entry ∈ bindings, ∀ {s t}, M s → s.bind entry.1 entry.2 = .ok t → M t) (h : M s) :
    M (s.bindAll refused bindings) := by
  unfold Shell.bindAll
  induction bindings generalizing s with
  | nil => exact h
  | cons entry bindings ih =>
      rw [List.foldl_cons]
      apply ih (fun entry' he => hbind entry' (List.mem_cons_of_mem _ he))
      split
      · next s' hs' => exact hbind entry List.mem_cons_self h hs'
      · exact hrefused h

theorem obeys_configured (hP : P.Closed) (config : Config) (host : σ) :
    (configured config host).Obeys P := by
  have hempty : (empty config host).Obeys P := by
    refine ⟨?_, ?_, ?_, rfl, rfl⟩
    · intro key b hb
      simp [empty] at hb
    · intro key b hb
      simp [empty] at hb
    · intro entry hentry
      exact .inl hentry
  unfold configured
  refine bindAll_induction (fun h => h.congr (sameSetup_report _ _)) ?_ ?_
  · intro entry hentry s t hs ht
    obtain ⟨pair, -, rfl⟩ := List.mem_map.mp hentry
    exact hs.bind (hP.aliases pair.2) ht
  · refine bindAll_induction (fun h => h) ?_ hempty
    intro entry hentry s t hs ht
    split at hentry
    · obtain ⟨c, hc, rfl⟩ := List.mem_map.mp hentry
      exact hs.bind (hP.builtins c hc) ht
    · cases hentry

/-- The operations of the construction keep to the level of the empty shell. -/
theorem sameLevel_configured (config : Config) (host : σ) :
    (empty config host).SameLevel (configured config host) := by
  unfold configured
  refine bindAll_induction (fun h => h.trans (sameLevel_report _ _)) ?_ ?_
  · intro _ _ s t hs ht
    exact hs.trans (sameLevel_bind ht)
  · refine bindAll_induction (fun h => h) ?_ (.refl _)
    intro _ _ s t hs ht
    exact hs.trans (sameLevel_bind ht)

theorem bounded_configured (config : Config) (host : σ) : (configured config host).Bounded :=
  (sameLevel_configured config host).bounded ⟨Nat.le_refl 0, Nat.zero_le _⟩

end Shell

/-! ## Hosts -/

/-- A host at work on its shell. -/
def Shell.serve (program : Action σ) : Eval σ (Option Value) :=
  Eval.perform Shell.evalBlock program

/-- The state occurs while a host that keeps to the policy drives the shell of a configuration. -/
def Shell.Reachable (P : Policy σ) (config : Config) (host : σ) (s : Shell σ) : Prop :=
  ∃ program, program.Obeys P ∧ s ∈ (Shell.serve program).visits (Shell.configured config host)

/-! ## Keeping to a policy -/

/-- The contract with a relation of runs whose invariant is the policy. -/
def Policy.contract (P : Policy σ)
    (rel : Shell σ → List (Moment σ) → Option ShellError → Shell σ → Prop) : Contract σ where
  fit := P.binding
  inv s := s.Obeys P
  rel := rel

/-- The contract that says nothing of a run but that the policy is kept. -/
def Policy.keeping (P : Policy σ) : Contract σ :=
  P.contract fun _ _ _ _ => True

namespace Policy

variable {P : Policy σ}

section Relation

variable {rel : Shell σ → List (Moment σ) → Option ShellError → Shell σ → Prop} {s t : Shell σ}
  {tr : List (Moment σ)}

/-- A relation that goes on through every nested evaluation, however it ends, is kept by every
    conversion. -/
theorem admitsParse_contract {α : Type}
    (hjoin : ∀ {s t u tr tr' e?}, rel s tr none t → rel t tr' e? u → rel s (tr ++ tr') none u)
    (hend : ∀ {s t tr e?}, rel s tr none t → rel s tr e? t) (p : Parse α) (h : rel s tr none t) :
    (P.contract rel).AdmitsParse s p tr t := by
  induction p generalizing t tr with
  | done result => exact hend h
  | resolve expression next ih =>
      intro r tr' u hu
      exact ih r (hjoin h hu.rel)

/-- If it also goes on through every change of the shell, it is kept by every action that obeys the
    policy. -/
theorem admits_contract
    (hstep : ∀ {s t u tr}, rel s tr none t → rel s (tr ++ [⟨u, none⟩]) none u)
    (hjoin : ∀ {s t u tr tr' e?}, rel s tr none t → rel t tr' e? u → rel s (tr ++ tr') none u)
    (hend : ∀ {s t tr e?}, rel s tr none t → rel s tr e? t) {a : Action σ} (ha : a.Obeys P)
    (ht : t.Obeys P) (h : rel s tr none t) : (P.contract rel).Admits s a tr t := by
  induction a generalizing t tr with
  | done result => exact hend h
  | inspect next ih => exact ih _ (ha _) ht h
  | update change next ih => exact ih ha (ht.congr (t.sameSetup_update change)) (hstep h)
  | emit line next ih => exact ih ha (ht.congr (t.sameSetup_emit line)) (hstep h)
  | popLast next ih => exact ih _ (ha _) (ht.congr t.sameSetup_popLast) (hstep h)
  | drain next ih => exact ih _ (ha _) (ht.congr t.sameSetup_drain) (hstep h)
  | evalBlock text next ih | resolve expression next ih =>
      intro r tr' u hu
      exact ih r (ha r) hu.inv (hjoin h hu.rel)
  | fetch index param next ih =>
      intro r tr' u hu
      exact ih r (ha r) hu.inv (hjoin h hu.rel)
  | convert type text next ih =>
      intro r tr' u hu
      exact ih r (ha r) hu.inv (hjoin h hu.rel)
  | bind name profile body next _ ih =>
      refine ⟨?_, ?_⟩
      · intro u hu
        have hobeys := ht.bind ha.1 hu
        exact ⟨hobeys, ih _ (ha.2 _ (by simp)) hobeys (hstep h)⟩
      · intro e he
        exact ih _ (ha.2 _ (by simpa using Shell.bind_ne_aborted he)) ht h
  | unbind name next ih => exact ⟨ht.unbind name, ih _ (ha _) (ht.unbind name) (hstep h)⟩
  | registerType type parser next ih =>
      have hobeys := ht.registerType ha.1
      exact ⟨hobeys, ih ha.2 hobeys (hstep h)⟩

end Relation

theorem admits_keeping {a : Action σ} (ha : a.Obeys P) {s t : Shell σ} {tr : List (Moment σ)}
    (ht : t.Obeys P) : P.keeping.Admits s a tr t :=
  admits_contract (fun _ => trivial) (fun _ _ => trivial) (fun _ => trivial) ha ht trivial

theorem fit_of_lookup {s : Shell σ} {name : String} {b : Binding σ} (hs : s.Obeys P)
    (hb : s.registry.lookup? name = some b) : P.binding b :=
  hs.bindings hb

theorem Closed.lawful_keeping (hP : P.Closed) : P.keeping.Lawful where
  inv_congr := Shell.Obeys.congr
  fit_of_lookup := fit_of_lookup
  nil _ := trivial
  trans _ _ := trivial
  fail _ _ := trivial
  report _ _ := trivial
  enclose _ := trivial
  answer _ := trivial
  expire hs _ _ := ⟨hs.unbind _, trivial⟩
  take _ _ _ := ⟨fun _ => trivial, fun _ _ => trivial⟩
  conversions _ _ _ := admitsParse_contract (fun _ _ => trivial) (fun _ => trivial) _ trivial
  calls hs hfit _ _ := admits_keeping (hP.bodies hfit _) hs

end Policy

/-! ## Reachable states -/

namespace Shell

variable {P : Policy σ} {config : Config} {host : σ} {s : Shell σ}

/-- Every moment of a host at work keeps to the policy and to the bounds. -/
theorem holds_serve (config : Config) (host : σ) (hP : P.Closed) {program : Action σ} (h : program.Obeys P) :
    P.keeping.Holds (configured config host) ((serve program).trace (configured config host))
      (failureOf ((serve program).exec (configured config host)).1)
      ((serve program).exec (configured config host)).2 := by
  have hstart := obeys_configured hP config host
  exact hP.lawful_keeping.perform Contract.nestable_bounded hP.lawful_keeping.evalBlock []
    (bounded_configured config host) (.refl hstart) (Policy.admits_keeping h hstart) (runs_self _ _)

theorem Reachable.obeys (hP : P.Closed) (h : Reachable P config host s) :
    s.Obeys P ∧ s.Bounded := by
  obtain ⟨program, hprogram, hs⟩ := h
  have hserve := holds_serve config host hP hprogram
  rcases mem_visits.mp hs with rfl | ⟨m, hm, rfl⟩ | rfl
  · exact ⟨obeys_configured hP config host, bounded_configured config host⟩
  · obtain ⟨hobeys, hbounded, -⟩ := hserve.moments m hm
    exact ⟨hobeys, hbounded⟩
  · exact ⟨hserve.inv, hserve.level.bounded (bounded_configured config host)⟩

end Shell

/-! ## Starting up -/

/-- The shell after a submitted line has been shown, where the configuration asks for it. -/
def Shell.shown (s : Shell σ) (text : String) : Shell σ :=
  if s.config.echoInput && s.depth == 0 then s.emit .input text else s

theorem Shell.run_eval (s : Shell σ) (text : String) :
    (eval text).run s =
      (((evalBlock text).exec (s.shown text)).1.toBool, ((evalBlock text).exec (s.shown text)).2) :=
  rfl

/-- A line that is not shown is evaluated in the state as it is. -/
theorem Shell.shown_eq_self {s : Shell σ} (hecho : s.config.echoInput = false) (text : String) :
    s.shown text = s := by
  rw [shown, hecho, Bool.false_and]
  exact if_neg Bool.false_ne_true

theorem Shell.sameLevel_shown (s : Shell σ) (text : String) : s.SameLevel (s.shown text) := by
  unfold Shell.shown
  split
  · exact ⟨rfl, rfl, rfl⟩
  · exact .refl s

theorem Shell.sameSetup_shown (s : Shell σ) (text : String) : s.SameSetup (s.shown text) := by
  unfold Shell.shown
  split
  · exact s.sameSetup_emit _
  · exact ⟨rfl, rfl, rfl, rfl⟩

theorem Shell.Obeys.shown {P : Policy σ} {s : Shell σ} (h : s.Obeys P) (text : String) :
    (s.shown text).Obeys P :=
  h.congr (s.sameSetup_shown text)

/-- Submits a line from outside every evaluation. -/
def Action.submit (text : String) (next : Action σ) : Action σ :=
  .inspect fun v =>
    if v.config.echoInput then .emit ⟨text, .input⟩ (.evalBlock text fun _ => next)
    else .evalBlock text fun _ => next

/-- The host that submits some lines and does nothing else. -/
def Action.submitAll (texts : List String) : Action σ :=
  texts.foldr Action.submit (.done (.ok none))

theorem Action.obeys_submitAll (P : Policy σ) (texts : List String) :
    (Action.submitAll texts : Action σ).Obeys P := by
  induction texts with
  | nil => trivial
  | cons text texts ih =>
      intro s
      dsimp only
      split
      · exact fun _ => ih
      · exact fun _ => ih

namespace Shell

variable {P : Policy σ}

/-- A host that submits lines leaves the shell that their evaluation leaves. The induction is on the
    lines; a line leaves the level as it was, so the next one comes from outside again. -/
theorem exec_submitAll (hP : P.Closed) (texts : List String) {s : Shell σ} (hs : s.Obeys P)
    (hb : s.Bounded) (hdepth : s.depth = 0) :
    ((serve (Action.submitAll texts)).exec s).2 =
      ((texts.forM fun text => discard (eval text)).run s).2 := by
  induction texts generalizing s with
  | nil => rfl
  | cons text texts ih =>
      have hl := s.sameLevel_shown text
      have hline := hP.lawful_keeping.evalBlock text (hl.bounded hb) (hs.shown text) (runs_self _ _)
      have hserve : ((serve (Action.submitAll (text :: texts))).exec s).2 =
          ((serve (Action.submitAll texts)).exec ((evalBlock text).exec (s.shown text)).2).2 := by
        -- Both sides evaluate the line in the shell that shows it, if it is to be shown.
        have hview : s.view.config.echoInput = s.config.echoInput := rfl
        show ((Eval.perform evalBlock (if s.view.config.echoInput then _ else _)).exec s).2 = _
        unfold Shell.shown
        rw [hview, hdepth]
        cases s.config.echoInput <;> rfl
      rw [hserve, ih hline.inv ((hl.trans hline.level).bounded hb)
        ((hl.trans hline.level).depth.trans hdepth)]
      rfl

/-- A host may write a line to a fresh shell. -/
theorem reachable_emit (P : Policy σ) (config : Config) (host : σ) (severity : Severity)
    (text : String) : Reachable P config host ((configured config host).emit severity text) :=
  ⟨.emit ⟨text, severity⟩ (.done (.ok none)), trivial, mem_visits.mpr (.inr (.inr rfl))⟩

/-- A shell that has started is reachable, without any host. -/
theorem reachable_start (hP : P.Closed) (config : Config) (host : σ) :
    Reachable P config host (start config host) := by
  refine ⟨Action.submitAll config.startup, Action.obeys_submitAll P config.startup, ?_⟩
  have hend := exec_submitAll hP config.startup (obeys_configured hP config host)
    (bounded_configured config host) (sameLevel_configured config host).depth
  exact mem_visits.mpr (.inr (.inr hend.symm))

end Shell
end CommandShell
