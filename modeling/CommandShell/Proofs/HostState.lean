import CommandShell.Proofs.Commands
import CommandShell.Proofs.Evaluation.Reachable
import CommandShell.Proofs.ManifestPrefix

/-!
# `CommandShell.Proofs.HostState` — what commands make of the state of the host

The state of the host is changed by the commands of the host alone, and each of them is run somewhere
inside of an evaluation that knows nothing of it. What holds of the state at first holds at every moment
if the commands keep it. A command may read the state, and what it writes later may rest on what it has
read: so what is asked of its changes is asked under the assumption that everything it has seen was as it
should be.

## Contents
- `Action.KeepsHost` and `Binding.KeepsHost`, with the built-in commands, aliases and variables.
- `Policy.hosting`, the policy that allows such bindings.
- `HostKept`, runs that keep what holds of the state, with `Contract.hosting` and `Shell.Hosts.serve`.
- `HostTable.KeepsHost`, with `Shell.Hosts.bindManifest`, and `Shell.hosts_start`.
-/

namespace CommandShell

open Eval

variable {σ α β : Type}

/-! ## Commands -/

/-- Granted that all the command has `seen` of the host so far was as it should be, its changes lead
    from states of the host with `I` to such states; and so do those of the bindings it registers,
    whatever it has seen. -/
def Action.KeepsHost (I : σ → Prop) : Action σ → Prop → Prop
  | .done _, _ => True
  | .inspect next, seen => ∀ s : Shell σ, (next s.view).KeepsHost I (seen ∧ I s.memory.host)
  | .update change next, seen =>
      (seen → ∀ m, I m.host → I (change m).host) ∧ next.KeepsHost I seen
  | .emit _ next, seen => next.KeepsHost I seen
  | .popLast next, seen => ∀ line?, (next line?).KeepsHost I seen
  | .drain next, seen => ∀ lines, (next lines).KeepsHost I seen
  | .evalBlock _ next, seen => ∀ r, (next r).KeepsHost I seen
  | .resolve _ next, seen => ∀ r, (next r).KeepsHost I seen
  | .fetch _ _ next, seen => ∀ r, (next r).KeepsHost I seen
  | .convert _ _ next, seen => ∀ r, (next r).KeepsHost I seen
  | .bind _ _ body next, seen =>
      (∀ args seen', (body args).KeepsHost I seen') ∧ ∀ r, (next r).KeepsHost I seen
  | .unbind _ next, seen => ∀ profile?, (next profile?).KeepsHost I seen
  | .registerType _ _ next, seen => next.KeepsHost I seen

/-- Calling the binding keeps what holds of the state of the host. -/
def Binding.KeepsHost (I : σ → Prop) (b : Binding σ) : Prop :=
  ∀ args seen, (b.run args).KeepsHost I seen

/-- The command leaves the host alone: whatever holds of its state, the command keeps it. -/
def Action.LeavesHost (a : Action σ) : Prop :=
  ∀ I : σ → Prop, a.KeepsHost I True

/-- The policy that allows bindings that keep what holds of the state, and every conversion. -/
def Policy.hosting (I : σ → Prop) : Policy σ where
  binding := Binding.KeepsHost I

section Keeping

variable {I : σ → Prop}

theorem Action.tame_keepsHost (I : σ → Prop) :
    Action.Tame (fun _ => True) (fun a : Action σ => ∀ seen, a.KeepsHost I seen) I where
  own _ _ := trivial
  answer _ _ := trivial
  failure _ _ := trivial
  inspect h := fun seen s => h s (seen ∧ I s.memory.host)
  update hchange h := fun seen => ⟨fun _ => hchange, h seen⟩
  emit _ h := h
  evalBlock _ h := fun seen r => h r (fun _ _ => trivial) seen

theorem Binding.keepsHost_ofAlias (I : σ → Prop) (target : String) : (ofAlias target).KeepsHost I :=
  tame_ofAlias (Action.tame_keepsHost I) target

/-- A failure ends the script, and then nothing is changed. -/
theorem Action.keepsHost_lift {r : Except ShellError α} {f : α → Script σ β} {next : β → Action σ}
    {seen : Prop} (h : ∀ a, r = .ok a → (f a next).KeepsHost I seen) :
    ((liftM r >>= f : Script σ β) next).KeepsHost I seen := by
  cases r with
  | error e => trivial
  | ok a => exact h a rfl

/-- A variable stores what its accessor makes of the memory that it has seen. -/
theorem Binding.keepsHost_ofVariable {type : ValueType} {access : Accessor σ}
    (h : ∀ v m m', I m.host → access.set v m = .ok m' → I m'.host) :
    (ofVariable type access).KeepsHost I := by
  intro args seen
  cases hget : args.get? 0 with
  | none =>
      have hrun : (ofVariable type access).run args =
          .inspect fun view => .done (.ok (some (access.get view.memory))) := by
        simp only [ofVariable, hget]
        rfl
      rw [hrun]
      intro s
      trivial
  | some v =>
      have hrun : (ofVariable type access).run args =
          .inspect fun view => (liftM (access.set v view.memory) >>= fun m' next =>
            .update (fun _ => m') (next none) : Script σ (Option Value)).toAction := by
        simp only [ofVariable, hget]
        rfl
      rw [hrun]
      intro s
      apply Action.keepsHost_lift
      intro m' hset
      refine ⟨fun hseen m _ => ?_, trivial⟩
      exact h v s.memory m' hseen.2 hset

theorem Binding.keepsHost_ofCell (type : ValueType) (index : Nat) : (ofCell type index).KeepsHost I := by
  refine keepsHost_ofVariable fun v m m' hm hset => ?_
  cases hset
  exact hm

theorem Action.naming_keepsHost (I : σ → Prop) :
    Action.Naming (fun _ => True) (fun a : Action σ => ∀ seen, a.KeepsHost I seen) I where
  toTame := tame_keepsHost I
  bindAlias h := fun seen => ⟨Binding.keepsHost_ofAlias I _, fun r => h r (fun _ _ => trivial) seen⟩
  bindCell h := fun seen => ⟨Binding.keepsHost_ofCell .text _, fun r => h r (fun _ _ => trivial) seen⟩
  unbind h := fun seen profile? => h profile? seen

/-- What a command has seen decides what it may change, but not what it may bind. -/
theorem Action.KeepsHost.obeys {a : Action σ} {seen : Prop} (h : a.KeepsHost I seen) :
    a.Obeys (Policy.hosting I) := by
  have hkeeps : Action.Hereditary (Policy.hosting I) fun a : Action σ => ∃ seen, a.KeepsHost I seen := {
    inspect := fun ⟨_, h⟩ s => ⟨_, h s⟩
    update := fun ⟨_, h⟩ => ⟨_, h.2⟩
    emit := fun ⟨_, h⟩ => ⟨_, h⟩
    popLast := fun ⟨_, h⟩ line? => ⟨_, h line?⟩
    drain := fun ⟨_, h⟩ lines => ⟨_, h lines⟩
    evalBlock := fun ⟨_, h⟩ r => .inl ⟨_, h r⟩
    resolve := fun ⟨_, h⟩ r => .inl ⟨_, h r⟩
    fetch := fun ⟨_, h⟩ r => .inl ⟨_, h r⟩
    convert := fun ⟨_, h⟩ r => .inl ⟨_, h r⟩
    bind := fun ⟨_, h⟩ => ⟨h.1, fun r _ => ⟨_, h.2 r⟩⟩
    unbind := fun ⟨_, h⟩ profile? => ⟨_, h profile?⟩
    registerType := fun ⟨_, h⟩ => ⟨trivial, _, h⟩ }
  exact hkeeps.obeys ⟨seen, h⟩

theorem Policy.closed_hosting (I : σ → Prop) : (Policy.hosting I).Closed where
  bodies hb args := (hb args True).obeys
  builtins _ hc _ := Builtin.naming (Action.naming_keepsHost I) hc (.inl fun _ _ => trivial)
  aliases := Binding.keepsHost_ofAlias I

/-- A host that submits lines does nothing to the state itself. -/
theorem Action.leavesHost_submitAll (texts : List String) :
    (Action.submitAll texts : Action σ).LeavesHost := by
  intro I
  generalize True = seen
  induction texts generalizing seen with
  | nil => trivial
  | cons text texts ih =>
      intro s
      dsimp only
      split
      · exact fun _ => ih _
      · exact fun _ => ih _

end Keeping

/-! ## Members of the host -/

/-- The members of the host keep what holds of its state: its methods as commands do, its fields when they
    are set. -/
structure HostTable.KeepsHost (I : σ → Prop) (table : HostTable σ) : Prop where
  methods : ∀ entry ∈ table.methods, ∀ args seen, (entry.2.body args).toAction.KeepsHost I seen
  fields : ∀ entry ∈ table.fields, ∀ set ∈ entry.2.set?, ∀ v m m',
    I m.host → set v m = .ok m' → I m'.host

namespace HostTable

variable {I : σ → Prop} {table : HostTable σ} {b : Binding σ}

theorem mem_of_lookup {entries : List (String × α)} {path : String} {a : α}
    (h : entries.lookup path = some a) : (path, a) ∈ entries := by
  obtain ⟨before, after, rfl, -⟩ := List.lookup_eq_some_iff.mp h
  exact List.mem_append_right before List.mem_cons_self

theorem KeepsHost.commandBinding {entry : CommandEntry} (h : table.KeepsHost I)
    (hb : table.commandBinding entry = .ok b) : b.KeepsHost I := by
  obtain ⟨method, hmethod, hrun, -⟩ := exists_of_commandBinding hb
  intro args seen
  rw [hrun]
  exact h.methods _ (mem_of_lookup hmethod) args seen

theorem KeepsHost.variableBinding {entry : VariableEntry} (h : table.KeepsHost I)
    (hb : table.variableBinding entry = .ok b) : b.KeepsHost I := by
  obtain ⟨field, access, hfield, haccess, hrun, -⟩ := exists_of_variableBinding hb
  have hvariable : (Binding.ofVariable field.type access).KeepsHost I := by
    refine Binding.keepsHost_ofVariable fun v m m' hm hstored => ?_
    obtain ⟨set, hset, hstored⟩ := haccess v m m' hstored
    exact h.fields _ (mem_of_lookup hfield) set hset v m m' hm hstored
  intro args seen
  rw [hrun]
  exact hvariable args seen

theorem KeepsHost.bindings (h : table.KeepsHost I) {m : Manifest} {name : String}
    (hb : (name, .ok b) ∈ m.bindings table) : b.KeepsHost I := by
  rcases List.mem_append.mp hb with hcommand | hvariable
  · obtain ⟨entry, -, hentry⟩ := List.mem_map.mp hcommand
    exact h.commandBinding (Prod.mk.inj hentry).2
  · obtain ⟨entry, -, hentry⟩ := List.mem_map.mp hvariable
    exact h.variableBinding (Prod.mk.inj hentry).2

end HostTable

/-! ## The contract -/

/-- A run that begins with `I` goes through states of the host with `I` only. -/
def HostKept (I : σ → Prop) (s : Shell σ) (tr : List (Moment σ)) (t : Shell σ) : Prop :=
  I s.memory.host → (∀ m ∈ tr, I m.shell.memory.host) ∧ I t.memory.host

theorem Shell.memory_report (s : Shell σ) (e : ShellError) : (s.report e).memory = s.memory := by
  unfold Shell.report
  split <;> rfl

section Kept

variable {I : σ → Prop} {s t u : Shell σ} {tr tr' : List (Moment σ)} {n? : Option (Note σ)}

theorem HostKept.refl (I : σ → Prop) (s : Shell σ) : HostKept I s [] s :=
  fun hs => ⟨by simp, hs⟩

theorem HostKept.trans (h : HostKept I s tr t) (h' : HostKept I t tr' u) : HostKept I s (tr ++ tr') u := by
  intro hs
  obtain ⟨hmoments, ht⟩ := h hs
  obtain ⟨hmoments', hu⟩ := h' ht
  exact ⟨List.forall_mem_append.mpr ⟨hmoments, hmoments'⟩, hu⟩

/-- A change may rest on all that was before. -/
theorem HostKept.change (h : HostKept I s tr t)
    (hu : I s.memory.host → I t.memory.host → I u.memory.host) : HostKept I s (tr ++ [⟨u, n?⟩]) u := by
  intro hs
  obtain ⟨hmoments, ht⟩ := h hs
  have hhost := hu hs ht
  exact ⟨List.forall_mem_append.mpr ⟨hmoments, List.forall_mem_singleton.mpr hhost⟩, hhost⟩

/-- A step that is no matter of the memory. -/
theorem HostKept.step (h : HostKept I s tr t) (hsame : u.memory = t.memory) :
    HostKept I s (tr ++ [⟨u, n?⟩]) u := by
  apply h.change
  intro _ ht
  rw [hsame]
  exact ht

theorem HostKept.report (h : HostKept I s tr t) (e : ShellError) :
    HostKept I s (tr ++ [⟨t.report e, none⟩]) (t.report e) :=
  h.step (t.memory_report e)

end Kept

/-- Evaluations keep what holds of the state. -/
def Contract.hosting (I : σ → Prop) : Contract σ :=
  (Policy.hosting I).contract fun s tr _ t => HostKept I s tr t

namespace Contract

variable {I : σ → Prop} {s t : Shell σ} {tr : List (Moment σ)}

/-- The induction is on the command; what it has seen, it has seen in states with `I` if the run began in
    one. -/
theorem admits_hosting {a : Action σ} {seen : Prop} (ha : a.KeepsHost I seen)
    (hseen : I s.memory.host → seen) (ht : t.Obeys (Policy.hosting I)) (h : HostKept I s tr t) :
    (hosting I).Admits s a tr t := by
  induction a generalizing seen t tr with
  | done result => exact h
  | inspect next ih =>
      -- What is seen here counts for the changes that follow.
      have hview (hs : I s.memory.host) : seen ∧ I t.memory.host := ⟨hseen hs, (h hs).2⟩
      exact ih _ (ha t) hview ht h
  | update change next ih =>
      refine ih ha.2 hseen (ht.congr (t.sameSetup_update change)) (h.change ?_)
      intro hs
      exact ha.1 (hseen hs) t.memory
  | emit line next ih => exact ih ha hseen (ht.congr (t.sameSetup_emit line)) (h.step rfl)
  | popLast next ih => exact ih _ (ha _) hseen (ht.congr t.sameSetup_popLast) (h.step rfl)
  | drain next ih => exact ih _ (ha _) hseen (ht.congr t.sameSetup_drain) (h.step rfl)
  | evalBlock text next ih | resolve expression next ih =>
      intro r tr' u hu
      exact ih r (ha r) hseen hu.inv (h.trans hu.rel)
  | fetch index param next ih =>
      intro r tr' u hu
      exact ih r (ha r) hseen hu.inv (h.trans hu.rel)
  | convert type text next ih =>
      intro r tr' u hu
      exact ih r (ha r) hseen hu.inv (h.trans hu.rel)
  | bind name profile body next _ ih =>
      refine ⟨fun u hu => ?_, fun e _ => ih _ (ha.2 _) hseen ht h⟩
      have hbinding : (Policy.hosting I).binding ⟨profile, body⟩ := ha.1
      have hobeys := ht.bind hbinding hu
      have hsame : u.memory = t.memory := by rw [Shell.bind_eq hu]
      exact ⟨hobeys, ih _ (ha.2 _) hseen hobeys (h.step hsame)⟩
  | unbind name next ih =>
      exact ⟨ht.unbind name, ih _ (ha _) hseen (ht.unbind name) (h.step rfl)⟩
  | registerType type parser next ih =>
      have hobeys : (t.registerType type parser).Obeys (Policy.hosting I) := ht.registerType trivial
      exact ⟨hobeys, ih ha hseen hobeys (h.step rfl)⟩

theorem lawful_hosting (I : σ → Prop) : (hosting I).Lawful where
  inv_congr := Shell.Obeys.congr
  fit_of_lookup := Policy.fit_of_lookup
  nil _ := HostKept.refl I _
  trans := HostKept.trans
  fail _ h := h
  report _ h := HostKept.report h _
  enclose := by
    intro s t tr e? depth depth' stack stack' h hs
    obtain ⟨hmoments, ht⟩ := h hs
    refine ⟨List.forall_mem_cons.mpr ⟨hs, ?_⟩, ht⟩
    exact List.forall_mem_append.mpr ⟨hmoments, List.forall_mem_singleton.mpr ht⟩
  answer _ := (HostKept.refl I _).step rfl
  expire hobeys _ _ := ⟨hobeys.unbind _, (HostKept.refl I _).step rfl⟩
  take := by
    intro s t tr expression _ h
    have hnoted : HostKept I s (tr ++ [⟨t, some (.take expression s)⟩]) t := HostKept.step h rfl
    refine ⟨fun _ => hnoted, fun line _ => ?_⟩
    have hpopped : HostKept I s (tr ++ [⟨t, some (.take expression s)⟩] ++ [⟨t.popLast?.2, none⟩])
        t.popLast?.2 := hnoted.step rfl
    rwa [List.append_assoc] at hpopped
  conversions _ _ _ := Policy.admitsParse_contract HostKept.trans (fun h => h) _ (HostKept.refl I _)
  calls hobeys hfit _ _ :=
    admits_hosting (hfit _ True) (fun _ => trivial) hobeys ((HostKept.refl I _).step rfl)

end Contract

/-! ## Runs -/

namespace Shell

variable {I : σ → Prop} {s t : Shell σ} {tr : List (Moment σ)}

/-- The shell has a host whose state is as it should be, and nothing bound that changes that. -/
structure Hosts (I : σ → Prop) (s : Shell σ) : Prop where
  obeys : s.Obeys (Policy.hosting I)
  bounded : s.Bounded
  host : I s.memory.host

/-- Whatever the host asks for, the state is as it should be at every moment, if the host itself keeps
    it so. -/
theorem Hosts.serve (h : s.Hosts I) {program : Action σ} (hprogram : program.KeepsHost I True) :
    ∀ u ∈ (serve program).visits s, u.Hosts I := by
  have hlawful := Contract.lawful_hosting I
  have hadmits : (Contract.hosting I).Admits s program [] s :=
    Contract.admits_hosting hprogram (fun _ => trivial) h.obeys (.refl I s)
  have hholds := hlawful.perform Contract.nestable_bounded hlawful.evalBlock [] h.bounded (.refl h.obeys)
    hadmits (runs_self (Shell.serve program) s)
  obtain ⟨hmoments, hlast⟩ := hholds.rel h.host
  intro u hu
  rcases mem_visits.mp hu with rfl | ⟨m, hm, rfl⟩ | rfl
  · exact h
  · obtain ⟨hobeys, hbounded, -⟩ := hholds.moments m hm
    exact ⟨hobeys, hbounded, hmoments m hm⟩
  · exact ⟨hholds.inv, hholds.level.bounded h.bounded, hlast⟩

/-! ## Binding -/

theorem Hosts.report (h : s.Hosts I) (e : ShellError) : (s.report e).Hosts I where
  obeys := h.obeys.congr (s.sameSetup_report e)
  bounded := (s.sameLevel_report e).bounded h.bounded
  host := by
    rw [memory_report]
    exact h.host

theorem Hosts.bind {name : String} {b : Binding σ} (h : s.Hosts I) (hb : b.KeepsHost I)
    (ht : s.bind name b = .ok t) : t.Hosts I where
  obeys := h.obeys.bind hb ht
  bounded := (sameLevel_bind ht).bounded h.bounded
  host := by
    rw [bind_eq ht]
    exact h.host

/-- Binding names in order ends in such a shell, also where it fails. The induction is on the names. -/
theorem Hosts.forM_bind {bindings : List (String × Binding σ)} {r : Except ShellError PUnit}
    (h : s.Hosts I) (hbindings : ∀ entry ∈ bindings, entry.2.KeepsHost I)
    (hrun : (bindings.forM fun (name, b) =>
      (do set (← (← get).bind name b) : Eval σ PUnit)).Runs s tr r t) : t.Hosts I := by
  induction bindings generalizing s tr with
  | nil =>
      obtain ⟨-, -, rfl⟩ := runs_pure.mp hrun
      exact h
  | cons entry bindings ih =>
      -- The first name is bound, or refused and then nothing has changed.
      have hset {tr : List (Moment σ)} {r : Except ShellError PUnit} {u : Shell σ}
          (hentry : (do set (← (← get).bind entry.1 entry.2) : Eval σ PUnit).Runs s tr r u) :
          u.Hosts I := by
        rcases runs_lift_bind.mp (runs_get_bind.mp hentry) with ⟨v, hv, hrest⟩ | ⟨e, -, -, -, rfl⟩
        · obtain ⟨hexec, -⟩ := hrest
          cases hexec
          exact h.bind (hbindings entry List.mem_cons_self) hv
        · exact h
      rw [List.forM] at hrun
      rcases runs_bind.mp hrun with ⟨tr₁, a, u, tr₂, hentry, hrest, -⟩ | ⟨e, hentry, -⟩
      · exact ih (hset hentry) (fun entry' hmem => hbindings entry' (List.mem_cons_of_mem _ hmem)) hrest
      · exact hset hentry

/-- The entries of a manifest likewise. -/
theorem Hosts.bindEntries {bound : Nat} {entries : List (String × Except ShellError (Binding σ))}
    {r : Except ShellError Nat} (h : s.Hosts I)
    (hentries : ∀ name b, (name, .ok b) ∈ entries → b.KeepsHost I)
    (hrun : (Shell.bindEntries bound entries).Runs s tr r t) : t.Hosts I := by
  induction entries generalizing bound s tr with
  | nil =>
      obtain ⟨-, -, rfl⟩ := runs_pure.mp hrun
      exact h
  | cons entry entries ih =>
      obtain ⟨name, binding⟩ := entry
      cases hbind : binding.bind (s.bind name) with
      | error e =>
          obtain ⟨-, -, rfl⟩ := (runs_bindEntries_error hbind).unique hrun
          exact h.report e
      | ok u =>
          obtain ⟨tr', hrest, -⟩ := (runs_bindEntries_ok hbind).mp hrun
          cases binding with
          | error e => cases hbind
          | ok b =>
              rw [Except.bind] at hbind
              have hu := h.bind (hentries name b List.mem_cons_self) hbind
              exact ih hu (fun name' b' hmem => hentries name' b' (List.mem_cons_of_mem _ hmem)) hrest

theorem memory_bindAll {refused : Shell σ → ShellError → Shell σ} (bindings : List (String × Binding σ))
    (hrefused : ∀ s e, (refused s e).memory = s.memory) (s : Shell σ) :
    (s.bindAll refused bindings).memory = s.memory := by
  refine bindAll_induction (M := fun t => t.memory = s.memory) ?_ ?_ rfl
  · intro t e ht
    rw [hrefused, ht]
  · intro entry _ t u ht hu
    rw [bind_eq hu]
    exact ht

theorem memory_configured (config : Config) (host : σ) :
    (configured config host).memory = ⟨#[], host⟩ := by
  unfold configured
  rw [memory_bindAll _ memory_report, memory_bindAll _ fun _ _ => rfl]
  rfl

/-- Wherever binding a manifest ends, what is bound so far keeps the state. -/
theorem Hosts.bindManifest {table : HostTable σ} (h : s.Hosts I) (htable : table.KeepsHost I)
    {m : Manifest} {r : Except ShellError Nat} (hrun : (Shell.bindManifest m table).Runs s tr r t) :
    t.Hosts I :=
  h.bindEntries (fun _ _ hmem => htable.bindings hmem) hrun

/-- A shell that has started, with a state that is as it should be, keeps it so. -/
theorem hosts_start (config : Config) {host : σ} (hhost : I host) : (start config host).Hosts I := by
  have hP := Policy.closed_hosting I
  have hobeys := obeys_configured hP config host
  have hbounded := bounded_configured config host
  have hconfigured : (configured config host).Hosts I := by
    refine ⟨hobeys, hbounded, ?_⟩
    rw [memory_configured]
    exact hhost
  have hend := exec_submitAll hP config.startup hobeys hbounded (sameLevel_configured config host).depth
  exact hconfigured.serve (Action.leavesHost_submitAll config.startup I) _
    (mem_visits.mpr (.inr (.inr hend.symm)))

end Shell
end CommandShell
