import CommandShell.Proofs.Commands
import CommandShell.Proofs.Evaluation.Reachable
import Mathlib.Data.List.Basic

/-!
# `CommandShell.Proofs.OwnOutput` — which line a sub-evaluation takes

A sub-evaluation that has written something takes the last line of the channel as its result. It knows
that something was written from a counter, and the counter also counts the lines that sub-evaluations
inside it have taken again. So when everything that was written is taken, the last line is one that was
waiting before.

In a channel without a bound this is the only way to lose a line: the lines that wait when a
sub-evaluation begins stay where they are, and the line it takes is its own, exactly if no take in its
run finds the channel down to the waiting lines.

## Contents
- `Action.Frugal`, commands that take no lines themselves, and `Policy.frugal`.
- `Moment.TakesAbove` and `Spares`, the waiting lines during a run.
- `Contract.sparing` and its lawfulness.
- `Eval.taken_of_runs_subEvaluate`, where the result of a sub-evaluation comes from.
- `Shell.Reachable.resolve_takes_own_iff`, with the shortest case where it fails.
-/

namespace CommandShell

open Contract

variable {σ α : Type}

/-! ## Frugal commands -/

/-- The command never takes a line from the channel, and neither does what it binds. -/
def Action.Frugal : Action σ → Prop
  | .done _ => True
  | .inspect next => ∀ s : Shell σ, (next s.view).Frugal
  | .update _ next => next.Frugal
  | .emit _ next => next.Frugal
  | .popLast _ => False
  | .drain _ => False
  | .evalBlock _ next => ∀ r, (next r).Frugal
  | .resolve _ next => ∀ r, (next r).Frugal
  | .fetch _ _ next => ∀ r, (next r).Frugal
  | .convert _ _ next => ∀ r, (next r).Frugal
  | .bind _ _ body next => (∀ args, (body args).Frugal) ∧ ∀ r, r ≠ .error .aborted → (next r).Frugal
  | .unbind _ next => ∀ profile?, (next profile?).Frugal
  | .registerType _ _ next => next.Frugal

/-- Calling the binding is a frugal command. -/
def Binding.Frugal (b : Binding σ) : Prop :=
  ∀ args, (b.run args).Frugal

/-- The policy that allows frugal bindings and every conversion. -/
def Policy.frugal : Policy σ where
  binding := Binding.Frugal

theorem Action.tame_frugal : Action.Tame (fun _ => True) (Action.Frugal : Action σ → Prop) where
  own _ _ := trivial
  answer _ := trivial
  failure _ := trivial
  inspect h := h
  update _ h := h
  emit _ h := h
  evalBlock _ h := fun r => h r fun _ _ => trivial

theorem Action.naming_frugal : Action.Naming (fun _ => True) (Action.Frugal : Action σ → Prop) where
  toTame := tame_frugal
  bindAlias h := ⟨Binding.tame_ofAlias tame_frugal _, fun r _ => h r fun _ _ => trivial⟩
  bindCell h := ⟨Binding.tame_ofCell tame_frugal .text _, fun r _ => h r fun _ _ => trivial⟩
  unbind h := h

theorem Action.Frugal.obeys {a : Action σ} (h : a.Frugal) : a.Obeys Policy.frugal := by
  have hfrugal : Action.Hereditary (Policy.frugal : Policy σ) Action.Frugal := {
    popLast := False.elim
    drain := False.elim
    bind := fun h => h
    registerType := fun h => ⟨trivial, h⟩ }
  exact hfrugal.obeys h

theorem Policy.closed_frugal : (Policy.frugal : Policy σ).Closed where
  bodies hb args := (hb args).obeys
  builtins _ hc _ := Builtin.naming Action.naming_frugal hc (.inl fun _ _ => trivial)
  aliases target := Binding.tame_ofAlias Action.tame_frugal target

/-! ## Waiting lines -/

/-- A take at this moment finds a line above the waiting ones, if any are waiting. -/
def Moment.TakesAbove (waiting : List Line) (m : Moment σ) : Prop :=
  ∀ expression start, m.note? = some (.take expression start) →
    waiting = [] ∨ waiting.length < m.shell.output.size

/-- Along a run to `t` the waiting lines stay at the front of the channel, exactly if every take finds a
    line above them. -/
structure Spares (waiting : List Line) (tr : List (Moment σ)) (t : Shell σ) : Prop where
  takes_iff : (∀ m ∈ tr, m.TakesAbove waiting) ↔ ∀ m ∈ tr, waiting <+: m.shell.output.lines
  last : (∀ m ∈ tr, waiting <+: m.shell.output.lines) → waiting <+: t.output.lines

namespace Spares

variable {waiting : List Line} {tr tr' : List (Moment σ)} {t u : Shell σ}

theorem nil (h : waiting <+: t.output.lines) : Spares waiting [] t :=
  ⟨by simp, fun _ => h⟩

theorem trans (h : Spares waiting tr t) (h' : waiting <+: t.output.lines → Spares waiting tr' u) :
    Spares waiting (tr ++ tr') u := by
  refine ⟨?_, ?_⟩
  · rw [List.forall_mem_append, List.forall_mem_append, h.takes_iff]
    refine and_congr_right fun htr => ?_
    exact (h' (h.last htr)).takes_iff
  · intro hall
    obtain ⟨htr, htr'⟩ := List.forall_mem_append.mp hall
    exact (h' (h.last htr)).last htr'

/-- A moment at which no line is taken and the waiting ones are left alone. -/
theorem single {m : Moment σ} (hnote : ∀ expression start, m.note? ≠ some (.take expression start))
    (hm : waiting <+: m.shell.output.lines) : Spares waiting [m] m.shell := by
  refine ⟨?_, fun _ => hm⟩
  simp only [List.forall_mem_singleton, hm, iff_true]
  intro expression start h
  exact absurd h (hnote expression start)

/-- A take from an empty channel, before which no line can be waiting. -/
theorem takeNothing {s : Shell σ} {expression : String} (hempty : t.popLast?.1 = none)
    (h : waiting <+: t.output.lines) : Spares waiting [⟨t, some (.take expression s)⟩] t := by
  have hnil : t.output.lines = [] := List.getLast?_eq_none_iff.mp hempty
  have hwaiting : waiting = [] := List.prefix_nil.mp (by rwa [hnil] at h)
  refine ⟨?_, fun _ => h⟩
  simp only [List.forall_mem_singleton, h, iff_true]
  exact fun _ _ _ => .inl hwaiting

/-- A take from a channel that shows the waiting lines, and the channel after it. -/
theorem take {s : Shell σ} {expression : String} {line : Line} (hline : t.popLast?.1 = some line)
    (h : waiting <+: t.output.lines) :
    Spares waiting [⟨t, some (.take expression s)⟩, ⟨t.popLast?.2, none⟩] t.popLast?.2 := by
  have hne : t.output.lines ≠ [] := by
    intro hnil
    simp [Shell.popLast?, Channel.popLast?, hnil] at hline
  have hlength : t.output.lines.dropLast.length = t.output.lines.length - 1 := List.length_dropLast
  have hpos := List.length_pos_iff.mpr hne
  refine ⟨?_, fun hall => hall ⟨t.popLast?.2, none⟩ (by simp)⟩
  constructor
  · intro habove m hm
    rcases List.mem_cons.mp hm with rfl | hm
    · exact h
    · -- The line that is taken is not a waiting one, so the channel without it still shows them.
      cases List.mem_singleton.mp hm
      rcases habove _ List.mem_cons_self expression s rfl with rfl | hlt
      · exact List.nil_prefix
      · show waiting <+: t.output.lines.dropLast
        refine List.prefix_of_prefix_length_le h (List.dropLast_prefix _) ?_
        simp only [Channel.size] at hlt
        omega
  · intro hall m hm expression' start hnote
    rcases List.mem_cons.mp hm with rfl | hm
    · -- The channel shows the waiting lines without its last one, which is one more line.
      have hpopped : waiting <+: t.output.lines.dropLast :=
        hall _ (List.mem_cons_of_mem _ List.mem_cons_self)
      have hle := hpopped.length_le
      right
      simp only [Channel.size]
      omega
    · cases List.mem_singleton.mp hm
      cases hnote

end Spares

/-! ## The contract -/

/-- In a shell whose channel has no bound, every run spares the lines that wait when it begins, as far
    as its takes allow. -/
def Contract.sparing : Contract σ where
  fit := Binding.Frugal
  inv s := s.Obeys Policy.frugal ∧ s.config.maxOutputLines = 0
  rel s tr _ t := ∀ waiting, waiting <+: s.output.lines → Spares waiting tr t

section Sparing

variable {s t : Shell σ} {tr : List (Moment σ)}

theorem prefix_emit {waiting : List Line} {line : Line} (hcapacity : t.output.capacity = 0)
    (h : waiting <+: t.output.lines) : waiting <+: (t.output.emit line).lines := by
  rw [Channel.lines_emit, hcapacity, Channel.retain_zero]
  exact h.trans (List.prefix_append _ _)

/-- One more moment, at which no line is taken and the waiting ones are left alone. -/
theorem sparing_snoc {m : Moment σ} {e? e?' : Option ShellError} (h : Contract.sparing.rel s tr e? t)
    (hnote : ∀ expression start, m.note? ≠ some (.take expression start))
    (hm : ∀ waiting, waiting <+: t.output.lines → waiting <+: m.shell.output.lines) :
    Contract.sparing.rel s (tr ++ [m]) e?' m.shell :=
  fun waiting hwaiting => (h waiting hwaiting).trans fun ht => .single hnote (hm waiting ht)

theorem sparing_trans {u : Shell σ} {tr' : List (Moment σ)} {e? e?' : Option ShellError}
    (h : Contract.sparing.rel s tr e? t) (h' : Contract.sparing.rel t tr' e?' u) :
    Contract.sparing.rel s (tr ++ tr') e?' u :=
  fun waiting hwaiting => (h waiting hwaiting).trans (h' waiting)

theorem admitsParse_sparing {p : Parse α} (h : Contract.sparing.rel s tr none t) :
    Contract.sparing.AdmitsParse s p tr t := by
  induction p generalizing tr t with
  | done result => exact h
  | resolve expression next ih =>
      intro r tr' u hu
      exact ih r (sparing_trans h hu.rel)

theorem admits_sparing {a : Action σ} (ha : a.Frugal) (ht : Contract.sparing.inv t)
    (h : Contract.sparing.rel s tr none t) : Contract.sparing.Admits s a tr t := by
  have hnone {u : Shell σ} (expression : String) (start : Shell σ) :
      (⟨u, none⟩ : Moment σ).note? ≠ some (.take expression start) := by
    rintro ⟨⟩
  have hcapacity {t : Shell σ} (ht : Contract.sparing.inv t) : t.output.capacity = 0 :=
    ht.1.capacity.trans ht.2
  induction a generalizing tr t with
  | done result => exact h
  | inspect next ih => exact ih _ (ha t) ht h
  | update change next ih =>
      have hinv := ht.1.congr (t.sameSetup_update change)
      exact ih ha ⟨hinv, ht.2⟩ (sparing_snoc h hnone fun _ hw => hw)
  | emit line next ih =>
      have hinv := ht.1.congr (t.sameSetup_emit line)
      exact ih ha ⟨hinv, ht.2⟩ (sparing_snoc h hnone fun _ hw => prefix_emit (hcapacity ht) hw)
  | popLast next ih => exact ha.elim
  | drain next ih => exact ha.elim
  | evalBlock text next ih | resolve expression next ih =>
      intro r tr' u hu
      exact ih r (ha r) hu.inv (sparing_trans h hu.rel)
  | fetch index param next ih =>
      intro r tr' u hu
      exact ih r (ha r) hu.inv (sparing_trans h hu.rel)
  | convert type text next ih =>
      intro r tr' u hu
      exact ih r (ha r) hu.inv (sparing_trans h hu.rel)
  | bind name profile body next _ ih =>
      refine ⟨?_, ?_⟩
      · intro u hu
        have hbody : Binding.Frugal ⟨profile, body⟩ := ha.1
        have hu' := Shell.bind_eq hu
        have hinv : Contract.sparing.inv u := ⟨ht.1.bind hbody hu, by rw [hu']; exact ht.2⟩
        refine ⟨hinv, ih _ (ha.2 _ (by simp)) hinv (sparing_snoc h hnone fun _ hw => ?_)⟩
        rw [hu']
        exact hw
      · intro e he
        exact ih _ (ha.2 _ (by simpa using Shell.bind_ne_aborted he)) ht h
  | unbind name next ih =>
      have hinv : Contract.sparing.inv (t.unbind name) := ⟨ht.1.unbind name, ht.2⟩
      exact ⟨hinv, ih _ (ha _) hinv (sparing_snoc h hnone fun _ hw => hw)⟩
  | registerType type parser next ih =>
      have hinv : Contract.sparing.inv (t.registerType type parser) :=
        ⟨ht.1.registerType trivial, ht.2⟩
      exact ⟨hinv, ih ha hinv (sparing_snoc h hnone fun _ hw => hw)⟩

theorem Contract.lawful_sparing : (Contract.sparing : Contract σ).Lawful where
  inv_congr h hst := by
    refine ⟨h.1.congr hst, ?_⟩
    rw [hst.config]
    exact h.2
  fit_of_lookup h hb := Policy.fit_of_lookup h.1 hb
  nil _ _ hw := .nil hw
  trans := sparing_trans
  fail _ h := h
  report := by
    intro s t tr e ht h
    refine sparing_snoc h (by rintro _ _ ⟨⟩) fun waiting hw => ?_
    unfold Shell.report
    split
    · exact hw
    · exact prefix_emit (ht.1.capacity.trans ht.2) hw
  enclose := by
    intro s t tr e? depth depth' stack stack' h waiting hw
    have hbegin : Spares waiting [(⟨s.atLevel depth stack, none⟩ : Moment σ)] (s.atLevel depth stack) :=
      .single (by rintro _ _ ⟨⟩) hw
    refine hbegin.trans fun hw' => (h waiting hw').trans fun ht => ?_
    exact .single (by rintro _ _ ⟨⟩) ht
  answer := by
    intro s text hs waiting hw
    exact .single (by rintro _ _ ⟨⟩) (prefix_emit (hs.1.capacity.trans hs.2) hw)
  expire := by
    intro s name b hs _ _
    exact ⟨⟨hs.1.unbind _, hs.2⟩, fun waiting hw => .single (by rintro _ _ ⟨⟩) hw⟩
  take := by
    intro s t tr expression ht h
    refine ⟨?_, ?_⟩
    · intro hempty waiting hw
      exact (h waiting hw).trans fun hwt => .takeNothing hempty hwt
    · intro line hline waiting hw
      exact (h waiting hw).trans fun hwt => .take hline hwt
  conversions _ hs _ := admitsParse_sparing fun _ hw => .nil hw
  calls hs hfit _ _ := by
    refine admits_sparing (hfit _) hs fun waiting hw => ?_
    exact .single (by rintro _ _ ⟨⟩) hw

end Sparing

/-! ## Sub-evaluations -/

/-- A sub-evaluation with a result has taken the last line of the state its own take is noted in. -/
theorem Eval.taken_of_runs_subEvaluate {nested : String → Eval σ Unit} {expression text : String}
    {s t : Shell σ} {tr : List (Moment σ)}
    (h : (subEvaluate nested expression).Runs s tr (.ok text) t) :
    ∃ u line, ⟨u, some (.take expression s)⟩ ∈ tr ∧ u.output.lines.getLast? = some line ∧
      line.text = text ∧ t.output.lines = u.output.lines.dropLast := by
  rw [subEvaluate, runs_get_bind] at h
  rcases runs_bind.mp h with ⟨tr₁, _, u, tr₂, -, hrest, rfl⟩ | ⟨e, -, he⟩
  · rw [runs_get_bind] at hrest
    -- A result can only come from the branch that finds a line to take.
    by_cases hsame : u.output.emitted = s.output.emitted
    · rw [if_pos hsame] at hrest
      cases (runs_throw.mp hrest).2.1
    · rw [if_neg hsame] at hrest
      obtain ⟨tr₃, hpopped, rfl⟩ := runs_note_bind.mp hrest
      rcases hpop : u.popLast? with ⟨_ | line, v⟩
      · rw [hpop] at hpopped
        cases (runs_throw.mp hpopped).2.1
      · rw [hpop] at hpopped
        obtain ⟨tr₄, hend, rfl⟩ := runs_set_bind.mp hpopped
        obtain ⟨rfl, htext, rfl⟩ := runs_pure.mp hend
        cases htext
        have hline : u.output.lines.getLast? = some line := congrArg Prod.fst hpop
        have hleft : u.popLast?.2 = t := congrArg Prod.snd hpop
        exact ⟨u, line, by simp, hline, rfl, by rw [← hleft]; rfl⟩
  · cases he

namespace Shell

/-- The lines that wait in a channel without a bound stay at its front all through a sub-evaluation, and
    its result is a line it has written itself, exactly if no take in its run finds the channel down to
    the waiting lines. -/
theorem Reachable.resolve_takes_own_iff {config : Config} {host : σ} {s : Shell σ}
    (h : Reachable Policy.frugal config host s) (hunbounded : s.config.maxOutputLines = 0)
    (expression : String) :
    (∀ e start u, (.take e start, u) ∈ (resolve expression).notes s →
        s.output.lines = [] ∨ s.output.size < u.output.size) ↔
      (∀ u ∈ (resolve expression).visits s, s.output.lines <+: u.output.lines) ∧
        ∀ text, ((resolve expression).exec s).1 = .ok text →
          ∃ u own line, (.take expression s, u) ∈ (resolve expression).notes s ∧
            u.output.lines = s.output.lines ++ own ++ [line] ∧ line.text = text ∧
            ((resolve expression).exec s).2.output.lines = s.output.lines ++ own := by
  obtain ⟨hobeys, hbounded⟩ := h.obeys Policy.closed_frugal
  have hC := (lawful_sparing : (Contract.sparing : Contract σ).Lawful)
  have hself := (resolve expression).runs_self s
  have hholds := hC.subEvaluate nestable_bounded hC.evalBlock expression hbounded
    ⟨hobeys, hunbounded⟩ hself
  obtain ⟨hiff, hlast⟩ := hholds.rel s.output.lines List.prefix_rfl
  have htakes : (∀ e start u, (.take e start, u) ∈ (resolve expression).notes s →
        s.output.lines = [] ∨ s.output.size < u.output.size) ↔
      ∀ m ∈ (resolve expression).trace s, m.TakesAbove s.output.lines := by
    constructor
    · rintro hall ⟨u, n?⟩ hm e start rfl
      exact hall e start u (Eval.mem_notes.mpr hm)
    · intro hall e start u hu
      exact hall _ (Eval.mem_notes.mp hu) e start rfl
  rw [htakes, hiff]
  constructor
  · -- The states of the run are its start, its moments and its end; the result is what is left over.
    intro hall
    refine ⟨?_, ?_⟩
    · intro u hu
      rcases Eval.mem_visits.mp hu with rfl | ⟨m, hm, rfl⟩ | rfl
      · exact List.prefix_rfl
      · exact hall m hm
      · exact hlast hall
    · intro text htext
      rw [htext] at hself
      obtain ⟨u, line, hu, hline, hlinetext, hend⟩ := Eval.taken_of_runs_subEvaluate hself
      obtain ⟨own, hown⟩ := hlast hall
      refine ⟨u, own, line, Eval.mem_notes.mpr hu, ?_, hlinetext, hown.symm⟩
      rw [hown, hend]
      exact (List.dropLast_append_getLast? line hline).symm
  · rintro ⟨hall, -⟩ m hm
    exact hall m.shell (Eval.mem_visits.mpr (.inr (.inl ⟨m, hm, rfl⟩)))

/-- A shell without bound in whose channel one line waits. -/
def stale : Shell Unit :=
  (configured { maxOutputLines := 0 } ()).emit .normal "stale"

theorem reachable_stale : Reachable Policy.frugal { maxOutputLines := 0 } () stale :=
  reachable_emit Policy.frugal { maxOutputLines := 0 } () .normal "stale"

/-- The variable is made from a line that is written and taken again, and itself writes nothing; so the
    expression takes the line that was waiting. -/
theorem resolve_takes_stale :
    ((resolve "var v (print x)").exec stale).1 = .ok "stale" ∧
      ¬ stale.output.lines <+: ((resolve "var v (print x)").exec stale).2.output.lines := by
  decide +kernel

/-- It is the take of the expression itself that finds no other line. In an expression whose commands all
    write something each take finds a line above the waiting one, so that one stays where it is. -/
theorem resolve_takes_own_iff_stale :
    (¬ ∀ e start u, (.take e start, u) ∈ (resolve "var v (print x)").notes stale →
      stale.output.lines = [] ∨ stale.output.size < u.output.size) ∧
    (∀ e start u, (.take e start, u) ∈ (resolve "echo (echo (print x)) y").notes stale →
      stale.output.lines = [] ∨ stale.output.size < u.output.size) ∧
    ∀ u ∈ (resolve "echo (echo (print x)) y").visits stale, stale.output.lines <+: u.output.lines := by
  have hunbounded : stale.config.maxOutputLines = 0 := by decide +kernel
  refine ⟨?_, ?_⟩
  · intro hall
    have hown := (Reachable.resolve_takes_own_iff reachable_stale hunbounded _).mp hall
    have hend := hown.1 _ (Eval.mem_visits.mpr (.inr (.inr rfl)))
    revert hend
    decide +kernel
  · have hall : ∀ e start u, (.take e start, u) ∈ (resolve "echo (echo (print x)) y").notes stale →
        stale.output.lines = [] ∨ stale.output.size < u.output.size := by
      have habove : ((resolve "echo (echo (print x)) y").notes stale).all (fun
          | (.take _ _, u) => stale.output.size < u.output.size
          | (.call _, _) => true) = true := by
        decide +kernel
      rw [List.all_eq_true] at habove
      intro e start u hu
      have hu := habove _ hu
      exact .inr (of_decide_eq_true hu)
    exact ⟨hall, ((Reachable.resolve_takes_own_iff reachable_stale hunbounded _).mp hall).1⟩

end Shell
end CommandShell
