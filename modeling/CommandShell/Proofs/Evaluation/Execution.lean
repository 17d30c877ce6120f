import CommandShell.Proofs.Aliases

/-!
# `CommandShell.Proofs.Evaluation.Execution` — statements carried out

What a statement does is put together from what its parts do. Where the outcome of a part is known, the
lemmas here say how the whole goes on: with the value of an argument, with the line that a sub-evaluation
has written, with the answer of a command. They are about outcomes and final states alone, as `Eval.exec`
is.

## Contents
- `Shell.answered`, and `Shell.passOn`, a result that goes through sub-evaluations.
- `Eval.exec_fetch_of_argument`, `Eval.exec_fetch_of_missing` and `Eval.exec_fetchFrom_cons`.
- `Eval.exec_subEvaluate` and `Eval.exec_subEvaluate_error`.
- `Eval.exec_dispatch`, a call that runs its binding to the end.
- `Eval.runStatement_literals` and `Eval.runStatement_subEval`, and the text with such a statement.
-/

namespace CommandShell

/-! ## What is written -/

/-- The shell after a call with this answer, if it has one. -/
def Shell.answered {σ : Type} (s : Shell σ) : Option Value → Shell σ
  | some v => s.emit .normal v.display
  | none => s

namespace Channel

/-- The channel after a line has been written this many times and has been taken between. That is left of
    a result which one sub-evaluation hands to the next. -/
def passOn (ch : Channel) (line : Line) (times : Nat) : Channel :=
  { ch with lines := retain ch.capacity (ch.lines ++ [line]), emitted := ch.emitted + times }

theorem popLast?_passOn (ch : Channel) (line : Line) (times : Nat) :
    (ch.passOn line times).popLast?.1 = some line := by
  obtain ⟨kept, hkept, -⟩ := retain_concat ch.capacity ch.lines line
  simp [popLast?, passOn, hkept]

/-- A line that is written again in the place from which it was taken pushes no other line out. -/
theorem emit_popLast_passOn (ch : Channel) (line : Line) (times : Nat) :
    (ch.passOn line times).popLast?.2.emit line = ch.passOn line (times + 1) := by
  obtain ⟨kept, hkept, -⟩ := retain_concat ch.capacity ch.lines line
  have hfits : retain ch.capacity (kept ++ [line]) = kept ++ [line] := by
    by_cases hcapacity : ch.capacity = 0
    · rw [hcapacity, retain_zero]
    · have hlength := length_retain_le (Nat.pos_of_ne_zero hcapacity) (ch.lines ++ [line])
      rw [hkept] at hlength
      rw [retain, if_neg hcapacity, Nat.sub_eq_zero_of_le hlength, List.drop_zero]
  simp [popLast?, passOn, emit, hkept, hfits, Nat.add_assoc]

end Channel

/-- The shell in which a line has been passed on this many times. -/
def Shell.passOn {σ : Type} (s : Shell σ) (line : Line) (times : Nat) : Shell σ :=
  { s with output := s.output.passOn line times }

namespace Eval

variable {σ : Type} (nested : String → Eval σ Unit)

/-! ## Arguments -/

theorem exec_lift_bind {α β : Type} (a : α) (f : α → Eval σ β) (s : Shell σ) :
    ((liftM (Except.ok a : Except ShellError α) : Eval σ α) >>= f).exec s = (f a).exec s := rfl

section Arguments

variable {s t u : Shell σ} {frame : Frame} {index : Nat} {param : Param}

/-- An argument is converted, and if its conversion asks for nothing, that leaves the shell as it is. -/
theorem exec_fetch_of_argument {argument : Argument} {parser : Parser} {v : Value}
    (hframe : s.stack.current = .ok frame) (hargument : frame.arguments[index]? = some argument)
    (hparser : s.types.parserFor? param.type = some parser)
    (hv : parser argument.text = .done (.ok v)) : (fetch nested index param).exec s = (.ok v, s) := by
  unfold fetch
  rw [exec_get_bind, hframe, exec_lift_bind, hargument]
  dsimp only
  rw [hparser]
  dsimp only
  rw [hv]
  rfl

/-- Without an argument a parameter has its default. -/
theorem exec_fetch_of_missing (hframe : s.stack.current = .ok frame)
    (hargument : frame.arguments[index]? = none) :
    (fetch nested index param).exec s = (missing frame index param, s) := by
  unfold fetch
  rw [exec_get_bind, hframe, exec_lift_bind, hargument]
  rfl

theorem exec_fetchFrom_cons {params : List Param} {v : Value} {vs : List Value}
    (hfirst : (fetch nested index param).exec s = (.ok v, t))
    (hothers : (fetchFrom nested (index + 1) params).exec t = (.ok vs, u)) :
    (fetchFrom nested index (param :: params)).exec s = (.ok (v :: vs), u) := by
  rw [fetchFrom, exec_bind, hfirst]
  dsimp only
  rw [exec_bind, hothers]
  rfl

end Arguments

/-! ## Sub-evaluations -/

section SubEvaluations

variable {expression : String} {s t u : Shell σ}

/-- The result of an expression is the line that it has written last. -/
theorem exec_subEvaluate {line : Line} (hrun : (nested expression).exec s = (.ok (), t))
    (hwritten : t.output.emitted ≠ s.output.emitted) (hline : t.popLast? = (some line, u)) :
    (subEvaluate nested expression).exec s = (.ok line.text, u) := by
  unfold subEvaluate
  rw [exec_get_bind, exec_bind, hrun]
  dsimp only
  rw [exec_get_bind, if_neg hwritten, exec_note_bind, hline]
  rfl

theorem exec_subEvaluate_error {e : ShellError} (hrun : (nested expression).exec s = (.error e, t)) :
    (subEvaluate nested expression).exec s = (.error e, t) := by
  unfold subEvaluate
  rw [exec_get_bind, exec_bind, hrun]

end SubEvaluations

/-! ## Calls -/

/-- A call of a binding that exists, whose arguments are converted and which runs to its end: the answer
    is written. -/
theorem exec_dispatch {frame : Frame} {b : Binding σ} {vs : List Value} {s : Shell σ} (t : Shell σ)
    (v? : Option Value) (hb : s.registry.lookup? frame.name = some b)
    (halive : b.profile.isAlive s.memory = true)
    (hargs : (fetchFrom nested 0 b.profile.params).exec (called s frame) = (.ok vs, called s frame))
    (hrun : (perform nested (b.run ⟨vs⟩)).exec (called s frame) = (.ok v?, called t frame)) :
    (dispatch nested frame).exec s = (.ok (), t.answered v?) := by
  have hprepare : (prepare nested frame.name).exec (called s frame) = (.ok (b, ⟨vs⟩), called s frame) := by
    have hlookup : (called s frame).registry.lookup? frame.name = some b := hb
    have hexists : b.profile.isAlive (called s frame).memory = true := halive
    unfold prepare
    rw [exec_get_bind, hlookup]
    dsimp only
    rw [if_pos hexists, exec_bind, hargs]
    rfl
  have henter : (enter nested ⟨frame, b, ⟨vs⟩⟩).exec (called s frame) =
      (.ok (), called (t.answered v?) frame) := by
    unfold enter
    rw [exec_note_bind, exec_bind, hrun]
    cases v? <;> rfl
  have hcall : (callByName nested frame).exec (called s frame) =
      (.ok (), called (t.answered v?) frame) := by
    rw [callByName, exec_bind, hprepare]
    exact henter
  rw [dispatch_eq, exec_inCall, hcall]
  rfl

theorem exec_perform_inspect (next : View σ → Action σ) (s : Shell σ) :
    (perform nested (.inspect next)).exec s = (perform nested (next s.view)).exec s := rfl

theorem exec_perform_update (change : Memory σ → Memory σ) (next : Action σ) (s : Shell σ) :
    (perform nested (.update change next)).exec s =
      (perform nested next).exec { s with memory := change s.memory } := rfl

/-- A command goes on behind a name that it can bind. -/
theorem exec_perform_bind {name : String} {b : Binding σ} {next : Unit → Action σ} {s t : Shell σ}
    (h : s.bind name b = .ok t) :
    (perform nested (Script.bind name b next)).exec s = (perform nested (next ())).exec t := by
  have hbind : s.bind name ⟨b.profile, b.run⟩ = .ok t := h
  rw [Script.bind, perform, exec_get_bind, hbind]
  rfl

/-! ## Statements -/

/-- A statement of literals calls what the first one names. -/
theorem runStatement_literals {name : String} (hname : name ≠ "") (texts : List String) :
    runStatement nested ((name :: texts).map (Token.mk .literal)) =
      dispatch nested ⟨name, texts.map (Argument.mk · .literal)⟩ := by
  have hresolve : ∀ texts : List String,
      (texts.map (Token.mk .literal)).mapM (resolveToken nested) =
        pure (texts.map (Argument.mk · .literal)) := by
    intro texts
    induction texts with
    | nil => rfl
    | cons text texts ih =>
        rw [List.map_cons, List.mapM_cons, ih]
        rfl
  unfold runStatement
  rw [hresolve, pure_bind]
  exact if_neg (by simpa using hname)

/-- A name and an expression: the result of the expression is the argument of the call. -/
theorem runStatement_subEval {name : String} (hname : name ≠ "") (expression : String) :
    runStatement nested [⟨.literal, name⟩, ⟨.subEval, expression⟩] =
      subEvaluate nested expression >>= fun text => dispatch nested ⟨name, [⟨text, .subEval⟩]⟩ := by
  have hresolve : [⟨.literal, name⟩, ⟨.subEval, expression⟩].mapM (resolveToken nested) =
      subEvaluate nested expression >>= fun text => pure [⟨name, .literal⟩, ⟨text, .subEval⟩] := by
    simp [resolveToken]
  unfold runStatement
  rw [hresolve, bind_assoc]
  refine congrArg _ (funext fun text => ?_)
  rw [pure_bind]
  exact if_neg (by simpa using hname)

/-- A text that is read as one statement is evaluated as the statement, one level deeper. -/
theorem exec_evaluateWithin_of_readsAs (levels : Nat) {text : String} {tokens : List Token}
    (h : ReadsAs text.toList tokens []) (s : Shell σ) :
    (evaluateWithin (levels + 1) text).exec s =
      leave s.depth ((runStatement (evaluateWithin levels) tokens).exec (deeper s)) := by
  have hsingle : runProgram (evaluateWithin levels) ⟨[tokens], none⟩ =
      (runStatement (evaluateWithin levels) tokens : Eval σ Unit) := by
    rw [runProgram, List.forM_eq_forM, List.forM_cons, List.forM_nil, bind_pure]
    exact bind_pure _
  rw [evaluateWithin_of_readsAs (levels + 1) h, exec_evaluateProgram_succ, hsingle]

end Eval
end CommandShell
