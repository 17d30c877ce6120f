import CommandShell.Proofs.Sequencing

/-!
# `CommandShell.Proofs.Repetition` — a repetition is a long text

A block that is repeated does what the text does in which it stands as often, with semicolons between its
copies. Each iteration is an evaluation of its own, with a level and a report of its own, and the long
text is a single one. Since a semicolon is a sequence, the difference does not show: not where an
iteration fails, for nothing behind it happens and the failure is reported once, and not where no level is
left, for then the first iteration fails and so does the text.

## Contents
- `Eval.IsEvaluator`, the evaluators that a command can be given.
- `unrolled`, the copies of a block, and `Eval.agree_repeatBlock`, the loop by induction on the iterations.
- `Eval.repeat_unrolled`, the command.
-/

namespace CommandShell

/-! ## Copies of a block -/

/-- A text a number of times, with semicolons between. -/
def unrolled (block : String) (count : Nat) : String :=
  ";".intercalate (List.replicate count block)

theorem unrolled_succ_succ (block : String) (count : Nat) :
    unrolled block (count + 2) = block ++ ";" ++ unrolled block (count + 1) := by
  refine String.toList_injective ?_
  simp [unrolled, String.toList_intercalate, List.replicate_succ]

namespace Eval

variable {σ : Type} {nested : String → Eval σ Unit} {block : String}

/-! ## One iteration -/

/-- What evaluates the texts of a command: the shell itself, or an evaluation with levels left. -/
inductive IsEvaluator : (String → Eval σ Unit) → Prop where
  | host : IsEvaluator Shell.evalBlock
  | level (levels : Nat) : IsEvaluator (evaluateWithin levels)

theorem IsEvaluator.agree_semicolon (h : IsEvaluator nested) (s : Shell σ) {a : String}
    (ha : (Program.ofChars a.toList).failure? = none) (b : String) :
    Agree s (nested (a ++ ";" ++ b)) (nested a >>= fun _ => nested b) := by
  cases h with
  | host => exact Shell.agree_evalBlock_semicolon s ha b
  | level levels => exact Shell.agree_evaluateWithin_semicolon levels s ha b

/-- A command goes on behind a text, unless the text fails. -/
theorem agree_perform_evalBlock (nested : String → Eval σ Unit) (text : String) (next : Unit → Action σ)
    (s : Shell σ) :
    Agree s (perform nested (Script.evalBlock text next))
      (nested text >>= fun _ => perform nested (next ())) := by
  show Agree s (attempt (nested text) >>= fun r => perform nested (Script.ofExcept r next)) _
  constructor
  · rw [exec_bind, exec_attempt, exec_bind]
    rcases (nested text).exec s with ⟨_ | _, t⟩ <;> rfl
  · rw [notes_bind, exec_attempt, notes_attempt, notes_bind]
    rcases (nested text).exec s with ⟨_ | _, t⟩ <;> rfl

/-! ## All iterations -/

/-- One iteration and more of them do what the text with as many copies does. -/
theorem agree_repeatBlock (hnested : IsEvaluator nested)
    (hblock : (Program.ofChars block.toList).failure? = none) (count : Nat) (next : Unit → Action σ)
    (s : Shell σ) :
    Agree s (perform nested (Builtin.repeatBlock block (count + 1) next))
      (nested (unrolled block (count + 1)) >>= fun _ => perform nested (next ())) := by
  induction count generalizing s with
  | zero => exact agree_perform_evalBlock nested block next s
  | succ count ih =>
      have hfirst := agree_perform_evalBlock nested block
        (fun _ => Builtin.repeatBlock block (count + 1) next) s
      have hothers : Agree s
          (nested block >>= fun _ => perform nested (Builtin.repeatBlock block (count + 1) next))
          (nested block >>= fun _ =>
            nested (unrolled block (count + 1)) >>= fun _ => perform nested (next ())) :=
        agree_bind fun _ t _ => ih t
      have hcopies := (hnested.agree_semicolon s hblock (unrolled block (count + 1))).symm.bind
        fun _ => perform nested (next ())
      rw [bind_assoc, ← unrolled_succ_succ] at hcopies
      exact hfirst.trans (hothers.trans hcopies)

/-! ## The command -/

/-- The call of a command with values for its parameters. -/
def callOf (nested : String → Eval σ Unit) (command : Command σ) (values : List Value) :
    Eval σ (Option Value) :=
  perform nested (command.toBinding.run ⟨values⟩)

/-- The warning that fewer iterations are granted than were asked for. -/
def warnLimited (limit : Nat) : Eval σ Unit :=
  modify (·.emit .warning ("repeat: limited to " ++ toString limit ++ " iterations"))

/-- The command asks for the limit, and writes its warning in front of the first iteration. -/
theorem agree_repeat (nested : String → Eval σ Unit) (block : String) (count : Int64) (s : Shell σ) :
    Agree s (callOf nested Builtin.repeatCommand [.int count, .text block])
      (if s.config.maxIterations < count.toInt.toNat then do
        warnLimited s.config.maxIterations
        perform nested (Builtin.repeatBlock block s.config.maxIterations fun _ => .done (.ok none))
      else perform nested (Builtin.repeatBlock block count.toInt.toNat fun _ => .done (.ok none))) := by
  let granted (t : Shell σ) : Script σ Nat :=
    if t.config.maxIterations < count.toInt.toNat then do
      Script.emit .warning ("repeat: limited to " ++ toString t.config.maxIterations ++ " iterations")
      return t.config.maxIterations
    else return count.toInt.toNat
  have hcall : Agree s (callOf nested Builtin.repeatCommand [.int count, .text block])
      (perform nested (granted s fun n => Builtin.repeatBlock block n fun _ => .done (.ok none))) :=
    ⟨rfl, rfl⟩
  by_cases hlimit : s.config.maxIterations < count.toInt.toNat
  · rw [if_pos hlimit]
    simp only [granted, if_pos hlimit] at hcall
    exact hcall
  · rw [if_neg hlimit]
    simp only [granted, if_neg hlimit] at hcall
    exact hcall

theorem agree_exec (nested : String → Eval σ Unit) (text : String) (s : Shell σ) :
    Agree s (callOf nested Builtin.exec [.text text]) (nested text >>= fun _ => pure none) :=
  agree_perform_evalBlock nested text (fun _ => .done (.ok none)) s

/-- A repetition within the limit is the evaluation of as many copies of its block, if the block can be
    read. A longer one writes a warning and is cut to the limit, and if nothing is left of it, it does
    nothing else. That holds in every state, whether or not the block fails and whether or not there is a
    level left for it. -/
theorem repeat_unrolled (hnested : IsEvaluator nested)
    (hblock : (Program.ofChars block.toList).failure? = none) (count : Int64) (s : Shell σ) :
    (1 ≤ count.toInt → count.toInt ≤ s.config.maxIterations →
      Agree s (callOf nested Builtin.repeatCommand [.int count, .text block])
        (callOf nested Builtin.exec [.text (unrolled block count.toInt.toNat)])) ∧
    (s.config.maxIterations < count.toInt →
      Agree s (callOf nested Builtin.repeatCommand [.int count, .text block])
        (do
          warnLimited s.config.maxIterations
          if s.config.maxIterations = 0 then return none
          else callOf nested Builtin.exec [.text (unrolled block s.config.maxIterations)])) := by
  have hcopies (n : Nat) (hn : n ≠ 0) (t : Shell σ) :
      Agree t (perform nested (Builtin.repeatBlock block n fun _ => .done (.ok none)))
        (callOf nested Builtin.exec [.text (unrolled block n)]) := by
    obtain ⟨m, rfl⟩ := Nat.exists_eq_succ_of_ne_zero hn
    exact (agree_repeatBlock hnested hblock m _ t).trans (agree_exec nested _ t).symm
  have hcall := agree_repeat nested block count s
  refine ⟨fun hone hlimit => ?_, fun hlimit => ?_⟩
  · rw [if_neg (by omega)] at hcall
    exact hcall.trans (hcopies count.toInt.toNat (by omega) s)
  · rw [if_pos (by omega)] at hcall
    refine hcall.trans (agree_bind fun _ t _ => ?_)
    by_cases hzero : s.config.maxIterations = 0
    · rw [if_pos hzero, hzero]
      exact ⟨rfl, rfl⟩
    · rw [if_neg hzero]
      exact hcopies s.config.maxIterations hzero t

/-- A block that fails is evaluated once, alone and in front of its copies. With a limit of two, one of
    five iterations begins behind the warning. -/
theorem repeat_unrolled_failing :
    (Program.ofChars "print x; nope".toList).failure? = none ∧
      Agree (Shell.start {} ()) (callOf Shell.evalBlock Builtin.repeatCommand [.int 3, .text "print x; nope"])
        (callOf Shell.evalBlock Builtin.exec [.text (unrolled "print x; nope" 3)]) ∧
      Agree (Shell.start { maxIterations := 2 } ())
        (callOf Shell.evalBlock Builtin.repeatCommand [.int 5, .text "print x; nope"])
        (do
          warnLimited 2
          callOf Shell.evalBlock Builtin.exec [.text (unrolled "print x; nope" 2)]) := by
  have hblock : (Program.ofChars "print x; nope".toList).failure? = none := by decide +kernel
  have hlimit : (Shell.start { maxIterations := 2 } ()).config.maxIterations = 2 := by decide +kernel
  have hlimited := (repeat_unrolled .host hblock 5 (Shell.start { maxIterations := 2 } ())).2
  rw [hlimit] at hlimited
  exact ⟨hblock, (repeat_unrolled .host hblock 3 (Shell.start {} ())).1 (by decide) (by decide +kernel),
    hlimited (by decide)⟩

end Eval
end CommandShell
