import CommandShell.Proofs.Evaluation.Program

/-!
# `CommandShell.Proofs.Sequencing` — a semicolon is a sequence

Two texts with a semicolon between them do what the first one does and then, unless it has failed, what
the other one does. That asks nothing of the second text and nothing of the state. The first text has to
be one that can be read: what it leaves open, a quote or a brace, would take in the semicolon.

The statements of both texts run on one level, and then on one level each. Since an evaluation ends at
the level it began at, the second text has as many levels left as the first one had.

## Contents
- `Shell.agree_evalBlock_bind`, two texts in order with the levels that the state leaves to them.
- `Shell.agree_evaluateWithin_semicolon` and `Shell.agree_evalBlock_semicolon`, at a level and for a host.
- `Shell.evalBlock_semicolon`.
-/

namespace CommandShell
namespace Shell

open Eval

variable {σ : Type}

/-- The number of levels that a state leaves to the evaluation of a text. -/
def levelsLeft (s : Shell σ) : Nat :=
  s.config.maxDepth - s.depth

/-- What follows on an evaluation of a text has as many levels left as the text had itself. -/
theorem agree_evalBlock_bind (s : Shell σ) (a b : String) :
    Agree s (evaluateWithin s.levelsLeft a >>= fun _ => evaluateWithin s.levelsLeft b)
      (evalBlock a >>= fun _ => evalBlock b) := by
  have hsecond : Agree s (evaluateWithin s.levelsLeft a >>= fun _ => evaluateWithin s.levelsLeft b)
      (evaluateWithin s.levelsLeft a >>= fun _ => evalBlock b) := by
    refine agree_bind fun _ t hrun => ?_
    have hlevel := keepsLevel_evaluateWithin s.levelsLeft a (runs_self _ s)
    rw [hrun] at hlevel
    have hleft : t.levelsLeft = s.levelsLeft := by
      rw [levelsLeft, hlevel.config, hlevel.depth, levelsLeft]
    rw [← hleft]
    exact ⟨rfl, rfl⟩
  exact hsecond.trans ⟨rfl, rfl⟩

/-- With any number of levels left, a text that can be read, a semicolon and any text do what the two
    texts do in order. -/
theorem agree_evaluateWithin_semicolon (levels : Nat) (s : Shell σ) {a : String}
    (ha : (Program.ofChars a.toList).failure? = none) (b : String) :
    Agree s (evaluateWithin levels (a ++ ";" ++ b))
      (evaluateWithin levels a >>= fun _ => evaluateWithin levels b) := by
  obtain ⟨gap, hgap, hprogram⟩ := Program.exists_ofChars_append_semicolon ha b.toList
  have htext : (a ++ ";" ++ b).toList = a.toList ++ ';' :: b.toList := by
    simp
  have hprograms := agree_evaluateProgram_append levels ha hgap (.ofChars b.toList) s
  rw [← hprogram, ← htext] at hprograms
  simpa only [← evaluateWithin_eq] using hprograms

theorem agree_evalBlock_semicolon (s : Shell σ) {a : String}
    (ha : (Program.ofChars a.toList).failure? = none) (b : String) :
    Agree s (evalBlock (a ++ ";" ++ b)) (evalBlock a >>= fun _ => evalBlock b) := by
  have hlevels := agree_evaluateWithin_semicolon s.levelsLeft s ha b
  have htexts := hlevels.trans (agree_evalBlock_bind s a b)
  exact ⟨htexts.exec, htexts.notes⟩

/-- A text that can be read, a semicolon and any text, in any state: they have the result, the final
    state and the calls of the first text and then, if that did not fail, of the second one. Where the
    first text fails, nothing behind it happens. -/
theorem evalBlock_semicolon (s : Shell σ) {a : String}
    (ha : (Program.ofChars a.toList).failure? = none) (b : String) :
    Agree s (evalBlock (a ++ ";" ++ b)) (evalBlock a >>= fun _ => evalBlock b) ∧
      ∀ e t, (evalBlock a).exec s = (.error e, t) →
        Agree s (evalBlock (a ++ ";" ++ b)) (evalBlock a) := by
  have hsequence := agree_evalBlock_semicolon s ha b
  refine ⟨hsequence, fun e t hfail => hsequence.trans ⟨?_, ?_⟩⟩
  · rw [exec_bind, hfail]
  · rw [notes_bind, hfail, List.append_nil]

/-- The first text writes a line and fails, and that keeps the second text from running. -/
theorem evalBlock_semicolon_failing :
    (Program.ofChars "print \"a;b\"; nope".toList).failure? = none ∧
      Agree (start {} ()) (evalBlock ("print \"a;b\"; nope" ++ ";" ++ "print c"))
        (evalBlock "print \"a;b\"; nope") := by
  have hread : (Program.ofChars "print \"a;b\"; nope".toList).failure? = none := by decide +kernel
  have hfails : ((evalBlock "print \"a;b\"; nope").exec (start {} ())).1.toBool = false := by
    decide +kernel
  refine ⟨hread, ?_⟩
  rcases hrun : (evalBlock "print \"a;b\"; nope").exec (start {} ()) with ⟨e | _, t⟩
  · exact (evalBlock_semicolon (start {} ()) hread "print c").2 e t hrun
  · rw [hrun] at hfails
    cases hfails

end Shell
end CommandShell
