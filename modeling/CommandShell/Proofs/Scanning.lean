import CommandShell.Proofs.ArrayLiterals
import CommandShell.Scan.Statement

/-!
# `CommandShell.Proofs.Scanning` — how reading a text fails

A text fails to be read in one way only: it ends inside a quote, a parenthesis or a brace. Tokens,
statements, programs and array literals all inherit this from `Scope.checkClosed`.

## Contents
- `nextToken_error`, `nextStatement_error` and `splitArray_error`.
- `Program.failure_ofChars`.
-/

namespace CommandShell

/-- A scope in which something is open names what would close it. -/
theorem Scope.checkClosed_error {s : Scope} {e : ShellError} (h : s.checkClosed = .error e) :
    ∃ c, e = .unexpectedEnd c := by
  unfold Scope.checkClosed at h
  split at h
  · next c _ =>
    cases h
    exact ⟨c, rfl⟩
  · cases h

/-! ## Tokens and statements -/

theorem nextToken_error {cs : List Char} {e : ShellError} (h : nextToken cs = .error e) :
    ∃ c, e = .unexpectedEnd c := by
  obtain ⟨r, -, hopen⟩ := PartialToken.takes_of_error h
  exact Scope.checkClosed_error hopen

/-- A statement fails with its first token that fails. -/
theorem nextStatement_error {cs : List Char} {e : ShellError} (h : nextStatement cs = .error e) :
    ∃ c, e = .unexpectedEnd c := by
  fun_induction nextStatement cs with
  | case1 cs e' he' =>
      cases h
      exact nextToken_error he'
  | case2 => cases h
  | case3 cs s hs hdone hlt e' he' ih =>
      cases h
      exact ih he'
  | case4 => cases h

/-- A program fails, if it does, where its text ends inside a group. -/
theorem Program.failure_ofChars {cs : List Char} {e : ShellError}
    (h : (Program.ofChars cs).failure? = some e) : ∃ c, e = .unexpectedEnd c := by
  fun_induction Program.ofChars cs with
  | case1 => cases h
  | case2 cs hne e' he' =>
      cases h
      exact nextStatement_error he'
  | case3 cs hne t ht hlt ih => exact ih h

/-! ## Array literals -/

theorem splitArray_error {cs : List Char} {e : ShellError} (h : splitArray cs = .error e) :
    ∃ c, e = .unexpectedEnd c :=
  Scope.checkClosed_error ((splitFrom_eq_error_iff {} []).mp h)

end CommandShell
