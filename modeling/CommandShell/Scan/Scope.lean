import CommandShell.Error

/-!
# `CommandShell.Scan.Scope` — open quotes, parentheses and braces

A delimiter acts only where no quote, parenthesis or brace is open. A scope counts what is open.

## Contents
- `Scope`, with `Scope.isOuter` and the delimiter that closes the innermost scope (`Scope.closer?`).
- `Scope.checkClosed`, the failure of an input that ends inside a scope.
-/

namespace CommandShell

/-- What is open at a place in the input. -/
structure Scope where
  parens : Nat := 0
  braces : Nat := 0
  quoted : Bool := false
deriving DecidableEq, Repr

namespace Scope

/-- Whether nothing is open. -/
def isOuter (s : Scope) : Bool :=
  s.parens == 0 && s.braces == 0 && !s.quoted

/-- The delimiter that closes the innermost open scope. A quote lies inside everything else. -/
def closer? (s : Scope) : Option Char :=
  if s.quoted then some '"'
  else if 0 < s.parens then some ')'
  else if 0 < s.braces then some '}'
  else none

/-- Fails when the input ends while something is open. -/
def checkClosed (s : Scope) : Except ShellError Unit :=
  match s.closer? with
  | some c => .error (.unexpectedEnd c)
  | none => .ok ()

theorem closer?_eq_none_iff {s : Scope} : s.closer? = none ↔ s.isOuter = true := by
  cases s with
  | mk p b q => cases q <;> cases p <;> cases b <;> simp [closer?, isOuter]

theorem checkClosed_eq_ok_iff {s : Scope} : s.checkClosed = .ok () ↔ s.isOuter = true := by
  rw [← closer?_eq_none_iff, checkClosed]
  cases s.closer? <;> simp

theorem eq_of_isOuter {s : Scope} (h : s.isOuter = true) : s = {} := by
  obtain ⟨parens, braces, quoted⟩ := s
  simp only [isOuter, Bool.and_eq_true, beq_iff_eq, Bool.not_eq_true'] at h
  obtain ⟨⟨rfl, rfl⟩, rfl⟩ := h
  rfl

end Scope
end CommandShell
