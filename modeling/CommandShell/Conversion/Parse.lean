import CommandShell.Conversion.Failure
import CommandShell.Value.Basic

/-!
# `CommandShell.Conversion.Parse` — conversions that may ask for sub-evaluations

A conversion works on text alone until it meets a sub-evaluation inside an array literal. It then asks
for the result and goes on with the answer. Which resolver answers is left open: a table, the shell
itself, or one that always fails.

## Contents
- `Parse`, a finished result or a request for the result of an expression, with its monad.
- `Parse.run`, the result under a resolver, and `Parse.mapFailure`.
- `Parser`, a conversion.
-/

namespace CommandShell

/-- A conversion in progress. -/
inductive Parse (α : Type) where
  | done (result : Except ParseFailure α)
  /-- Asks for the result of a sub-evaluation and goes on with it. -/
  | resolve (expression : String) (next : Except ShellError String → Parse α)

/-- A conversion from the text of an argument to a value. -/
abbrev Parser := String → Parse Value

namespace Parse

variable {α β : Type}

/-- Fails. -/
def fail (e : ParseFailure) : Parse α :=
  done (.error e)

/-- Goes on with the value that a conversion finds, or with its failure. -/
def andThen : Parse α → (Except ParseFailure α → Parse β) → Parse β
  | done result, f => f result
  | resolve expression next, f => resolve expression fun answer => (next answer).andThen f

instance : Monad Parse where
  pure a := done (.ok a)
  bind p f := p.andThen fun
    | .ok a => f a
    | .error e => fail e

/-- Changes the failure of a conversion. -/
def mapFailure (f : ParseFailure → ParseFailure) (p : Parse α) : Parse α :=
  p.andThen fun result => done (result.mapError f)

/-- The result of a sub-evaluation; without one the conversion fails with the cause. -/
def resolved (expression : String) : Parse String :=
  resolve expression fun
    | .ok text => done (.ok text)
    | .error e => fail (.resolution e)

/-- The result of a conversion when `resolver` answers its requests. -/
def run {m : Type → Type} [Monad m] (resolver : String → m (Except ShellError String)) :
    Parse α → m (Except ParseFailure α)
  | done result => pure result
  | resolve expression next => do (next (← resolver expression)).run resolver

/-! ## Resolvers without effects -/

/-- The result of a conversion when a function answers its requests. -/
def runPure (resolver : String → Except ShellError String) (p : Parse α) : Except ParseFailure α :=
  Id.run (p.run fun expression => pure (resolver expression))

/-- Answers every request with the expression itself. -/
def verbatim (expression : String) : Except ShellError String :=
  .ok expression

@[simp] theorem runPure_done (resolver : String → Except ShellError String)
    (result : Except ParseFailure α) : (done result).runPure resolver = result := rfl

@[simp] theorem runPure_resolve (resolver : String → Except ShellError String) (expression : String)
    (next : Except ShellError String → Parse α) :
    (resolve expression next).runPure resolver = (next (resolver expression)).runPure resolver := rfl

theorem runPure_andThen (resolver : String → Except ShellError String) (p : Parse α)
    (f : Except ParseFailure α → Parse β) :
    (p.andThen f).runPure resolver = (f (p.runPure resolver)).runPure resolver := by
  induction p with
  | done result => rfl
  | resolve expression next ih => simp [andThen, ih]

end Parse
end CommandShell
