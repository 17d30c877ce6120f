import CommandShell.Error

/-!
# `CommandShell.Call.Frame` — the calls in flight

A statement is dispatched with the texts of its arguments. While it runs its frame is on the call
stack, above the frames of the calls that led to it.

## Contents
- `Origin`, `Argument` and `Frame`.
- `CallStack`, innermost frame first.
-/

namespace CommandShell

/-- Where the text of an argument comes from. -/
inductive Origin where
  /-- It is written in the statement. -/
  | literal
  /-- It is the result of a sub-evaluation. -/
  | subEval
deriving DecidableEq, Repr

/-- The text of an argument, not yet converted. -/
structure Argument where
  text : String
  origin : Origin
deriving DecidableEq, Repr

/-- A statement that is being dispatched: the name as written and the resolved arguments. -/
structure Frame where
  name : String
  arguments : List Argument
deriving DecidableEq, Repr

/-- The texts of the arguments in order. -/
def Frame.texts (f : Frame) : List String :=
  f.arguments.map (·.text)

/-- The frames of the calls in flight, innermost first. -/
structure CallStack where
  frames : List Frame := []
deriving DecidableEq, Repr

namespace CallStack

def push (s : CallStack) (f : Frame) : CallStack :=
  ⟨f :: s.frames⟩

/-- The innermost frame and the stack without it; an empty stack stays as it is. -/
def pop? (s : CallStack) : Option Frame × CallStack :=
  (s.frames.head?, ⟨s.frames.tail⟩)

/-- The innermost frame. -/
def current (s : CallStack) : Except ShellError Frame :=
  match s.frames.head? with
  | some f => .ok f
  | none => .error .noFrame

/-- The number of calls in flight. -/
def depth (s : CallStack) : Nat :=
  s.frames.length

@[simp] theorem pop?_push (s : CallStack) (f : Frame) : (s.push f).pop? = (some f, s) := rfl

@[simp] theorem current_push (s : CallStack) (f : Frame) : (s.push f).current = .ok f := rfl

@[simp] theorem depth_push (s : CallStack) (f : Frame) : (s.push f).depth = s.depth + 1 := rfl

end CallStack
end CommandShell
