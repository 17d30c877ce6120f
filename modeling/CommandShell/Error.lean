/-!
# `CommandShell.Error` — failures and their wording

Every failure is recoverable: it is written to the output channel once, by its message, and ends the
statement it arose in. `aborted` stands for a failure that has been written already.

## Contents
- `ShellError`, one constructor per cause.
- `ShellError.message?`, the wording; reading a file or a TOML text fails without one of its own.
- `ShellError.isReported`, whether the output channel already shows the failure.
-/

namespace CommandShell

/-- Why a statement, a binding or a configuration failed. -/
inductive ShellError where
  | unsupportedType (name param type : String)
  | undefinedLocal (name : String)
  /-- The input ended before the delimiter that would close a scope. -/
  | unexpectedEnd (closer : Char)
  | undefinedField (path : String)
  | undefinedMethod (path : String)
  /-- A field without a setter is bound as a writable variable. -/
  | constantField (path : String)
  /-- A written argument does not convert to the type of its parameter. -/
  | argumentType (caller : String) (index : Nat) (param expected reason : String)
  | requiredArgument (caller : String) (index : Nat) (param : String)
  | noFrame
  /-- The result of a sub-evaluation does not convert to the type of its parameter. -/
  | returnType (caller : String) (index : Nat) (expected reason : String)
  /-- A sub-evaluation left no line behind. -/
  | voidReturn (expression : String)
  /-- The target of a binding is gone, and the binding has been removed. -/
  | invalidated (name : String)
  | recursionLimit (levels : Nat)
  /-- A failure in the words of a command. -/
  | command (text : String)
  /-- A nested evaluation failed and has reported its failure. -/
  | aborted
  | config (text : String)
  /-- A file could not be read as text. -/
  | unreadable
  /-- A text is not the TOML document that was asked for. -/
  | malformedToml
deriving DecidableEq, Repr

namespace ShellError

/-- The wording of a failure. What cannot be read says so in the words of the file system or of the
    document format, which are no concern of the shell. -/
def message? : ShellError → Option String
  | unsupportedType name param type =>
      some ("cannot bind '" ++ name ++ "': parameter '" ++ param ++ "' has unsupported type " ++ type)
  | undefinedLocal name => some ("undefined command or variable: " ++ name)
  | unexpectedEnd closer => some ("unexpected end of input: missing '" ++ closer.toString ++ "'")
  | undefinedField path => some ("undefined field: " ++ path)
  | undefinedMethod path => some ("undefined method: " ++ path)
  | constantField path => some ("field '" ++ path ++ "' is constant and must be bound read-only")
  | argumentType caller index param expected reason =>
      some (caller ++ ": argument " ++ toString index ++ " (" ++ param ++ ") expects " ++ expected ++
        ": " ++ reason)
  | requiredArgument caller index param =>
      some (caller ++ ": missing required argument " ++ toString index ++ " (" ++ param ++ ")")
  | noFrame => some "no active call frame"
  | returnType caller index expected reason =>
      some (caller ++ ": value returned for argument " ++ toString index ++ " is not " ++ expected ++
        ": " ++ reason)
  | voidReturn expression => some ("'" ++ expression ++ "' returned no value")
  | invalidated name => some ("'" ++ name ++ "' is no longer valid and has been removed")
  | recursionLimit levels => some ("evaluation nested deeper than " ++ toString levels ++ " levels")
  | command text => some text
  | aborted => some "evaluation aborted"
  | config text => some ("config error: " ++ text)
  | unreadable => none
  | malformedToml => none

/-- The wording of a failure as the output channel shows it. -/
def message (e : ShellError) : String :=
  e.message?.getD (if e = unreadable then "I/O error" else "TOML parse error")

/-- Whether the output channel already shows the failure. -/
def isReported (e : ShellError) : Bool :=
  e = aborted

end ShellError
end CommandShell
