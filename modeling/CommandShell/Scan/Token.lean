import CommandShell.Scan.Scope

/-!
# `CommandShell.Scan.Token` — reading one token

A statement is read token by token:

```text
  print (add 2 3); say "a;b" {raw (text)} :volume (1, 2, 3)
  ^---^ ^-------^  ^-^ ^---^ ^----------^ ^-----^ ^-------^
  lit   subeval    lit lit   lit          subeval lit (array)
```

Outside every group a blank ends a token, a semicolon ends the statement, and a colon makes the token
a sub-evaluation. A quote, a parenthesis or a brace opens a group, which ends the token when it closes;
the outermost delimiters are dropped and all inner ones kept. A comma directly inside the outermost
parentheses makes them an array literal. Line breaks are dropped everywhere.

## Contents
- `Token` and `Scanned`, a token together with the input behind it.
- `PartialToken`, the token read so far, with `PartialToken.step` for one more character.
- `scanFrom` and `nextToken`, and that the input behind a token is shorter (`length_rest_lt`).
-/

namespace CommandShell

/-! ## Tokens -/

/-- How the text of a token is used. -/
inductive TokenKind where
  /-- As it stands. -/
  | literal
  /-- As a nested statement, whose result takes its place. -/
  | subEval
  /-- Not at all: the statement or the input ended before anything was read. -/
  | blank
deriving DecidableEq, Repr

/-- One word of a statement. -/
structure Token where
  kind : TokenKind
  text : String
deriving DecidableEq, Repr

/-- A token and the input behind it. -/
structure Scanned where
  token : Token
  rest : List Char
  /-- Whether a semicolon outside every group ended the token. -/
  endsStatement : Bool
deriving DecidableEq, Repr

/-! ## Reading -/

/-- A token that has been read in part. -/
structure PartialToken where
  scope : Scope := {}
  kind : TokenKind := .literal
  text : String := ""
deriving DecidableEq, Repr

/-- What one character does to the token being read. -/
inductive Outcome where
  | more (r : PartialToken)
  | done (token : Token) (endsStatement : Bool)
deriving DecidableEq, Repr

namespace PartialToken

/-- Takes a character into the text. -/
def push (r : PartialToken) (c : Char) : PartialToken :=
  { r with text := r.text.push c }

/-- The token ended by a closing delimiter or a blank. -/
def finish (r : PartialToken) : Outcome :=
  .done ⟨r.kind, r.text⟩ false

/-- The token as it is when nothing more belongs to it: a literal without text is blank. -/
def toToken (r : PartialToken) : Token :=
  if r.kind = .literal ∧ r.text = "" then ⟨.blank, ""⟩ else ⟨r.kind, r.text⟩

/-- A quote. Inside a group it is data, yet what it encloses does not close the group. -/
def quote (r : PartialToken) : Outcome :=
  let r' : PartialToken := { r with scope := { r.scope with quoted := !r.scope.quoted } }
  if 0 < r.scope.parens ∨ 0 < r.scope.braces then .more (r'.push '"')
  else if r.scope.quoted then r'.finish
  else .more r'

/-- An opening parenthesis outside quotes. -/
def openParen (r : PartialToken) : Outcome :=
  if 0 < r.scope.braces then .more (r.push '(')
  else
    let r' : PartialToken := { r with scope := { r.scope with parens := r.scope.parens + 1 } }
    if r.scope.parens = 0 then .more { r' with kind := .subEval } else .more (r'.push '(')

/-- A closing parenthesis outside quotes; one that closes nothing is data. -/
def closeParen (r : PartialToken) : Outcome :=
  if 0 < r.scope.braces ∨ r.scope.parens = 0 then .more (r.push ')')
  else
    let r' : PartialToken := { r with scope := { r.scope with parens := r.scope.parens - 1 } }
    if r.scope.parens = 1 then r'.finish else .more (r'.push ')')

/-- An opening brace outside quotes. -/
def openBrace (r : PartialToken) : Outcome :=
  if 0 < r.scope.parens then .more (r.push '{')
  else
    let r' : PartialToken := { r with scope := { r.scope with braces := r.scope.braces + 1 } }
    if r.scope.braces = 0 then .more r' else .more (r'.push '{')

/-- A closing brace outside quotes; one that closes nothing is data. -/
def closeBrace (r : PartialToken) : Outcome :=
  if 0 < r.scope.parens ∨ r.scope.braces = 0 then .more (r.push '}')
  else
    let r' : PartialToken := { r with scope := { r.scope with braces := r.scope.braces - 1 } }
    if r.scope.braces = 1 then r'.finish else .more (r'.push '}')

/-- Any other character inside a group. -/
def inGroup (r : PartialToken) (c : Char) : Outcome :=
  if c = ',' ∧ r.scope.parens = 1 ∧ r.scope.braces = 0 then .more ({ r with kind := .literal }.push c)
  else .more (r.push c)

/-- Any other character outside every group. -/
def outside (r : PartialToken) (c : Char) : Outcome :=
  if c = ':' then .more { r with kind := .subEval }
  else if c = ' ' ∨ c = '\t' then if r.text = "" then .more r else r.finish
  else if c = ';' then .done r.toToken true
  else .more (r.push c)

/-- What the next character does to the token. -/
def step (r : PartialToken) (c : Char) : Outcome :=
  if c = '\r' ∨ c = '\n' then .more r
  else if c = '"' then r.quote
  else if r.scope.quoted then .more (r.push c)
  else if c = '(' then r.openParen
  else if c = ')' then r.closeParen
  else if c = '{' then r.openBrace
  else if c = '}' then r.closeBrace
  else if r.scope.isOuter then r.outside c
  else r.inGroup c

end PartialToken

/-- Reads on until the token ends. -/
def scanFrom (r : PartialToken) : List Char → Except ShellError Scanned
  | [] => do
      r.scope.checkClosed
      return ⟨r.toToken, [], false⟩
  | c :: cs =>
      match r.step c with
      | .more r' => scanFrom r' cs
      | .done token endsStatement => .ok ⟨token, cs, endsStatement⟩

/-- Reads the first token of an input. -/
def nextToken (cs : List Char) : Except ShellError Scanned :=
  scanFrom {} cs

/-! ## Progress -/

theorem length_rest_scanFrom_lt {r : PartialToken} {cs : List Char} {s : Scanned}
    (h : scanFrom r cs = .ok s) (hne : cs ≠ []) : s.rest.length < cs.length := by
  induction cs generalizing r with
  | nil => exact absurd rfl hne
  | cons c cs ih =>
      rw [scanFrom] at h
      split at h
      · next r' _ =>
          cases cs with
          | nil =>
              have hrest : s.rest = [] := by
                rw [scanFrom] at h
                cases hc : r'.scope.checkClosed with
                | error e => rw [hc] at h; exact absurd h (by simp [bind, Except.bind])
                | ok u =>
                    rw [hc] at h
                    simp only [bind, Except.bind, pure, Except.pure, Except.ok.injEq] at h
                    rw [← h]
              simp [hrest]
          | cons d ds =>
              have := ih h (by simp)
              simp only [List.length_cons] at *
              omega
      · simp only [Except.ok.injEq] at h
        subst h
        simp

theorem length_rest_lt {cs : List Char} {s : Scanned} (h : nextToken cs = .ok s) (hne : cs ≠ []) :
    s.rest.length < cs.length :=
  length_rest_scanFrom_lt h hne

end CommandShell
