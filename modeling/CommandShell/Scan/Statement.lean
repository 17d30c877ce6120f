import CommandShell.Scan.Token

/-!
# `CommandShell.Scan.Statement` — statements and programs

A statement is every token up to a semicolon outside all groups or up to the end of the input; blank
tokens carry nothing and are dropped. A program is the list of statements of an input, up to the first
one that cannot be read.

## Contents
- `nextStatement`, with the progress it makes (`length_rest_nextStatement_lt`).
- `Program` and `Program.ofChars`.
-/

namespace CommandShell

/-- The tokens of a statement as they were read, without the blank ones, and the input behind it. -/
structure Statement where
  scanned : List Scanned
  rest : List Char
deriving DecidableEq, Repr

/-- The tokens of a statement. -/
def Statement.tokens (t : Statement) : List Token :=
  t.scanned.map (·.token)

/-- Puts a token in front of those behind it, unless it is blank. -/
def Scanned.consTo (s : Scanned) (later : List Scanned) : List Scanned :=
  if s.token.kind = .blank then later else s :: later

/-- Reads the first statement of an input. -/
def nextStatement (cs : List Char) : Except ShellError Statement :=
  match h : nextToken cs with
  | .error e => .error e
  | .ok s =>
      if hdone : s.endsStatement ∨ s.rest = [] then .ok ⟨s.consTo [], s.rest⟩
      else
        have : s.rest.length < cs.length := length_rest_lt h (by
          intro hnil
          rw [not_or] at hdone
          subst hnil
          simp [nextToken, scanFrom, Scope.checkClosed, Scope.closer?, bind, Except.bind, pure,
            Except.pure] at h
          exact hdone.2 (by rw [← h]))
        match nextStatement s.rest with
        | .error e => .error e
        | .ok t => .ok { t with scanned := s.consTo t.scanned }
termination_by cs.length

/-! ## Progress -/

theorem length_rest_nextStatement_lt {cs : List Char} {t : Statement}
    (h : nextStatement cs = .ok t) (hne : cs ≠ []) : t.rest.length < cs.length := by
  induction hn : cs.length using Nat.strongRecOn generalizing cs t with
  | ind n ih =>
      subst hn
      rw [nextStatement] at h
      split at h
      · exact absurd h (by simp)
      · next s hs =>
          have hlt := length_rest_lt hs hne
          split at h
          · simp only [Except.ok.injEq] at h
            subst h
            exact hlt
          · next hdone =>
              rw [not_or] at hdone
              split at h
              · exact absurd h (by simp)
              · next u hu =>
                  simp only [Except.ok.injEq] at h
                  have := ih s.rest.length hlt hu hdone.2 rfl
                  subst h
                  exact Nat.lt_trans this hlt

/-! ## Programs -/

/-- The statements of an input in order. When one of them cannot be read, those before it still run,
    and then the failure arises. -/
structure Program where
  statements : List (List Token)
  failure? : Option ShellError := none
deriving DecidableEq, Repr

namespace Program

/-- Puts a statement in front of a program. -/
def cons (tokens : List Token) (p : Program) : Program :=
  { p with statements := tokens :: p.statements }

/-- Reads all statements of an input. -/
def ofChars (cs : List Char) : Program :=
  if hne : cs = [] then ⟨[], none⟩
  else
    match h : nextStatement cs with
    | .error e => ⟨[], some e⟩
    | .ok t =>
        have : t.rest.length < cs.length := length_rest_nextStatement_lt h hne
        cons t.tokens (ofChars t.rest)
termination_by cs.length

end Program
end CommandShell
