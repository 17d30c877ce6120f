import CommandShell.Proofs.ArrayLiterals

/-!
# `CommandShell.Proofs.Reading.Unterminated` — texts that end inside a group

A text that ends while something is open cannot be read, and the failure names the delimiter that would
close the innermost open scope. To append that delimiter closes this scope and nothing else. So whoever
appends what each failure asks for can read the text in the end, after as many failures as scopes were
open.

What is open behind a text is said in two ways. The scanners count (`Scope`); `missing` keeps the
delimiters that are missing in the order in which they have to come. A token is never inside parentheses
and braces at once, for in a group of either kind the delimiters of the other one are text, so its counts
say all that there is to know. An array literal counts parentheses and braces apart from each other.

## Contents
- `Scope.closers` and `Scope.size`, what is open by the counts, and `missing`, what is open in order.
- `Repaired`, to append what the failures name.
- `Scope.within`, the scope in a token after one more character, with `PartialToken.scope_of_step` and
  `Scope.missingAfter_closers`.
- `PartialToken.step_closer`, one delimiter appended, and `PartialToken.Takes.repaired`, all of them.
- `repaired_splitArray`.
- `unterminated_repaired`.
-/

namespace CommandShell

variable {cs : List Char} {s : Scope} {c d : Char} {ds : List Char}

/-! ## What is open -/

namespace Scope

/-- The delimiters that close what is open: the quote, then the parentheses, then the braces. -/
def closers (s : Scope) : List Char :=
  (if s.quoted then ['"'] else []) ++ List.replicate s.parens ')' ++ List.replicate s.braces '}'

/-- The number of scopes that are open. -/
def size (s : Scope) : Nat :=
  s.quoted.toNat + s.parens + s.braces

theorem length_closers (s : Scope) : s.closers.length = s.size := by
  cases hquoted : s.quoted with
  | false => simp [closers, size, hquoted]
  | true =>
      simp only [closers, size, hquoted, if_true, List.length_append, List.length_replicate,
        List.length_singleton, Bool.toNat_true]

theorem head?_closers (s : Scope) : s.closers.head? = s.closer? := by
  obtain ⟨parens, braces, quoted⟩ := s
  cases quoted <;> cases parens <;> cases braces <;> simp [closers, closer?, List.replicate_succ]

theorem closers_eq_nil_iff : s.closers = [] ↔ s.isOuter = true := by
  rw [← closer?_eq_none_iff, ← head?_closers, List.head?_eq_none_iff]

/-- The failure of a text that ends in a scope names the first of its closing delimiters. -/
theorem checkClosed_eq_error_iff {e : ShellError} :
    s.checkClosed = .error e ↔ ∃ d ds, s.closers = d :: ds ∧ e = .unexpectedEnd d := by
  unfold checkClosed
  rw [← head?_closers]
  cases s.closers <;> simp [eq_comm]

/-- Where something is open, the quote is closed first, then a parenthesis, then a brace. -/
theorem closers_eq_cons_iff :
    s.closers = d :: ds ↔
      (s.quoted = true ∧ d = '"' ∧ { s with quoted := false }.closers = ds) ∨
      (s.quoted = false ∧ 0 < s.parens ∧ d = ')' ∧ { s with parens := s.parens - 1 }.closers = ds) ∨
      (s.quoted = false ∧ s.parens = 0 ∧ 0 < s.braces ∧ d = '}' ∧
        { s with braces := s.braces - 1 }.closers = ds) := by
  obtain ⟨parens, braces, quoted⟩ := s
  cases quoted <;> cases parens <;> cases braces <;> simp [closers, List.replicate_succ, eq_comm]

end Scope

/-- The delimiters that are missing behind one more character, the innermost first. Between quotes a
    quote alone counts. The delimiter that is missing first closes its scope, and an opening one opens
    another scope unless it stands in a group of the other kind. -/
def missingAfter (missing : List Char) (c : Char) : List Char :=
  if c = '"' then if missing.head? = some '"' then missing.tail else '"' :: missing
  else if missing.head? = some '"' then missing
  else if missing.head? = some c then missing.tail
  else if c = '(' ∧ '}' ∉ missing then ')' :: missing
  else if c = '{' ∧ ')' ∉ missing then '}' :: missing
  else missing

/-- The delimiters that are missing behind a text, the innermost first. -/
def missing (cs : List Char) : List Char :=
  cs.foldl missingAfter []

/-- The text is read with this result once these delimiters have been appended: each of them is named by
    the failure to read the text with those before it. -/
inductive Repaired {α : Type} (read : List Char → Except ShellError α) :
    List Char → List Char → α → Prop where
  | done {cs a} : read cs = .ok a → Repaired read cs [] a
  | append {cs d ds a} : read cs = .error (.unexpectedEnd d) → Repaired read (cs ++ [d]) ds a →
      Repaired read cs (d :: ds) a

/-! ## Tokens -/

namespace Scope

/-- The scope in a token after one more character. In a group of either kind the delimiters of the other
    one are text, and a closing delimiter is text where it closes nothing. -/
def within (s : Scope) (c : Char) : Scope :=
  if c = '"' then { s with quoted := !s.quoted }
  else if s.quoted then s
  else if c = '(' then if 0 < s.braces then s else { s with parens := s.parens + 1 }
  else if c = ')' then if 0 < s.braces ∨ s.parens = 0 then s else { s with parens := s.parens - 1 }
  else if c = '{' then if 0 < s.parens then s else { s with braces := s.braces + 1 }
  else if c = '}' then if 0 < s.parens ∨ s.braces = 0 then s else { s with braces := s.braces - 1 }
  else s

/-- Parentheses and braces are not open at once. -/
def Exclusive (s : Scope) : Prop :=
  s.parens = 0 ∨ s.braces = 0

theorem Exclusive.within (h : s.Exclusive) (c : Char) : (s.within c).Exclusive := by
  unfold Exclusive Scope.within at *
  grind

/-- Where parentheses and braces are not open at once, the counts say what is missing, and in which
    order. -/
theorem missingAfter_closers (h : s.Exclusive) (c : Char) :
    missingAfter s.closers c = (s.within c).closers := by
  obtain ⟨parens, braces, quoted⟩ := s
  unfold missingAfter Scope.within closers Exclusive at *
  cases quoted <;> cases parens <;> cases braces <;> grind

end Scope

namespace PartialToken

variable {r r' : PartialToken}

theorem scope_of_quote (h : r.quote = .more r') :
    r'.scope = { r.scope with quoted := !r.scope.quoted } := by
  unfold quote at h
  split at h
  · cases h
    rfl
  · split at h <;> cases h
    rfl

theorem scope_of_openParen (h : r.openParen = .more r') :
    r'.scope = if 0 < r.scope.braces then r.scope else { r.scope with parens := r.scope.parens + 1 } := by
  unfold openParen at h
  split at h
  · next hgroup =>
    cases h
    exact (if_pos hgroup).symm
  · next hgroup =>
    rw [if_neg hgroup]
    split at h <;> cases h <;> rfl

theorem scope_of_closeParen (h : r.closeParen = .more r') :
    r'.scope = if 0 < r.scope.braces ∨ r.scope.parens = 0 then r.scope
      else { r.scope with parens := r.scope.parens - 1 } := by
  unfold closeParen at h
  split at h
  · next htext =>
    cases h
    exact (if_pos htext).symm
  · next htext =>
    rw [if_neg htext]
    split at h <;> cases h
    rfl

theorem scope_of_openBrace (h : r.openBrace = .more r') :
    r'.scope = if 0 < r.scope.parens then r.scope else { r.scope with braces := r.scope.braces + 1 } := by
  unfold openBrace at h
  split at h
  · next hgroup =>
    cases h
    exact (if_pos hgroup).symm
  · next hgroup =>
    rw [if_neg hgroup]
    split at h <;> cases h <;> rfl

theorem scope_of_closeBrace (h : r.closeBrace = .more r') :
    r'.scope = if 0 < r.scope.parens ∨ r.scope.braces = 0 then r.scope
      else { r.scope with braces := r.scope.braces - 1 } := by
  unfold closeBrace at h
  split at h
  · next htext =>
    cases h
    exact (if_pos htext).symm
  · next htext =>
    rw [if_neg htext]
    split at h <;> cases h
    rfl

theorem scope_of_outside (h : r.outside c = .more r') : r'.scope = r.scope := by
  unfold outside at h
  grind [push, finish]

theorem scope_of_inGroup (h : r.inGroup c = .more r') : r'.scope = r.scope := by
  unfold inGroup at h
  split at h <;> cases h <;> rfl

theorem scope_of_step (h : r.step c = .more r') : r'.scope = r.scope.within c := by
  unfold step at h
  unfold Scope.within
  grind [scope_of_quote, scope_of_openParen, scope_of_closeParen, scope_of_openBrace, scope_of_closeBrace,
    scope_of_outside, scope_of_inGroup, push]

/-- The counts of a token that has taken in a text say what is missing behind the text. -/
theorem Takes.missing (h : r.Takes cs r') (hr : r.scope.Exclusive) :
    r'.scope.Exclusive ∧ cs.foldl missingAfter r.scope.closers = r'.scope.closers := by
  induction h with
  | nil r => exact ⟨hr, rfl⟩
  | cons hstep _ ih =>
      rw [scope_of_step hstep] at ih
      rw [List.foldl_cons, Scope.missingAfter_closers hr]
      exact ih (hr.within _)

theorem Takes.nextToken_error (h : Takes {} cs r) (hopen : r.scope.closers = d :: ds) :
    nextToken cs = .error (.unexpectedEnd d) := by
  have hclosed := Scope.checkClosed_eq_error_iff.mpr ⟨d, ds, hopen, rfl⟩
  have hscan := h.scanFrom_append []
  rw [List.append_nil, scanFrom, hclosed] at hscan
  exact hscan

/-- The closing delimiter of the innermost scope ends the token if nothing else is open, and otherwise
    leaves open what was open around it. -/
theorem step_closer (hr : r.scope.Exclusive) (hopen : r.scope.closers = d :: ds) :
    (ds = [] ∧ ∃ token, r.step d = .done token false) ∨
      ds ≠ [] ∧ ∃ r', r.step d = .more r' ∧ r'.scope.closers = ds := by
  rcases Scope.closers_eq_cons_iff.mp hopen with ⟨hquoted, rfl, rfl⟩ | ⟨hquoted, hparens, rfl, rfl⟩ |
    ⟨hquoted, hparens, hbraces, rfl, rfl⟩
  · -- A quote ends the token only outside of every group; in a group it is part of the text.
    have hstep : r.step '"' = r.quote := rfl
    rw [hstep, quote, Ne, Scope.closers_eq_nil_iff, Scope.isOuter_iff, Scope.IsDirect]
    by_cases hgroup : 0 < r.scope.parens ∨ 0 < r.scope.braces
    · rw [if_pos hgroup]
      exact .inr ⟨by grind, _, rfl, by simp [push, hquoted]⟩
    · rw [if_neg hgroup, if_pos hquoted]
      exact .inl ⟨by grind, _, rfl⟩
  · -- With parentheses open no brace is, so the last parenthesis leaves nothing open.
    have hbraces : r.scope.braces = 0 := hr.resolve_left (Nat.ne_of_gt hparens)
    have hstep : r.step ')' = r.closeParen := by simp [step, hquoted]
    rw [hstep, closeParen, if_neg (by omega), Ne, Scope.closers_eq_nil_iff, Scope.isOuter_iff, Scope.IsDirect]
    by_cases hlast : r.scope.parens = 1
    · rw [if_pos hlast]
      exact .inl ⟨by simp [hlast, hbraces, hquoted], _, rfl⟩
    · rw [if_neg hlast]
      exact .inr ⟨by grind, _, rfl, rfl⟩
  · have hstep : r.step '}' = r.closeBrace := by simp [step, hquoted]
    rw [hstep, closeBrace, if_neg (by omega), Ne, Scope.closers_eq_nil_iff, Scope.isOuter_iff, Scope.IsDirect]
    by_cases hlast : r.scope.braces = 1
    · rw [if_pos hlast]
      exact .inl ⟨by simp [hlast, hparens, hquoted], _, rfl⟩
    · rw [if_neg hlast]
      exact .inr ⟨by grind, _, rfl, rfl⟩

/-- A token that is open can be read once its scopes have been closed in order. The induction is on the
    delimiters that are missing. -/
theorem Takes.repaired (h : Takes {} cs r) (hr : r.scope.Exclusive) (hopen : r.scope.closers = d :: ds) :
    ∃ token, Repaired nextToken cs (d :: ds) ⟨token, [], false⟩ := by
  induction ds generalizing cs r d with
  | nil =>
      rcases step_closer hr hopen with ⟨-, token, hdone⟩ | ⟨hne, -⟩
      · refine ⟨token, .append (h.nextToken_error hopen) (.done ?_)⟩
        exact (h.scanFrom_append [d]).trans (scanFrom_of_done hdone)
      · exact absurd rfl hne
  | cons d' ds ih =>
      rcases step_closer hr hopen with ⟨hnil, -⟩ | ⟨-, r', hmore, hopen'⟩
      · cases hnil
      · have hr' : r'.scope.Exclusive := by
          rw [scope_of_step hmore]
          exact hr.within d
        obtain ⟨token, hrepaired⟩ := ih (h.trans (.single hmore)) hr' hopen'
        exact ⟨token, .append (h.nextToken_error hopen) hrepaired⟩

end PartialToken

/-! ## Array literals -/

/-- Appending what is missing leaves the rest missing. -/
theorem Scope.closers_advance (h : s.closers = d :: ds) : (s.advance d).closers = ds := by
  rcases closers_eq_cons_iff.mp h with ⟨hquoted, rfl, hds⟩ | ⟨hquoted, -, rfl, hds⟩ |
    ⟨hquoted, -, -, rfl, hds⟩
  · simpa [advance, hquoted] using hds
  · simpa [advance, hquoted] using hds
  · simpa [advance, hquoted] using hds

theorem repaired_splitArray (h : (Scope.after {} cs).closers = ds) :
    ∃ parts, Repaired splitArray cs ds parts := by
  induction ds generalizing cs with
  | nil =>
      obtain ⟨parts, hparts⟩ := (exists_splitFrom_iff {} [] cs).mpr (Scope.closers_eq_nil_iff.mp h)
      exact ⟨parts, .done hparts⟩
  | cons d ds ih =>
      have hnext : (Scope.after {} (cs ++ [d])).closers = ds := by
        rw [Scope.after, List.foldl_append]
        exact Scope.closers_advance h
      obtain ⟨parts, hrepaired⟩ := ih hnext
      have hfails : splitArray cs = .error (.unexpectedEnd d) :=
        (splitFrom_eq_error_iff {} []).mpr (Scope.checkClosed_eq_error_iff.mpr ⟨d, ds, h, rfl⟩)
      exact ⟨parts, .append hfails hrepaired⟩

/-! ## Both scanners -/

/-- A text without a first token ends in a scope. The failure names the delimiter that closes the innermost
    one, and after as many delimiters as scopes are open, each appended because the failure before has
    named it, the text is read as one token up to its end. The same goes for a text that cannot be split,
    with the parentheses and braces counted apart from each other. -/
theorem unterminated_repaired (cs : List Char) :
    (∀ e, nextToken cs = .error e →
      ∃ r : PartialToken, PartialToken.Takes {} cs r ∧ (r.scope.parens = 0 ∨ r.scope.braces = 0) ∧
        missing cs = r.scope.closers ∧ (missing cs).length = r.scope.size ∧
        (∃ d ds, missing cs = d :: ds ∧ e = .unexpectedEnd d) ∧
        ∃ token, Repaired nextToken cs (missing cs) ⟨token, [], false⟩) ∧
    ∀ e, splitArray cs = .error e →
      ∃ s : Scope, s = Scope.after {} cs ∧ s.closers.length = s.size ∧
        (∃ d ds, s.closers = d :: ds ∧ e = .unexpectedEnd d) ∧
        ∃ parts, Repaired splitArray cs s.closers parts := by
  constructor
  · intro e he
    obtain ⟨r, htakes, hopen⟩ := PartialToken.takes_of_error he
    obtain ⟨hexclusive, hmissing⟩ := htakes.missing (.inl rfl)
    replace hmissing : missing cs = r.scope.closers := hmissing
    obtain ⟨d, ds, hclosers, rfl⟩ := Scope.checkClosed_eq_error_iff.mp hopen
    rw [hmissing]
    refine ⟨r, htakes, hexclusive, rfl, r.scope.length_closers, ⟨d, ds, hclosers, rfl⟩, ?_⟩
    rw [hclosers]
    exact htakes.repaired hexclusive hclosers
  · intro e he
    have hopen := Scope.checkClosed_eq_error_iff.mp ((splitFrom_eq_error_iff {} []).mp he)
    exact ⟨_, rfl, Scope.length_closers _, hopen, repaired_splitArray rfl⟩

/-- In parentheses a brace is text for a token, but an array literal counts it. -/
theorem unterminated_repaired_nested :
    (∃ token, Repaired nextToken "(\x7b\"".toList ['"', ')'] ⟨token, [], false⟩) ∧
      ∃ parts, Repaired splitArray "(\x7b\"".toList ['"', ')', '}'] parts := by
  obtain ⟨htoken, hsplit⟩ := unterminated_repaired "(\x7b\"".toList
  have hmissing : missing "(\x7b\"".toList = ['"', ')'] := by decide
  obtain ⟨r, -, -, -, -, -, hrepaired⟩ := htoken (.unexpectedEnd '"') rfl
  rw [hmissing] at hrepaired
  obtain ⟨s, rfl, -, -, hparts⟩ := hsplit (.unexpectedEnd '"') rfl
  exact ⟨hrepaired, hparts⟩

end CommandShell
