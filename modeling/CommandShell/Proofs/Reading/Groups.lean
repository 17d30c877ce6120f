import CommandShell.Proofs.Reading.Token

/-!
# `CommandShell.Proofs.Reading.Groups` — what may stand in a group

Parentheses and braces enclose a text in the same way. Inside of a group only its own delimiters count,
and those in quotes do not; the group ends where the first one of them is closed. So a text may stand in
a group exactly if it is balanced: its quotes are paired, and the delimiters outside of them are nested.

That is a grammar, and the reader is a counter. The two meet in `Bracket.behind`, which goes through a
text as the reader does and gives up where the text closes more than it has opened.

## Contents
- `Bracket` and `Bracket.Balanced`, the grammar.
- `Bracket.behind` and `Bracket.balanced_iff`, the grammar as a count.
- `PartialToken.step_inside`, one character in a group, and `Bracket.nextToken_enclosed_iff`.
- `nextToken_group_iff`, the groups one by one.
-/

namespace CommandShell

/-- The delimiters that enclose a group. -/
inductive Bracket where
  | paren
  | brace
deriving DecidableEq, Repr

namespace Bracket

def opening : Bracket → Char
  | paren => '('
  | brace => '{'

def closing : Bracket → Char
  | paren => ')'
  | brace => '}'

theorem opening_ne_quote (b : Bracket) : b.opening ≠ '"' := by
  cases b <;> decide

theorem closing_ne_quote (b : Bracket) : b.closing ≠ '"' := by
  cases b <;> decide

theorem closing_ne_opening (b : Bracket) : b.closing ≠ b.opening := by
  cases b <;> decide

/-! ## Balanced texts -/

/-- The quotes of the text are paired, and the delimiters outside of them are nested. -/
inductive Balanced (b : Bracket) : List Char → Prop where
  | nil : Balanced b []
  | char {c cs} : c ≠ '"' → c ≠ b.opening → c ≠ b.closing → Balanced b cs → Balanced b (c :: cs)
  | quotes {inside cs} : '"' ∉ inside → Balanced b cs → Balanced b ('"' :: (inside ++ '"' :: cs))
  | group {inside cs} : Balanced b inside → Balanced b cs →
      Balanced b (b.opening :: (inside ++ b.closing :: cs))

variable {b : Bracket} {c : Char} {cs ds : List Char}

theorem Balanced.append (h : b.Balanced cs) (h' : b.Balanced ds) : b.Balanced (cs ++ ds) := by
  induction h with
  | nil => exact h'
  | char hquote hopen hclose _ ih => exact .char hquote hopen hclose ih
  | quotes hinside _ ih => simpa using Balanced.quotes hinside ih
  | group hinside _ _ ih => simpa using Balanced.group hinside ih

theorem balanced_of_plain (h : ∀ c ∈ cs, c ≠ '"' ∧ c ≠ b.opening ∧ c ≠ b.closing) : b.Balanced cs := by
  induction cs with
  | nil => exact .nil
  | cons c cs ih =>
      rw [List.forall_mem_cons] at h
      obtain ⟨⟨hquote, hopen, hclose⟩, h⟩ := h
      exact .char hquote hopen hclose (ih h)

/-! ## Counting -/

/-- What is open at a place in a text: some groups of one kind, and a quote or none. -/
structure Nesting where
  depth : Nat := 0
  quoted : Bool := false
deriving DecidableEq, Repr

/-- What is open behind one more character. A delimiter that closes nothing leaves the text
    unbalanced. -/
def after (b : Bracket) (n : Nesting) (c : Char) : Option Nesting :=
  if c = '"' then some { n with quoted := !n.quoted }
  else if n.quoted then some n
  else if c = b.opening then some { n with depth := n.depth + 1 }
  else if c = b.closing then if n.depth = 0 then none else some { n with depth := n.depth - 1 }
  else some n

/-- What is open behind a text. -/
def behind (b : Bracket) (n : Nesting) (cs : List Char) : Option Nesting :=
  cs.foldlM b.after n

variable {n n' : Nesting}

theorem after_quote (b : Bracket) (n : Nesting) : b.after n '"' = some { n with quoted := !n.quoted } :=
  if_pos rfl

theorem after_quoted {depth : Nat} (hc : c ≠ '"') : b.after ⟨depth, true⟩ c = some ⟨depth, true⟩ := by
  simp [after, hc]

theorem after_opening (depth : Nat) : b.after ⟨depth, false⟩ b.opening = some ⟨depth + 1, false⟩ := by
  simp [after, b.opening_ne_quote]

theorem after_closing (depth : Nat) : b.after ⟨depth + 1, false⟩ b.closing = some ⟨depth, false⟩ := by
  simp [after, b.closing_ne_quote, b.closing_ne_opening]

theorem after_char {depth : Nat} (hquote : c ≠ '"') (hopen : c ≠ b.opening) (hclose : c ≠ b.closing) :
    b.after ⟨depth, false⟩ c = some ⟨depth, false⟩ := by
  simp [after, hquote, hopen, hclose]

/-- Only a delimiter with nothing open in front of it closes more than the text has opened. -/
theorem after_eq_none_iff : b.after n c = none ↔ c = b.closing ∧ n = {} := by
  obtain ⟨depth, quoted⟩ := n
  unfold after
  by_cases hquote : c = '"'
  · simp [hquote, b.closing_ne_quote.symm]
  by_cases hopen : c = b.opening
  · cases quoted <;> simp [hopen, b.opening_ne_quote, b.closing_ne_opening.symm]
  by_cases hclose : c = b.closing <;> cases quoted <;>
    simp [hquote, hopen, hclose, b.closing_ne_quote, b.closing_ne_opening]

theorem behind_nil (b : Bracket) (n : Nesting) : b.behind n [] = some n := rfl

theorem behind_cons (b : Bracket) (n : Nesting) (c : Char) (cs : List Char) :
    b.behind n (c :: cs) = (b.after n c).bind (b.behind · cs) := by
  rw [behind, List.foldlM_cons]
  rfl

theorem behind_append (b : Bracket) (n : Nesting) (cs ds : List Char) :
    b.behind n (cs ++ ds) = (b.behind n cs).bind (b.behind · ds) := by
  rw [behind, List.foldlM_append]
  rfl

theorem behind_inQuotes {depth : Nat} (h : '"' ∉ cs) : b.behind ⟨depth, true⟩ cs = some ⟨depth, true⟩ := by
  induction cs with
  | nil => rfl
  | cons c cs ih =>
      rw [List.mem_cons, not_or] at h
      rw [behind_cons, after_quoted (Ne.symm h.1), Option.bind_some, ih h.2]

/-- A balanced text closes what it opens and nothing else. -/
theorem Balanced.behind_eq (h : b.Balanced cs) (depth : Nat) :
    b.behind ⟨depth, false⟩ cs = some ⟨depth, false⟩ := by
  induction h generalizing depth with
  | nil => rfl
  | char hquote hopen hclose _ ih =>
      rw [behind_cons, after_char hquote hopen hclose, Option.bind_some, ih]
  | quotes hinside _ ih =>
      rw [behind_cons, after_quote, Option.bind_some, behind_append, Bool.not_false,
        behind_inQuotes hinside, Option.bind_some, behind_cons, after_quote, Option.bind_some,
        Bool.not_true, ih]
  | group _ _ ihinside ih =>
      rw [behind_cons, after_opening, Option.bind_some, behind_append, ihinside, Option.bind_some,
        behind_cons, after_closing, Option.bind_some, ih]

/-- The text closes this many groups that are open in front of it, and is balanced between their
    delimiters. -/
def Closes (b : Bracket) : Nat → List Char → Prop
  | 0, cs => b.Balanced cs
  | depth + 1, cs => ∃ inside rest, cs = inside ++ b.closing :: rest ∧ b.Balanced inside ∧
      b.Closes depth rest

theorem Closes.prepend {depth : Nat} (h : b.Balanced cs) (h' : b.Closes depth ds) :
    b.Closes depth (cs ++ ds) := by
  cases depth with
  | zero => exact h.append h'
  | succ depth =>
      obtain ⟨inside, rest, rfl, hinside, hrest⟩ := h'
      exact ⟨cs ++ inside, rest, by rw [List.append_assoc], h.append hinside, hrest⟩

/-- A text behind which nothing is open any more closes the quote and the groups that are open in front
    of it. -/
theorem closes_of_behind (h : b.behind n cs = some {}) :
    (n.quoted = false → b.Closes n.depth cs) ∧
      (n.quoted = true → ∃ inside rest, cs = inside ++ '"' :: rest ∧ '"' ∉ inside ∧
        b.Closes n.depth rest) := by
  induction cs generalizing n with
  | nil =>
      cases h
      exact ⟨fun _ => .nil, fun hquoted => by cases hquoted⟩
  | cons c cs ih =>
      obtain ⟨depth, quoted⟩ := n
      rw [behind_cons] at h
      obtain ⟨n', hafter, hrest⟩ := Option.bind_eq_some_iff.mp h
      obtain ⟨hplain, hquoted⟩ := ih hrest
      by_cases hquote : c = '"'
      · -- A quote ends here, or it begins and ends further on.
        subst hquote
        rw [after_quote] at hafter
        cases hafter
        cases quoted with
        | true => exact ⟨by simp, fun _ => ⟨[], cs, rfl, by simp, hplain rfl⟩⟩
        | false =>
            refine ⟨fun _ => ?_, by simp⟩
            obtain ⟨inside, rest, rfl, hinside, hcloses⟩ := hquoted rfl
            simpa using Closes.prepend (.quotes hinside .nil) hcloses
      cases quoted with
      | true =>
          rw [after_quoted hquote] at hafter
          cases hafter
          refine ⟨by simp, fun _ => ?_⟩
          obtain ⟨inside, rest, rfl, hinside, hcloses⟩ := hquoted rfl
          exact ⟨c :: inside, rest, rfl, by simp [Ne.symm hquote, hinside], hcloses⟩
      | false =>
          refine ⟨fun _ => ?_, by simp⟩
          by_cases hopen : c = b.opening
          · subst hopen
            rw [after_opening] at hafter
            cases hafter
            obtain ⟨inside, rest, rfl, hinside, hcloses⟩ := hplain rfl
            simpa using Closes.prepend (.group hinside .nil) hcloses
          by_cases hclose : c = b.closing
          · subst hclose
            cases depth with
            | zero => rw [after_eq_none_iff.mpr ⟨rfl, rfl⟩] at hafter; cases hafter
            | succ depth =>
                rw [after_closing] at hafter
                cases hafter
                exact ⟨[], cs, rfl, .nil, hplain rfl⟩
          · rw [after_char hquote hopen hclose] at hafter
            cases hafter
            exact Closes.prepend (.char hquote hopen hclose .nil) (hplain rfl)

/-- A text is balanced if nothing is open behind it and it closes nothing that it has not opened. -/
theorem balanced_iff : b.Balanced cs ↔ b.behind {} cs = some {} :=
  ⟨fun h => h.behind_eq 0, fun h => (closes_of_behind h).1 rfl⟩

instance : DecidablePred b.Balanced :=
  fun _ => decidable_of_iff _ balanced_iff.symm

/-- Without any of the delimiters only the quotes count. The quote that may be open in front of the text
    is one of them. -/
theorem behind_of_unbracketed {quoted : Bool} (h : ∀ c ∈ cs, c ≠ b.opening ∧ c ≠ b.closing)
    (hquotes : cs.count '"' % 2 = 1 ↔ quoted = true) : b.behind ⟨0, quoted⟩ cs = some {} := by
  induction cs generalizing quoted with
  | nil => simpa [behind_nil] using hquotes
  | cons c cs ih =>
      rw [List.forall_mem_cons] at h
      obtain ⟨⟨hopen, hclose⟩, h⟩ := h
      by_cases hquote : c = '"'
      · subst hquote
        rw [List.count_cons_self] at hquotes
        rw [behind_cons, after_quote, Option.bind_some]
        exact ih h (by cases quoted <;> simp at hquotes ⊢ <;> omega)
      · rw [List.count_cons_of_ne hquote] at hquotes
        have hafter : b.after ⟨0, quoted⟩ c = some ⟨0, quoted⟩ := by
          simp [after, hquote, hopen, hclose]
        rw [behind_cons, hafter, Option.bind_some]
        exact ih h hquotes

/-- So such a text is balanced if its quotes are paired. -/
theorem balanced_of_paired (h : ∀ c ∈ cs, c ≠ b.opening ∧ c ≠ b.closing)
    (hpaired : cs.count '"' % 2 = 0) : b.Balanced cs :=
  balanced_iff.mpr (behind_of_unbracketed h (by simp [hpaired]))

/-! ## Commas -/

/-- A comma of the text stands where nothing is open. -/
def CommaFrom (b : Bracket) (n : Nesting) (cs : List Char) : Prop :=
  ∃ before rest, cs = before ++ ',' :: rest ∧ b.behind n before = some {}

/-- A comma of the text stands outside of its quotes and groups. -/
def OuterComma (b : Bracket) (cs : List Char) : Prop :=
  ∃ before rest, cs = before ++ ',' :: rest ∧ b.Balanced before

theorem outerComma_iff : b.OuterComma cs ↔ b.CommaFrom {} cs := by
  simp only [OuterComma, CommaFrom, balanced_iff]

theorem not_commaFrom_nil : ¬ b.CommaFrom n [] := by
  rintro ⟨before, rest, hcs, -⟩
  simp at hcs

theorem commaFrom_cons (hafter : b.after n c = some n') :
    b.CommaFrom n (c :: cs) ↔ (c = ',' ∧ n = {}) ∨ b.CommaFrom n' cs := by
  constructor
  · rintro ⟨_ | ⟨d, before⟩, rest, hcs, hbehind⟩
    · rw [List.nil_append, List.cons.injEq] at hcs
      rw [behind_nil, Option.some.injEq] at hbehind
      exact .inl ⟨hcs.1, hbehind⟩
    · rw [List.cons_append, List.cons.injEq] at hcs
      obtain ⟨rfl, rfl⟩ := hcs
      rw [behind_cons, hafter, Option.bind_some] at hbehind
      exact .inr ⟨before, rest, rfl, hbehind⟩
  · rintro (⟨rfl, rfl⟩ | ⟨before, rest, rfl, hbehind⟩)
    · exact ⟨[], cs, rfl, rfl⟩
    · exact ⟨c :: before, rest, rfl, by rw [behind_cons, hafter, Option.bind_some, hbehind]⟩

/-- In quotes a comma is nothing but text. -/
theorem commaFrom_append_quoted {depth : Nat} (h : '"' ∉ cs) :
    b.CommaFrom ⟨depth, true⟩ (cs ++ ds) ↔ b.CommaFrom ⟨depth, true⟩ ds := by
  induction cs with
  | nil => rfl
  | cons c cs ih =>
      rw [List.mem_cons, not_or] at h
      rw [List.cons_append, commaFrom_cons (after_quoted (Ne.symm h.1)), ih h.2]
      simp

/-- In a group a comma is, too, as far as the group goes. -/
theorem Balanced.commaFrom_append (h : b.Balanced cs) (depth : Nat) (ds : List Char) :
    b.CommaFrom ⟨depth + 1, false⟩ (cs ++ ds) ↔ b.CommaFrom ⟨depth + 1, false⟩ ds := by
  induction h generalizing depth ds with
  | nil => rfl
  | char hquote hopen hclose _ ih =>
      rw [List.cons_append, commaFrom_cons (after_char hquote hopen hclose), ih]
      simp
  | quotes hinside _ ih =>
      rw [List.cons_append, List.append_assoc, List.cons_append, commaFrom_cons (after_quote b _),
        Bool.not_false, commaFrom_append_quoted hinside, commaFrom_cons (after_quote b _), Bool.not_true, ih]
      simp
  | group _ _ ihinside ih =>
      rw [List.cons_append, List.append_assoc, List.cons_append, commaFrom_cons (after_opening _),
        ihinside, commaFrom_cons (after_closing _), ih]
      simp

/-- A text between quotes has no comma outside of them. -/
theorem not_outerComma_inQuotes (b : Bracket) (h : '"' ∉ cs) : ¬ b.OuterComma ('"' :: (cs ++ ['"'])) := by
  rw [outerComma_iff, commaFrom_cons (after_quote b _), Bool.not_false, commaFrom_append_quoted h,
    commaFrom_cons (after_quote b _)]
  simp [not_commaFrom_nil]

/-- A group has no comma outside of itself. -/
theorem Balanced.not_outerComma_enclosed (h : b.Balanced cs) :
    ¬ b.OuterComma (b.opening :: (cs ++ [b.closing])) := by
  rw [outerComma_iff, commaFrom_cons (after_opening _), h.commaFrom_append,
    commaFrom_cons (after_closing _)]
  cases b <;> simp [not_commaFrom_nil, opening]

end Bracket

/-! ## Reading in a group -/

namespace Bracket

/-- The scope in a group, with what is open of its text. -/
def inside (b : Bracket) (n : Nesting) : Scope :=
  match b with
  | paren => ⟨n.depth + 1, 0, n.quoted⟩
  | brace => ⟨0, n.depth + 1, n.quoted⟩

/-- The kind of a token behind one more character of its group. A comma directly inside of parentheses
    makes them an array literal. -/
def kindAfter (b : Bracket) (n : Nesting) (c : Char) (kind : TokenKind) : TokenKind :=
  if b = .paren ∧ c = ',' ∧ n = {} then .literal else kind

theorem isOuter_inside (b : Bracket) (n : Nesting) : (b.inside n).isOuter = false := by
  cases b <;> simp [inside, Scope.isOuter]

end Bracket

namespace PartialToken

variable {r : PartialToken} {b : Bracket} {n : Bracket.Nesting} {c : Char} {cs rest : List Char}

/-- In a group a character belongs to the text, unless it closes the group. -/
theorem step_inside (hscope : r.scope = b.inside n) (hc : c ≠ '\r' ∧ c ≠ '\n') :
    r.step c =
      match b.after n c with
      | some n' => .more ⟨b.inside n', b.kindAfter n c r.kind, r.text.push c⟩
      | none => .done ⟨r.kind, r.text⟩ false := by
  obtain ⟨scope, kind, text⟩ := r
  obtain ⟨depth, quoted⟩ := n
  cases hscope
  rw [step, if_neg (by simp [hc])]
  by_cases hquote : c = '"'
  · subst hquote
    cases b <;> simp [quote, push, Bracket.after_quote, Bracket.inside, Bracket.kindAfter]
  rw [if_neg hquote]
  cases quoted with
  | true =>
      rw [Bracket.after_quoted hquote]
      cases b <;> simp [push, Bracket.inside, Bracket.kindAfter]
  | false =>
      rw [if_neg (by cases b <;> simp)]
      by_cases hopen : c = b.opening
      · subst hopen
        rw [Bracket.after_opening]
        cases b <;> simp [Bracket.opening, openParen, openBrace, push, Bracket.inside, Bracket.kindAfter]
      by_cases hclose : c = b.closing
      · subst hclose
        cases depth with
        | zero =>
            rw [Bracket.after_eq_none_iff.mpr ⟨rfl, rfl⟩]
            cases b <;> simp [Bracket.closing, closeParen, closeBrace, finish]
        | succ depth =>
            rw [Bracket.after_closing]
            cases b <;> simp [Bracket.closing, closeParen, closeBrace, push, Bracket.inside,
              Bracket.kindAfter]
      · -- The delimiters of the other kind are characters like any other.
        rw [Bracket.after_char hquote hopen hclose]
        cases b with
        | paren =>
            have hparens : c ≠ '(' ∧ c ≠ ')' := ⟨hopen, hclose⟩
            by_cases hbraces : c = '{' ∨ c = '}'
            · rcases hbraces with rfl | rfl <;>
                simp [openBrace, closeBrace, push, Bracket.inside, Bracket.kindAfter]
            · rw [not_or] at hbraces
              by_cases hcomma : c = ',' ∧ depth = 0 <;>
                simp [hparens, hbraces, Scope.isOuter, inGroup, push, Bracket.inside, Bracket.kindAfter,
                  hcomma]
        | brace =>
            have hbraces : c ≠ '{' ∧ c ≠ '}' := ⟨hopen, hclose⟩
            by_cases hparens : c = '(' ∨ c = ')'
            · rcases hparens with rfl | rfl <;>
                simp [openParen, closeParen, push, Bracket.inside, Bracket.kindAfter]
            · rw [not_or] at hparens
              simp [hparens, hbraces, Scope.isOuter, inGroup, push, Bracket.inside, Bracket.kindAfter]

/-- A text behind which the group is as it was in front of it ends where the group is closed. Its commas
    say what is made of it. -/
theorem exists_scanFrom_inside (hscope : r.scope = b.inside n) (hbreaks : ∀ c ∈ cs, c ≠ '\r' ∧ c ≠ '\n')
    (hbehind : b.behind n cs = some {}) (rest : List Char) :
    ∃ kind, scanFrom r (cs ++ b.closing :: rest) =
        .ok ⟨⟨kind, (r.append cs).text⟩, rest, false⟩ ∧
      (b = .paren ∧ b.CommaFrom n cs → kind = .literal) ∧
      (¬ (b = .paren ∧ b.CommaFrom n cs) → kind = r.kind) := by
  induction cs generalizing r n with
  | nil =>
      have hn : n = {} := Option.some.inj hbehind
      have hbreak : b.closing ≠ '\r' ∧ b.closing ≠ '\n' := by cases b <;> decide
      have hstep := step_inside hscope hbreak
      rw [Bracket.after_eq_none_iff.mpr ⟨rfl, hn⟩] at hstep
      refine ⟨r.kind, ?_, fun h => absurd h.2 Bracket.not_commaFrom_nil, fun _ => rfl⟩
      rw [List.nil_append, scanFrom_of_done hstep, append_nil]
  | cons c cs ih =>
      rw [List.forall_mem_cons] at hbreaks
      rw [Bracket.behind_cons] at hbehind
      obtain ⟨n', hafter, hbehind⟩ := Option.bind_eq_some_iff.mp hbehind
      have hstep := step_inside hscope hbreaks.1
      rw [hafter] at hstep
      obtain ⟨kind, hscan, hcomma, hplain⟩ :=
        ih (r := ⟨b.inside n', b.kindAfter n c r.kind, r.text.push c⟩) rfl hbreaks.2 hbehind
      have htext : (r.append (c :: cs)).text = r.text.push c ++ String.ofList cs :=
        congrArg text (push_append r c cs).symm
      refine ⟨kind, ?_, ?_, ?_⟩
      · rw [List.cons_append, scanFrom_of_more hstep, hscan, htext]
        rfl
      · rw [Bracket.commaFrom_cons hafter]
        rintro ⟨hb, hfirst | hlater⟩
        · by_cases hlater : b.CommaFrom n' cs
          · exact hcomma ⟨hb, hlater⟩
          · rw [hplain fun h => hlater h.2]
            exact if_pos ⟨hb, hfirst⟩
        · exact hcomma ⟨hb, hlater⟩
      · rw [Bracket.commaFrom_cons hafter]
        intro hnone
        rw [hplain fun h => hnone ⟨h.1, .inr h.2⟩]
        exact if_neg fun h => hnone ⟨h.1, .inl h.2⟩

theorem rest_ne_of_scanFrom {s : Scanned} (hscope : r.scope.isOuter = false)
    (hscan : scanFrom r cs = .ok s) : s.rest ≠ cs := by
  rintro rfl
  by_cases hnil : s.rest = []
  · rw [hnil, scanFrom_nil_eq_ok_iff, hscope] at hscan
    cases hscan.1
  · exact absurd (length_rest_scanFrom_lt hscan hnil) (Nat.lt_irrefl _)

/-- Where the token ends with a delimiter of its group, the text in front of that is as a group has to
    be. -/
theorem behind_of_scanFrom {s : Scanned} (hscope : r.scope = b.inside n)
    (hbreaks : ∀ c ∈ cs, c ≠ '\r' ∧ c ≠ '\n') (hscan : scanFrom r (cs ++ b.closing :: rest) = .ok s)
    (hrest : s.rest = rest) : b.behind n cs = some {} := by
  induction cs generalizing r n with
  | nil =>
      have hbreak : b.closing ≠ '\r' ∧ b.closing ≠ '\n' := by cases b <;> decide
      have hstep := step_inside hscope hbreak
      cases hafter : b.after n b.closing with
      | none => rw [Bracket.behind_nil, (Bracket.after_eq_none_iff.mp hafter).2]
      | some n' =>
          -- The delimiter closes another group, and the token goes on behind it.
          rw [hafter] at hstep
          rw [List.nil_append, scanFrom_of_more hstep] at hscan
          exact absurd hrest (rest_ne_of_scanFrom (b.isOuter_inside n') hscan)
  | cons c cs ih =>
      rw [List.forall_mem_cons] at hbreaks
      have hstep := step_inside hscope hbreaks.1
      rw [List.cons_append] at hscan
      rw [Bracket.behind_cons]
      cases hafter : b.after n c with
      | none =>
          -- The token has ended in front of the rest.
          rw [hafter] at hstep
          rw [scanFrom_of_done hstep] at hscan
          cases hscan
          have hlength := congrArg List.length hrest
          simp only [List.length_append, List.length_cons] at hlength
          omega
      | some n' =>
          rw [hafter] at hstep
          rw [scanFrom_of_more hstep] at hscan
          exact ih rfl hbreaks.2 hscan

end PartialToken

/-! ## Groups -/

/-- The kind of a token that begins with a group. -/
def Bracket.kind : Bracket → TokenKind
  | paren => .subEval
  | brace => .literal

/-- A group is one token if the text in it has no line break and is balanced, and otherwise it is not a
    token with this text in front of this rest. -/
theorem nextToken_enclosed_iff (b : Bracket) (w : String) (rest : List Char) (kind : TokenKind)
    (endsStatement : Bool) :
    nextToken (b.opening :: (w.toList ++ b.closing :: rest)) = .ok ⟨⟨kind, w⟩, rest, endsStatement⟩ ↔
      ((∀ c ∈ w.toList, c ≠ '\r' ∧ c ≠ '\n') ∧ b.Balanced w.toList) ∧
        (b.OuterComma w.toList ∧ kind = .literal ∨ ¬ b.OuterComma w.toList ∧ kind = b.kind) ∧
          endsStatement = false := by
  let r : PartialToken := { scope := b.inside {}, kind := b.kind }
  have hopen : PartialToken.step {} b.opening = .more r := by cases b <;> rfl
  rw [nextToken, PartialToken.scanFrom_of_more hopen, Bracket.balanced_iff, Bracket.outerComma_iff]
  have hread : (∀ c ∈ w.toList, c ≠ '\r' ∧ c ≠ '\n') → b.behind {} w.toList = some {} →
      ∃ kind', scanFrom r (w.toList ++ b.closing :: rest) = .ok ⟨⟨kind', w⟩, rest, false⟩ ∧
        (kind = kind' ↔ b.CommaFrom {} w.toList ∧ kind = .literal ∨
          ¬ b.CommaFrom {} w.toList ∧ kind = b.kind) := by
    intro hbreaks hbehind
    obtain ⟨kind', hscan, hcomma, hplain⟩ :=
      PartialToken.exists_scanFrom_inside (r := r) rfl hbreaks hbehind rest
    refine ⟨kind', by simpa [r] using hscan, ?_⟩
    by_cases h : b.CommaFrom {} w.toList
    · -- Between braces a token is a literal anyway.
      have hkind : kind' = .literal := by
        cases b with
        | paren => exact hcomma ⟨rfl, h⟩
        | brace => exact hplain (by simp)
      simp [h, hkind]
    · simp [h, hplain fun hb => h hb.2, r]
  constructor
  · intro hscan
    have hnext : nextToken (b.opening :: (w.toList ++ b.closing :: rest)) =
        .ok ⟨⟨kind, w⟩, rest, endsStatement⟩ := by
      rw [nextToken, PartialToken.scanFrom_of_more hopen, hscan]
    have hbreaks := (text_of_nextToken hnext).1
    have hbehind := PartialToken.behind_of_scanFrom (r := r) rfl hbreaks hscan rfl
    obtain ⟨kind', hscan', hkind⟩ := hread hbreaks hbehind
    rw [hscan] at hscan'
    cases hscan'
    exact ⟨⟨hbreaks, hbehind⟩, hkind.mp rfl, rfl⟩
  · rintro ⟨⟨hbreaks, hbehind⟩, hcomma, rfl⟩
    obtain ⟨kind', hscan, hkind⟩ := hread hbreaks hbehind
    rw [hscan, hkind.mpr hcomma]

/-- A text between quotes ends at the next quote. -/
theorem nextToken_inQuotes_iff (w : String) (rest : List Char) (kind : TokenKind)
    (endsStatement : Bool) :
    nextToken ('"' :: (w.toList ++ '"' :: rest)) = .ok ⟨⟨kind, w⟩, rest, endsStatement⟩ ↔
      (∀ c ∈ w.toList, c ≠ '\r' ∧ c ≠ '\n' ∧ c ≠ '"') ∧ kind = .literal ∧ endsStatement = false := by
  have hread : ∀ {cs : List Char} (ds : List Char), '"' ∉ cs →
      nextToken ('"' :: (cs ++ '"' :: ds)) = .ok ⟨⟨.literal, String.ofList (unbroken cs)⟩, ds, false⟩ := by
    intro cs ds h
    have hscan := (PartialToken.ends_quoted h).scanFrom_append ds
    rw [nextToken]
    simpa using hscan
  constructor
  · intro hscan
    have hbreaks := (text_of_nextToken hscan).1
    have hquote : '"' ∉ w.toList := by
      intro hmem
      obtain ⟨before, behind, hw, hbefore⟩ := List.eq_append_cons_of_mem hmem
      -- The token ends at the first quote of the text.
      rw [hw, List.append_assoc, List.cons_append, hread _ hbefore, Except.ok.injEq,
        Scanned.mk.injEq] at hscan
      have hlength := congrArg List.length hscan.2.1
      simp only [List.length_append, List.length_cons] at hlength
      omega
    rw [hread rest hquote, Except.ok.injEq, Scanned.mk.injEq, Token.mk.injEq] at hscan
    obtain ⟨⟨hkind, -⟩, -, hends⟩ := hscan
    exact ⟨fun c hc => ⟨(hbreaks c hc).1, (hbreaks c hc).2, fun h => hquote (h ▸ hc)⟩,
      hkind.symm, hends.symm⟩
  · rintro ⟨hplain, rfl, rfl⟩
    have hbreaks : unbroken w.toList = w.toList :=
      unbroken_eq_self_iff.mpr fun c hc => ⟨(hplain c hc).1, (hplain c hc).2.1⟩
    rw [hread rest fun hquote => (hplain _ hquote).2.2 rfl, hbreaks, String.ofList_toList]

/-- Between braces a token is a literal, with commas or without. -/
theorem nextToken_inBraces_iff (w : String) (rest : List Char) (kind : TokenKind)
    (endsStatement : Bool) :
    nextToken ('{' :: (w.toList ++ '}' :: rest)) = .ok ⟨⟨kind, w⟩, rest, endsStatement⟩ ↔
      ((∀ c ∈ w.toList, c ≠ '\r' ∧ c ≠ '\n') ∧ Bracket.brace.Balanced w.toList) ∧
        kind = .literal ∧ endsStatement = false := by
  have henclosed := nextToken_enclosed_iff .brace w rest kind endsStatement
  rwa [Bracket.kind, ← or_and_right, eq_true (Classical.em _), true_and] at henclosed

/-- What a group at the beginning of an input is read as. In braces a text without line breaks comes back,
    and all of the input behind it, if the text is balanced in braces; it is a literal. In parentheses it
    comes back if it is balanced in parentheses; it is a literal if a comma of it stands outside of quotes
    and parentheses, and otherwise a sub-evaluation. Between quotes it comes back as a literal if it has
    no quote. -/
theorem nextToken_group_iff (w : String) (rest : List Char) (kind : TokenKind) (endsStatement : Bool) :
    (nextToken ('{' :: (w.toList ++ '}' :: rest)) = .ok ⟨⟨kind, w⟩, rest, endsStatement⟩ ↔
      ((∀ c ∈ w.toList, c ≠ '\r' ∧ c ≠ '\n') ∧ Bracket.brace.Balanced w.toList) ∧
        kind = .literal ∧ endsStatement = false) ∧
    (nextToken ('(' :: (w.toList ++ ')' :: rest)) = .ok ⟨⟨kind, w⟩, rest, endsStatement⟩ ↔
      ((∀ c ∈ w.toList, c ≠ '\r' ∧ c ≠ '\n') ∧ Bracket.paren.Balanced w.toList) ∧
        (Bracket.paren.OuterComma w.toList ∧ kind = .literal ∨
          ¬ Bracket.paren.OuterComma w.toList ∧ kind = .subEval) ∧ endsStatement = false) ∧
    (nextToken ('"' :: (w.toList ++ '"' :: rest)) = .ok ⟨⟨kind, w⟩, rest, endsStatement⟩ ↔
      (∀ c ∈ w.toList, c ≠ '\r' ∧ c ≠ '\n' ∧ c ≠ '"') ∧ kind = .literal ∧ endsStatement = false) :=
  ⟨nextToken_inBraces_iff w rest kind endsStatement,
    nextToken_enclosed_iff .paren w rest kind endsStatement,
    nextToken_inQuotes_iff w rest kind endsStatement⟩

end CommandShell
