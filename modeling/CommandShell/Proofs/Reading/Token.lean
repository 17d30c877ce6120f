import CommandShell.Scan.Token

/-!
# `CommandShell.Proofs.Reading.Token` — how a token takes in its text and how it ends

A token is read in one pass, so what a piece of text does to it does not depend on the text behind. A
piece leaves the token open or its last character ends it. That is all that can happen to a token that is
read: it ends at a character of its own, or the input ends first, and then outside of every group.

While it is read a token keeps its soundness: no line break has come into its text, and the quotes in its
text are paired unless one is open that stands in a group.

## Contents
- `PartialToken.Takes` and `PartialToken.Ends`, with `takes_or_ends` for a token that has been read and
  `takes_of_error` for a text without one.
- `PartialToken.append`, and the pieces that are taken in as they are: words and quoted texts.
- `unbroken`, a text without its line breaks, which is what a token takes in (`Takes.of_unbroken`).
- `PartialToken.Sound`, kept by every step, and `text_of_nextToken`.
-/

namespace CommandShell

/-- A quote is open that belongs to the text, since it stands in a group. -/
def Scope.HoldsQuote (s : Scope) : Prop :=
  s.quoted = true ∧ (0 < s.parens ∨ 0 < s.braces)

/-- The text without its line breaks. -/
def unbroken (cs : List Char) : List Char :=
  cs.filter fun c => c ≠ '\r' ∧ c ≠ '\n'

/-- The characters of the text apart from its line breaks are left. -/
theorem mem_unbroken {c : Char} {cs : List Char} :
    c ∈ unbroken cs ↔ c ∈ cs ∧ c ≠ '\r' ∧ c ≠ '\n' := by
  simp [unbroken]

theorem unbroken_eq_self_iff {cs : List Char} :
    unbroken cs = cs ↔ ∀ c ∈ cs, c ≠ '\r' ∧ c ≠ '\n' := by
  simp [unbroken, List.filter_eq_self]

/-- A line break in front is dropped. -/
theorem unbroken_cons_of_break {c : Char} (h : c = '\r' ∨ c = '\n') (cs : List Char) :
    unbroken (c :: cs) = unbroken cs := by
  rcases h with rfl | rfl <;> simp [unbroken]

/-- Any other character in front stays. -/
theorem unbroken_cons_of_not_break {c : Char} (h : ¬ (c = '\r' ∨ c = '\n')) (cs : List Char) :
    unbroken (c :: cs) = c :: unbroken cs :=
  List.filter_cons_of_pos (by simpa using h)

namespace PartialToken

/-! ## Pieces of text -/

/-- The piece belongs to the token and leaves it open, as `r'`. -/
inductive Takes : PartialToken → List Char → PartialToken → Prop where
  | nil (r) : Takes r [] r
  | cons {r r' r'' c cs} : step r c = .more r' → Takes r' cs r'' → Takes r (c :: cs) r''

/-- The last character of the piece ends the token. -/
inductive Ends : PartialToken → List Char → Token → Bool → Prop where
  | last {r c token endsStatement} : step r c = .done token endsStatement →
      Ends r [c] token endsStatement
  | cons {r r' c cs token endsStatement} : step r c = .more r' → Ends r' cs token endsStatement →
      Ends r (c :: cs) token endsStatement

variable {r r' r'' : PartialToken} {c : Char} {cs ds : List Char} {token : Token}
  {endsStatement : Bool}

theorem scanFrom_of_more (h : r.step c = .more r') : scanFrom r (c :: cs) = scanFrom r' cs := by
  rw [scanFrom, h]

theorem scanFrom_of_done (h : r.step c = .done token endsStatement) :
    scanFrom r (c :: cs) = .ok ⟨token, cs, endsStatement⟩ := by
  rw [scanFrom, h]

/-- The end of the input ends a token in which nothing is open, and no other one. -/
theorem scanFrom_nil_eq_ok_iff {s : Scanned} :
    scanFrom r [] = .ok s ↔ r.scope.isOuter = true ∧ s = ⟨r.toToken, [], false⟩ := by
  rw [scanFrom, Scope.checkClosed, ← Scope.closer?_eq_none_iff]
  cases r.scope.closer? with
  | none => simp [bind, Except.bind, pure, Except.pure, eq_comm]
  | some closer => simp [bind, Except.bind]

/-- Behind a piece that a token takes in, scanning goes on from what the token has become. -/
theorem Takes.scanFrom_append (h : r.Takes cs r') (rest : List Char) :
    scanFrom r (cs ++ rest) = scanFrom r' rest := by
  induction h with
  | nil r => rfl
  | cons hstep _ ih => rw [List.cons_append, scanFrom_of_more hstep, ih]

/-- Behind a piece that ends a token, the rest of the input is untouched. -/
theorem Ends.scanFrom_append (h : r.Ends cs token endsStatement) (rest : List Char) :
    scanFrom r (cs ++ rest) = .ok ⟨token, rest, endsStatement⟩ := by
  induction h with
  | last hstep => exact scanFrom_of_done hstep
  | cons hstep _ ih => rw [List.cons_append, scanFrom_of_more hstep, ih]

theorem Takes.single (h : r.step c = .more r') : r.Takes [c] r' :=
  .cons h (.nil r')

/-- Two pieces, one behind the other, are taken in as one. -/
theorem Takes.trans (h : r.Takes cs r') (h' : r'.Takes ds r'') : r.Takes (cs ++ ds) r'' := by
  induction h with
  | nil r => exact h'
  | cons hstep _ ih => exact .cons hstep (ih h')

/-- A piece that is taken in and one that ends the token end it together. -/
theorem Takes.ends (h : r.Takes cs r') (h' : r'.Ends ds token endsStatement) :
    r.Ends (cs ++ ds) token endsStatement := by
  induction h with
  | nil r => exact h'
  | cons hstep _ ih => exact .cons hstep (ih h')

/-- A token that is read ends with the input, outside of every group, or at a character of its own. -/
theorem takes_or_ends {s : Scanned} (h : scanFrom r cs = .ok s) :
    (∃ r', r.Takes cs r' ∧ r'.scope.isOuter = true ∧ s = ⟨r'.toToken, [], false⟩) ∨
      ∃ piece, cs = piece ++ s.rest ∧ r.Ends piece s.token s.endsStatement := by
  induction cs generalizing r with
  | nil =>
      obtain ⟨houter, hs⟩ := scanFrom_nil_eq_ok_iff.mp h
      exact .inl ⟨r, .nil r, houter, hs⟩
  | cons c cs ih =>
      cases hstep : r.step c with
      | more r' =>
          rw [scanFrom_of_more hstep] at h
          rcases ih h with ⟨r'', htakes, houter, hs⟩ | ⟨piece, hcs, hends⟩
          · exact .inl ⟨r'', .cons hstep htakes, houter, hs⟩
          · exact .inr ⟨c :: piece, by rw [hcs, List.cons_append], .cons hstep hends⟩
      | done token endsStatement =>
          rw [scanFrom_of_done hstep] at h
          cases h
          exact .inr ⟨[c], rfl, .last hstep⟩

/-- A text without a token to read has been taken in as a whole, and something is open behind it. -/
theorem takes_of_error {e : ShellError} (h : scanFrom r cs = .error e) :
    ∃ r', r.Takes cs r' ∧ r'.scope.checkClosed = .error e := by
  induction cs generalizing r with
  | nil =>
      refine ⟨r, .nil r, ?_⟩
      rw [scanFrom] at h
      cases hclosed : r.scope.checkClosed with
      | ok u => rw [hclosed] at h; cases h
      | error e' => rw [hclosed] at h; cases h; rfl
  | cons c cs ih =>
      rw [scanFrom] at h
      split at h
      · next r' hstep =>
        obtain ⟨r'', htakes, hopen⟩ := ih h
        exact ⟨r'', .cons hstep htakes, hopen⟩
      · cases h

/-! ## Steps outside of every group -/

/-- A blank ends a token that has a text, and is passed over in front of it. -/
theorem step_blank_of_isOuter (h : r.scope.isOuter = true) :
    r.step ' ' = if r.text = "" then .more r else .done ⟨r.kind, r.text⟩ false := by
  simp [step, outside, finish, Scope.eq_of_isOuter h, Scope.isOuter]

/-- A semicolon ends a token and its statement, whatever has been read. -/
theorem step_semicolon_of_isOuter (h : r.scope.isOuter = true) : r.step ';' = .done r.toToken true := by
  simp [step, outside, Scope.eq_of_isOuter h, Scope.isOuter]

/-- The characters that do something outside of every group. Any other one just belongs to the text. -/
def actingChars : List Char :=
  ['\r', '\n', '"', '(', ')', '{', '}', ':', ' ', '\t', ';']

theorem step_of_not_acting (houter : r.scope.isOuter = true) (hc : c ∉ actingChars) :
    r.step c = .more (r.push c) := by
  simp only [actingChars, List.mem_cons, List.not_mem_nil, or_false, not_or] at hc
  simp [step, outside, Scope.eq_of_isOuter houter, Scope.isOuter, hc]

/-! ## Pieces that are taken in as they are -/

/-- The token with a piece more in its text. -/
def append (r : PartialToken) (cs : List Char) : PartialToken :=
  { r with text := r.text ++ String.ofList cs }

@[simp] theorem append_scope (r : PartialToken) (cs : List Char) : (r.append cs).scope = r.scope := rfl

@[simp] theorem append_kind (r : PartialToken) (cs : List Char) : (r.append cs).kind = r.kind := rfl

@[simp] theorem append_text (r : PartialToken) (cs : List Char) :
    (r.append cs).text = r.text ++ String.ofList cs := rfl

@[simp] theorem append_nil (r : PartialToken) : r.append [] = r := by
  simp [append]

@[simp] theorem push_append (r : PartialToken) (c : Char) (cs : List Char) :
    (r.push c).append cs = r.append (c :: cs) := by
  simp only [append, push, mk.injEq, true_and]
  exact String.toList_injective (by simp)

/-- A piece is taken in as it is when every character of it belongs to the text, whatever text stands
    before it. -/
theorem takes_append (h : ∀ text, ∀ c ∈ cs, step { r with text } c = .more (push { r with text } c)) :
    r.Takes cs (r.append cs) := by
  induction cs generalizing r with
  | nil => rw [append_nil]; exact .nil r
  | cons c cs ih =>
      have htail := ih (r := r.push c) fun text d hd => h text d (List.mem_cons_of_mem c hd)
      rw [push_append] at htail
      exact .cons (h r.text c List.mem_cons_self) htail

/-- A word is taken in as it is outside of every group. -/
theorem takes_word (houter : r.scope.isOuter = true) (h : ∀ c ∈ cs, c ∉ actingChars) :
    r.Takes cs (r.append cs) :=
  takes_append fun _ c hc => step_of_not_acting houter (h c hc)

/-- Between quotes only line breaks and the quote do not belong to the text. -/
theorem takes_quoted (hquoted : r.scope.quoted = true)
    (h : ∀ c ∈ cs, c ≠ '\r' ∧ c ≠ '\n' ∧ c ≠ '"') : r.Takes cs (r.append cs) := by
  refine takes_append fun text c hc => ?_
  obtain ⟨hcr, hlf, hquote⟩ := h c hc
  simp [step, hcr, hlf, hquote, hquoted]

/-! ## Line breaks -/

/-- A line break leaves a token as it is, wherever it stands. -/
theorem Takes.of_unbroken (h : r.Takes (unbroken cs) r') : r.Takes cs r' := by
  induction cs generalizing r with
  | nil => exact h
  | cons c cs ih =>
      by_cases hbreak : c = '\r' ∨ c = '\n'
      · rw [unbroken_cons_of_break hbreak] at h
        exact .cons (by rw [step, if_pos hbreak]) (ih h)
      · rw [unbroken_cons_of_not_break hbreak] at h
        cases h with
        | cons hstep h => exact .cons hstep (ih h)

/-- A text between quotes is one literal. -/
theorem ends_quoted (h : '"' ∉ cs) :
    Ends {} ('"' :: cs ++ ['"']) ⟨.literal, String.ofList (unbroken cs)⟩ false := by
  have hopen : step {} '"' = .more { scope := { quoted := true } } := rfl
  have hinside : Takes { scope := { quoted := true } } (unbroken cs)
      (append { scope := { quoted := true } } (unbroken cs)) := by
    refine takes_quoted rfl fun c hc => ?_
    obtain ⟨hmem, hcr, hlf⟩ := mem_unbroken.mp hc
    exact ⟨hcr, hlf, fun hquote => h (hquote ▸ hmem)⟩
  refine (Takes.cons hopen hinside.of_unbroken).ends (.last ?_)
  simp [step, quote, finish]

/-! ## What a character does to an open token -/

/-- The token is none of the blank ones, no line break has come into its text, and the quotes of its text
    are paired unless one of them is open. -/
structure Sound (r : PartialToken) : Prop where
  kind : r.kind ≠ .blank
  breaks : ∀ c ∈ r.text.toList, c ≠ '\r' ∧ c ≠ '\n'
  quotes : r.text.toList.count '"' % 2 = 1 ↔ r.scope.HoldsQuote

/-- Nothing has been read of a fresh token, so there is nothing in it to be unsound. -/
theorem sound_fresh : Sound {} where
  kind := by decide
  breaks := by simp
  quotes := by simp [Scope.HoldsQuote]

section Sound

variable {scope : Scope} {kind : TokenKind}

/-- A step that changes the scope or the kind and not the text. -/
theorem Sound.keep (h : r.Sound) (hkind : kind ≠ .blank)
    (hscope : scope.HoldsQuote ↔ r.scope.HoldsQuote) : Sound ⟨scope, kind, r.text⟩ :=
  ⟨hkind, h.breaks, h.quotes.trans hscope.symm⟩

/-- A step that adds a character which is no line break and no quote. -/
theorem Sound.push (h : r.Sound) (hkind : kind ≠ .blank) (hc : c ≠ '\r' ∧ c ≠ '\n' ∧ c ≠ '"')
    (hscope : scope.HoldsQuote ↔ r.scope.HoldsQuote) : Sound ⟨scope, kind, r.text.push c⟩ := by
  obtain ⟨hcr, hlf, hquote⟩ := hc
  refine ⟨hkind, ?_, ?_⟩
  · simp only [String.toList_push, List.forall_mem_append, List.forall_mem_singleton]
    exact ⟨h.breaks, hcr, hlf⟩
  · simp only [String.toList_push, List.count_append, List.count_singleton, beq_iff_eq, hquote,
      if_false, Nat.add_zero]
    exact h.quotes.trans hscope.symm

/-- A quote in the text opens one that is closed there, or closes one that is open. -/
theorem Sound.pushQuote (h : r.Sound) (hscope : scope.HoldsQuote ↔ ¬ r.scope.HoldsQuote) :
    Sound ⟨scope, r.kind, r.text.push '"'⟩ := by
  refine ⟨h.kind, ?_, ?_⟩
  · simp only [String.toList_push, List.forall_mem_append, List.forall_mem_singleton]
    exact ⟨h.breaks, by decide⟩
  · rw [hscope, ← h.quotes, String.toList_push, List.count_append, List.count_singleton_self]
    omega

/-- A quote belongs to the text in a group, and outside it only opens and closes. -/
theorem Sound.quote (h : r.Sound) (hstep : r.quote = .more r') : r'.Sound := by
  unfold PartialToken.quote at hstep
  split at hstep
  · next hgroup =>
    cases hstep
    exact h.pushQuote (by simp [Scope.HoldsQuote, hgroup])
  · next hgroup =>
    split at hstep
    · cases hstep
    · cases hstep
      exact h.keep h.kind (by simp [Scope.HoldsQuote, hgroup])

variable (hquoted : r.scope.quoted = false)
include hquoted

/-- The outermost parenthesis makes the token a sub-evaluation and is no part of its text. -/
theorem Sound.openParen (h : r.Sound) (hstep : r.openParen = .more r') : r'.Sound := by
  unfold PartialToken.openParen at hstep
  split at hstep
  · cases hstep
    exact h.push h.kind (by decide) Iff.rfl
  · split at hstep
    · cases hstep
      exact h.keep (by simp) (by simp [Scope.HoldsQuote, hquoted])
    · cases hstep
      exact h.push h.kind (by decide) (by simp [Scope.HoldsQuote, hquoted])

theorem Sound.closeParen (h : r.Sound) (hstep : r.closeParen = .more r') : r'.Sound := by
  unfold PartialToken.closeParen at hstep
  split at hstep
  · cases hstep
    exact h.push h.kind (by decide) Iff.rfl
  · split at hstep
    · cases hstep
    · cases hstep
      exact h.push h.kind (by decide) (by simp [Scope.HoldsQuote, hquoted])

/-- The outermost brace is no part of the text, either. -/
theorem Sound.openBrace (h : r.Sound) (hstep : r.openBrace = .more r') : r'.Sound := by
  unfold PartialToken.openBrace at hstep
  split at hstep
  · cases hstep
    exact h.push h.kind (by decide) Iff.rfl
  · split at hstep
    · cases hstep
      exact h.keep h.kind (by simp [Scope.HoldsQuote, hquoted])
    · cases hstep
      exact h.push h.kind (by decide) (by simp [Scope.HoldsQuote, hquoted])

theorem Sound.closeBrace (h : r.Sound) (hstep : r.closeBrace = .more r') : r'.Sound := by
  unfold PartialToken.closeBrace at hstep
  split at hstep
  · cases hstep
    exact h.push h.kind (by decide) Iff.rfl
  · split at hstep
    · cases hstep
    · cases hstep
      exact h.push h.kind (by decide) (by simp [Scope.HoldsQuote, hquoted])

omit hquoted in
/-- What is neither a line break nor a quote, outside of every group. -/
theorem Sound.outside (h : r.Sound) (hc : c ≠ '\r' ∧ c ≠ '\n' ∧ c ≠ '"')
    (hstep : r.outside c = .more r') : r'.Sound := by
  unfold PartialToken.outside at hstep
  split at hstep
  · cases hstep
    exact h.keep (by simp) Iff.rfl
  · split at hstep
    · split at hstep
      · cases hstep
        exact h
      · cases hstep
    · split at hstep
      · cases hstep
      · cases hstep
        exact h.push h.kind hc Iff.rfl

omit hquoted in
theorem Sound.inGroup (h : r.Sound) (hc : c ≠ '\r' ∧ c ≠ '\n' ∧ c ≠ '"')
    (hstep : r.inGroup c = .more r') : r'.Sound := by
  unfold PartialToken.inGroup at hstep
  split at hstep
  · cases hstep
    exact h.push (by simp) hc Iff.rfl
  · cases hstep
    exact h.push h.kind hc Iff.rfl

end Sound

/-- Every character that leaves a token open leaves it sound. The cases are those of the step. -/
theorem Sound.step (h : r.Sound) (hstep : r.step c = .more r') : r'.Sound := by
  unfold PartialToken.step at hstep
  split at hstep
  · cases hstep
    exact h
  · next hbreak =>
    split at hstep
    · exact h.quote hstep
    · next hquote =>
      have hc : c ≠ '\r' ∧ c ≠ '\n' ∧ c ≠ '"' := by
        rw [not_or] at hbreak
        exact ⟨hbreak.1, hbreak.2, hquote⟩
      split at hstep
      · cases hstep
        exact h.push h.kind hc Iff.rfl
      · next hquoted =>
        rw [Bool.not_eq_true] at hquoted
        split at hstep
        · exact h.openParen hquoted hstep
        · split at hstep
          · exact h.closeParen hquoted hstep
          · split at hstep
            · exact h.openBrace hquoted hstep
            · split at hstep
              · exact h.closeBrace hquoted hstep
              · split at hstep
                · exact h.outside hc hstep
                · exact h.inGroup hc hstep

/-- So does every piece that leaves it open. -/
theorem Takes.sound (h : r.Takes cs r') (hr : r.Sound) : r'.Sound := by
  induction h with
  | nil r => exact hr
  | cons hstep _ ih => exact ih (hr.step hstep)

/-! ## How a token ends -/

/-- A quote ends a token only where it is no part of the text. -/
theorem quote_eq_done (h : r.quote = .done token endsStatement) :
    ¬ r.scope.HoldsQuote ∧ token = ⟨r.kind, r.text⟩ ∧ endsStatement = false := by
  unfold PartialToken.quote at h
  split at h
  · cases h
  · next hgroup =>
    split at h
    · cases h
      exact ⟨fun hq => hgroup hq.2, rfl, rfl⟩
    · cases h

/-- An opening delimiter ends no token. -/
theorem openParen_ne_done : r.openParen ≠ .done token endsStatement := by
  unfold PartialToken.openParen
  split
  · simp
  · split <;> simp

theorem openBrace_ne_done : r.openBrace ≠ .done token endsStatement := by
  unfold PartialToken.openBrace
  split
  · simp
  · split <;> simp

theorem inGroup_ne_done : r.inGroup c ≠ .done token endsStatement := by
  unfold PartialToken.inGroup
  split <;> simp

theorem closeParen_eq_done (h : r.closeParen = .done token endsStatement) :
    token = ⟨r.kind, r.text⟩ ∧ endsStatement = false := by
  unfold PartialToken.closeParen at h
  split at h
  · cases h
  · split at h <;> cases h
    exact ⟨rfl, rfl⟩

theorem closeBrace_eq_done (h : r.closeBrace = .done token endsStatement) :
    token = ⟨r.kind, r.text⟩ ∧ endsStatement = false := by
  unfold PartialToken.closeBrace at h
  split at h
  · cases h
  · split at h <;> cases h
    exact ⟨rfl, rfl⟩

/-- Outside of every group a blank ends the token with what it has, and a semicolon also the statement.
    -/
theorem outside_eq_done (h : r.outside c = .done token endsStatement) :
    token = ⟨r.kind, r.text⟩ ∧ endsStatement = false ∨
      c = ';' ∧ token = r.toToken ∧ endsStatement = true := by
  unfold PartialToken.outside at h
  split at h
  · cases h
  · split at h
    · split at h <;> cases h
      exact .inl ⟨rfl, rfl⟩
    · split at h
      · next hc =>
        cases h
        exact .inr ⟨hc, rfl, rfl⟩
      · cases h

/-- A token ends at a delimiter or a blank, with the kind and the text that it has, or at a semicolon,
    which ends the statement as well; and never between quotes that belong to its text. -/
theorem step_eq_done (h : r.step c = .done token endsStatement) :
    ¬ r.scope.HoldsQuote ∧
      (token = ⟨r.kind, r.text⟩ ∧ endsStatement = false ∨
        c = ';' ∧ token = r.toToken ∧ endsStatement = true) := by
  unfold step at h
  split at h
  · cases h
  · split at h
    · obtain ⟨hq, hend⟩ := quote_eq_done h
      exact ⟨hq, .inl hend⟩
    · split at h
      · cases h
      · next hquoted =>
        refine ⟨fun hq => hquoted hq.1, ?_⟩
        split at h
        · exact absurd h openParen_ne_done
        · split at h
          · exact .inl (closeParen_eq_done h)
          · split at h
            · exact absurd h openBrace_ne_done
            · split at h
              · exact .inl (closeBrace_eq_done h)
              · split at h
                · exact outside_eq_done h
                · exact absurd h inGroup_ne_done

/-- A piece that ends a token is taken in up to its last character. -/
theorem Ends.exists_step (h : r.Ends cs token endsStatement) :
    ∃ piece c r', cs = piece ++ [c] ∧ r.Takes piece r' ∧ r'.step c = .done token endsStatement := by
  induction h with
  | last hstep => exact ⟨[], _, _, rfl, .nil _, hstep⟩
  | cons hstep _ ih =>
      obtain ⟨piece, c, r', rfl, htakes, hdone⟩ := ih
      exact ⟨_, c, r', rfl, .cons hstep htakes, hdone⟩

/-- The kind of a finished token may be another one than before, but not its text. -/
theorem toToken_text (r : PartialToken) : r.toToken.text = r.text := by
  unfold toToken
  split
  · next h => exact h.2.symm
  · rfl

/-- The character that ends a token is no part of its text. -/
theorem text_of_done (h : r.step c = .done token endsStatement) : token.text = r.text := by
  obtain ⟨-, ⟨rfl, -⟩ | ⟨-, rfl, -⟩⟩ := step_eq_done h
  · rfl
  · exact r.toToken_text

/-- A token that is no sub-evaluation while it is read is none in the end. -/
theorem toToken_kind_ne_subEval (h : r.kind ≠ .subEval) : r.toToken.kind ≠ .subEval := by
  unfold toToken
  split
  · simp
  · exact h

end PartialToken

/-- There is no line break in the text of a token, and its quotes are paired. -/
theorem text_of_nextToken {cs : List Char} {s : Scanned} (h : nextToken cs = .ok s) :
    (∀ c ∈ s.token.text.toList, c ≠ '\r' ∧ c ≠ '\n') ∧ s.token.text.toList.count '"' % 2 = 0 := by
  -- Either way the text is that of a sound token in which no quote is open.
  have hlast : ∃ r : PartialToken, r.Sound ∧ ¬ r.scope.HoldsQuote ∧ s.token.text = r.text := by
    rcases PartialToken.takes_or_ends h with ⟨r, htakes, houter, rfl⟩ | ⟨piece, -, hends⟩
    · refine ⟨r, htakes.sound PartialToken.sound_fresh, ?_, r.toToken_text⟩
      simp [Scope.eq_of_isOuter houter, Scope.HoldsQuote]
    · obtain ⟨_, c, r, -, htakes, hdone⟩ := hends.exists_step
      exact ⟨r, htakes.sound PartialToken.sound_fresh, (PartialToken.step_eq_done hdone).1,
        PartialToken.text_of_done hdone⟩
  obtain ⟨r, hsound, hq, htext⟩ := hlast
  rw [htext]
  refine ⟨hsound.breaks, ?_⟩
  have := mt hsound.quotes.mp hq
  omega

end CommandShell
