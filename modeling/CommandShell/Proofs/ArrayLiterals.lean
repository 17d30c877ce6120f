import CommandShell.Proofs.Reading.Groups
import CommandShell.Scan.ArrayLiteral

/-!
# `CommandShell.Proofs.ArrayLiterals` — which texts in parentheses are array literals

A comma directly inside its parentheses makes a text an array literal, and an array literal is split at
its outer commas. Two scanners decide this, and they count differently. In parentheses a token takes
braces as they are, for a group in braces opens only outside of them; the splitter counts parentheses and
braces side by side.

Quotes and parentheses are the same to both, so the scanners go through a text in step. What splits into
two parts or more is always an array literal. The converse fails for a literal all of whose commas stand
in braces, which has one part, and for one whose braces are not closed, which does not split at all.

## Contents
- `Scope.after`, `Scope.IsDirect` and `Scope.CommaWhere`, the commas of a text by their scope.
- `map_splitFrom`, from which `exists_splitFrom_iff` and `splitFrom_eq_error_iff`, and `two_le_length_iff`,
  what becomes of a text that is split.
- `Scope.nesting`, by which the two scanners are in step, and `PartialToken.scanFrom_of_follows`.
- `literal_iff_splits_iff`.
-/

namespace CommandShell

/-! ## Commas and their scopes -/

namespace Scope

/-- The scope behind a piece of an array literal. -/
def after (s : Scope) (cs : List Char) : Scope :=
  cs.foldl advance s

/-- No quote and no parenthesis is open; a brace may be. -/
def IsDirect (s : Scope) : Prop :=
  s.parens = 0 ∧ s.quoted = false

instance (s : Scope) : Decidable s.IsDirect :=
  inferInstanceAs (Decidable (_ ∧ _))

/-- A comma of the text stands where the scope has the property. -/
def CommaWhere (P : Scope → Prop) (s : Scope) (cs : List Char) : Prop :=
  ∃ before rest, cs = before ++ ',' :: rest ∧ P (s.after before)

variable {P : Scope → Prop} {s : Scope} {c : Char} {cs : List Char}

theorem isOuter_iff : s.isOuter = true ↔ s.IsDirect ∧ s.braces = 0 := by
  simp only [isOuter, IsDirect, Bool.and_eq_true, beq_iff_eq, Bool.not_eq_true']
  exact and_right_comm

theorem not_commaWhere_nil : ¬ CommaWhere P s [] := by
  rintro ⟨before, rest, hcs, -⟩
  simp at hcs

/-- A comma is the first character or stands behind it. -/
theorem commaWhere_cons :
    CommaWhere P s (c :: cs) ↔ (c = ',' ∧ P s) ∨ CommaWhere P (s.advance c) cs := by
  constructor
  · rintro ⟨_ | ⟨d, before⟩, rest, hcs, hP⟩
    · rw [List.nil_append, List.cons.injEq] at hcs
      exact .inl ⟨hcs.1, hP⟩
    · rw [List.cons_append, List.cons.injEq] at hcs
      obtain ⟨rfl, rfl⟩ := hcs
      exact .inr ⟨before, rest, rfl, hP⟩
  · rintro (⟨rfl, hP⟩ | ⟨before, rest, rfl, hP⟩)
    · exact ⟨[], cs, rfl, hP⟩
    · exact ⟨c :: before, rest, rfl, hP⟩

theorem CommaWhere.mono {Q : Scope → Prop} (h : CommaWhere P s cs) (hPQ : ∀ {s}, P s → Q s) :
    CommaWhere Q s cs := by
  obtain ⟨before, rest, hcs, hP⟩ := h
  exact ⟨before, rest, hcs, hPQ hP⟩

theorem advance_comma (s : Scope) : s.advance ',' = s := by
  unfold advance
  cases s.quoted <;> rfl

end Scope

/-! ## Splitting -/

section Splitting

variable {s : Scope} {part : List Char} {cs : List Char} {parts : List (List Char)}

theorem splitFrom_nil (s : Scope) (part : List Char) :
    splitFrom s part [] = (s.checkClosed >>= fun _ => .ok [part.reverse]) :=
  rfl

/-- A comma outside of every group ends a part and leaves the scope as it is. -/
theorem splitFrom_comma (h : s.isOuter = true) (part cs : List Char) :
    splitFrom s part (',' :: cs) = (part.reverse :: ·) <$> splitFrom (s.advance ',') [] cs := by
  rw [splitFrom, if_pos ⟨rfl, h⟩, Scope.advance_comma]

theorem splitFrom_other {c : Char} (h : ¬ (c = ',' ∧ s.isOuter = true)) (part cs : List Char) :
    splitFrom s part (c :: cs) = splitFrom (s.advance c) (c :: part) cs := by
  rw [splitFrom, if_neg h]

/-- Whether a text is split, and the failure if it is not, only the scope behind it decides. -/
theorem map_splitFrom (s : Scope) (part cs : List Char) :
    (splitFrom s part cs).map (fun _ => ()) = (s.after cs).checkClosed := by
  induction cs generalizing s part with
  | nil =>
      rw [splitFrom_nil, Scope.after, List.foldl_nil]
      cases s.checkClosed <;> rfl
  | cons c cs ih =>
      have hafter : s.after (c :: cs) = (s.advance c).after cs := rfl
      by_cases hcomma : c = ',' ∧ s.isOuter = true
      · obtain ⟨rfl, houter⟩ := hcomma
        rw [splitFrom_comma houter, hafter, ← ih (s.advance ',') []]
        cases splitFrom (s.advance ',') [] cs <;> rfl
      · rw [splitFrom_other hcomma, hafter]
        exact ih (s.advance c) (c :: part)

/-- A text is split if everything that is opened in it is closed. -/
theorem exists_splitFrom_iff (s : Scope) (part cs : List Char) :
    (∃ parts, splitFrom s part cs = .ok parts) ↔ (s.after cs).isOuter = true := by
  rw [← Scope.checkClosed_eq_ok_iff, ← map_splitFrom s part]
  cases splitFrom s part cs <;> simp [Except.map]

theorem splitFrom_eq_error_iff (s : Scope) (part : List Char) {e : ShellError} :
    splitFrom s part cs = .error e ↔ (s.after cs).checkClosed = .error e := by
  rw [← map_splitFrom s part]
  cases splitFrom s part cs <;> simp [Except.map]

/-- There is more than one part if there is a comma outside of every group. -/
theorem two_le_length_iff (h : splitFrom s part cs = .ok parts) :
    1 ≤ parts.length ∧ (2 ≤ parts.length ↔ Scope.CommaWhere (·.isOuter = true) s cs) := by
  induction cs generalizing s part parts with
  | nil =>
      have hparts : parts = [part.reverse] := by
        rw [splitFrom_nil, Scope.checkClosed] at h
        cases hcloser : s.closer? with
        | none => simpa [hcloser, bind, Except.bind, eq_comm] using h
        | some closer => simp [hcloser, bind, Except.bind] at h
      rw [hparts]
      exact ⟨Nat.le_refl 1, fun hlength => absurd hlength (by simp),
        fun hcomma => absurd hcomma Scope.not_commaWhere_nil⟩
  | cons c cs ih =>
      rw [Scope.commaWhere_cons]
      by_cases hcomma : c = ',' ∧ s.isOuter = true
      · obtain ⟨rfl, houter⟩ := hcomma
        rw [splitFrom_comma houter] at h
        obtain ⟨rest, hrest, rfl⟩ : ∃ rest, splitFrom (s.advance ',') [] cs = .ok rest ∧
            parts = part.reverse :: rest := by
          cases hsplit : splitFrom (s.advance ',') [] cs with
          | ok rest =>
              rw [hsplit] at h
              cases h
              exact ⟨rest, rfl, rfl⟩
          | error e =>
              rw [hsplit] at h
              cases h
        have hlength := (ih hrest).1
        rw [List.length_cons]
        exact ⟨by omega, fun _ => .inl ⟨rfl, houter⟩, fun _ => by omega⟩
      · rw [splitFrom_other hcomma] at h
        obtain ⟨hpos, hiff⟩ := ih h
        refine ⟨hpos, hiff.trans ⟨.inr, fun hcommas => ?_⟩⟩
        exact hcommas.resolve_left hcomma

end Splitting

/-! ## Two scanners in step -/

namespace Scope

/-- What is open of the parentheses and quotes of a text. The splitter counts braces as well. -/
def nesting (s : Scope) : Bracket.Nesting :=
  ⟨s.parens, s.quoted⟩

variable {s : Scope} {c : Char} {cs : List Char} {n : Bracket.Nesting}

theorem nesting_eq_iff : s.nesting = {} ↔ s.IsDirect := by
  simp [nesting, IsDirect]

/-- In parentheses both scanners count alike, up to the parenthesis that closes the first one. -/
theorem nesting_advance (h : Bracket.paren.after s.nesting c = some n) : (s.advance c).nesting = n := by
  obtain ⟨parens, braces, quoted⟩ := s
  rw [nesting] at h
  by_cases hquote : c = '"'
  · subst hquote
    exact Option.some.inj h
  cases quoted with
  | true =>
      rw [Bracket.after_quoted hquote] at h
      simpa [advance, hquote, nesting] using h
  | false =>
      by_cases hopen : c = '('
      · subst hopen
        exact Option.some.inj h
      by_cases hclose : c = ')'
      · subst hclose
        cases parens with
        | zero => cases h
        | succ parens => exact Option.some.inj h
      · -- The braces that the splitter counts are no part of the nesting.
        have hsame : Bracket.paren.after ⟨parens, false⟩ c = some ⟨parens, false⟩ :=
          Bracket.after_char hquote hopen hclose
        rw [hsame, Option.some.injEq] at h
        by_cases hbrace : c = '{' <;> by_cases hbracing : c = '}' <;>
          simp [advance, hquote, hopen, hclose, hbrace, hbracing, nesting, ← h]

theorem nesting_after (h : Bracket.paren.behind s.nesting cs = some n) : (s.after cs).nesting = n := by
  induction cs generalizing s with
  | nil => exact Option.some.inj h
  | cons c cs ih =>
      rw [Bracket.behind_cons] at h
      obtain ⟨n', hafter, hrest⟩ := Option.bind_eq_some_iff.mp h
      rw [← nesting_advance hafter] at hrest
      exact ih hrest

/-- As long as the first parenthesis is open, both see a comma in the same places. -/
theorem commaFrom_nesting_iff (h : Bracket.paren.behind s.nesting cs = some n) :
    Bracket.paren.CommaFrom s.nesting cs ↔ CommaWhere IsDirect s cs := by
  induction cs generalizing s with
  | nil => exact iff_of_false Bracket.not_commaFrom_nil not_commaWhere_nil
  | cons c cs ih =>
      rw [Bracket.behind_cons] at h
      obtain ⟨n', hafter, hrest⟩ := Option.bind_eq_some_iff.mp h
      rw [Bracket.commaFrom_cons hafter, commaWhere_cons, nesting_eq_iff]
      rw [← nesting_advance hafter] at hrest ⊢
      rw [ih hrest]

end Scope

namespace PartialToken

variable {r : PartialToken} {s : Scope} {cs : List Char}

/-- The token stands in parentheses, inside of which the splitter would have the scope `s`. The braces
    that the splitter counts are no part of the scope of the token. -/
def Follows (r : PartialToken) (s : Scope) : Prop :=
  r.scope = ⟨s.parens + 1, 0, s.quoted⟩

/-- A text that ends with the parenthesis it began with is taken in as it is, and its commas say what it
    is. -/
theorem scanFrom_of_follows {scanned : Scanned} (h : r.Follows s)
    (hbreaks : ∀ c ∈ cs, c ≠ '\r' ∧ c ≠ '\n') (hscan : scanFrom r (cs ++ [')']) = .ok scanned)
    (hrest : scanned.rest = []) :
    (s.after cs).IsDirect ∧ scanned.token.text = r.text ++ String.ofList cs ∧
      (Scope.CommaWhere Scope.IsDirect s cs → scanned.token.kind = .literal) ∧
      (¬ Scope.CommaWhere Scope.IsDirect s cs → scanned.token.kind = r.kind) := by
  have hscope : r.scope = Bracket.paren.inside s.nesting := h
  have hbehind := behind_of_scanFrom hscope hbreaks hscan hrest
  obtain ⟨kind, hread, hcomma, hplain⟩ := exists_scanFrom_inside hscope hbreaks hbehind []
  have hsame : scanned = ⟨⟨kind, (r.append cs).text⟩, [], false⟩ :=
    Except.ok.inj (hscan.symm.trans hread)
  rw [Scope.commaFrom_nesting_iff hbehind] at hcomma hplain
  subst hsame
  exact ⟨Scope.nesting_eq_iff.mp (Scope.nesting_after hbehind), rfl, fun h => hcomma ⟨rfl, h⟩,
    fun h => hplain fun hb => h hb.2⟩

end PartialToken

/-! ## Array literals -/

/-- A text that is one token in parentheses is an array literal if a comma of it stands outside of quotes
    and parentheses, and otherwise a sub-evaluation. It splits into two parts or more if its braces are
    closed and a comma stands outside of braces too; then it is an array literal. So the two scanners
    agree on a text if it has no comma of the first kind, or closed braces and a comma of the second. -/
theorem literal_iff_splits_iff {w : List Char} (hbreaks : ∀ c ∈ w, c ≠ '\r' ∧ c ≠ '\n')
    {scanned : Scanned} (hscan : nextToken ('(' :: (w ++ [')'])) = .ok scanned)
    (hrest : scanned.rest = []) :
    scanned.token.text = String.ofList w ∧
      (scanned.token.kind = .literal ∨ scanned.token.kind = .subEval) ∧
      (scanned.token.kind = .literal ↔ Scope.CommaWhere Scope.IsDirect {} w) ∧
      ((∃ parts, splitArray w = .ok parts ∧ 2 ≤ parts.length) ↔
        (Scope.after {} w).braces = 0 ∧ Scope.CommaWhere (·.isOuter = true) {} w) ∧
      ((∃ parts, splitArray w = .ok parts ∧ 2 ≤ parts.length) → scanned.token.kind = .literal) ∧
      ((scanned.token.kind = .literal ↔ ∃ parts, splitArray w = .ok parts ∧ 2 ≤ parts.length) ↔
        (Scope.CommaWhere Scope.IsDirect {} w →
          (Scope.after {} w).braces = 0 ∧ Scope.CommaWhere (·.isOuter = true) {} w)) := by
  have hopen : PartialToken.step {} '(' = .more ⟨⟨1, 0, false⟩, .subEval, ""⟩ := rfl
  have hfollows : PartialToken.Follows ⟨⟨1, 0, false⟩, .subEval, ""⟩ {} := rfl
  rw [nextToken, PartialToken.scanFrom_of_more hopen] at hscan
  obtain ⟨hdirect, htext, hliteral, hkept⟩ :=
    PartialToken.scanFrom_of_follows hfollows hbreaks hscan hrest
  have hkind : scanned.token.kind = .literal ↔ Scope.CommaWhere Scope.IsDirect {} w := by
    refine ⟨fun hk => ?_, hliteral⟩
    by_cases hcomma : Scope.CommaWhere Scope.IsDirect {} w
    · exact hcomma
    · rw [hkept hcomma] at hk
      cases hk
  have hsplits : (∃ parts, splitArray w = .ok parts ∧ 2 ≤ parts.length) ↔
      (Scope.after {} w).braces = 0 ∧ Scope.CommaWhere (·.isOuter = true) {} w := by
    constructor
    · rintro ⟨parts, hparts, hlength⟩
      have hend := (exists_splitFrom_iff {} [] w).mp ⟨parts, hparts⟩
      exact ⟨(Scope.isOuter_iff.mp hend).2, (two_le_length_iff hparts).2.mp hlength⟩
    · rintro ⟨hbraces, hcomma⟩
      obtain ⟨parts, hparts⟩ := (exists_splitFrom_iff {} [] w).mpr (Scope.isOuter_iff.mpr ⟨hdirect, hbraces⟩)
      exact ⟨parts, hparts, (two_le_length_iff hparts).2.mpr hcomma⟩
  have hone : Scope.CommaWhere (·.isOuter = true) {} w → Scope.CommaWhere Scope.IsDirect {} w :=
    fun hcomma => hcomma.mono fun hs => (Scope.isOuter_iff.mp hs).1
  refine ⟨by simpa using htext, ?_, hkind, hsplits, ?_, ?_⟩
  · by_cases hcomma : Scope.CommaWhere Scope.IsDirect {} w
    · exact .inl (hliteral hcomma)
    · exact .inr (hkept hcomma)
  · rw [hsplits, hkind]
    exact fun h => hone h.2
  · rw [hsplits, hkind]
    exact ⟨Iff.mp, fun h => ⟨h, fun hcomma => hone hcomma.2⟩⟩

/-- A literal with a group in braces beside its commas. -/
theorem literal_iff_splits_iff_pair :
    (⟨.literal, "1, \x7b2, 3\x7d"⟩ : Token).kind = .literal ↔
      ∃ parts, splitArray "1, \x7b2, 3\x7d".toList = .ok parts ∧ 2 ≤ parts.length := by
  have hscan : nextToken ('(' :: ("1, \x7b2, 3\x7d".toList ++ [')'])) =
      .ok ⟨⟨.literal, "1, \x7b2, 3\x7d"⟩, [], false⟩ := rfl
  have hbreaks : ∀ c ∈ "1, \x7b2, 3\x7d".toList, c ≠ '\r' ∧ c ≠ '\n' := by simp
  refine (literal_iff_splits_iff hbreaks hscan rfl).2.2.2.2.2.mpr fun _ => ⟨rfl, ?_⟩
  exact ⟨['1'], " \x7b2, 3\x7d".toList, rfl, rfl⟩

/-- A sub-evaluation whose only comma stands in the block of a command is taken for an array literal, and
    so is a text with an open brace, which does not split. -/
theorem literal_of_comma_in_braces :
    nextToken "(if 1 \x7becho a, b\x7d)".toList = .ok ⟨⟨.literal, "if 1 \x7becho a, b\x7d"⟩, [], false⟩ ∧
      splitArray "if 1 \x7becho a, b\x7d".toList = .ok ["if 1 \x7becho a, b\x7d".toList] ∧
      nextToken "(a \x7b, b)".toList = .ok ⟨⟨.literal, "a \x7b, b"⟩, [], false⟩ ∧
      splitArray "a \x7b, b".toList = .error (.unexpectedEnd '}') :=
  ⟨rfl, rfl, rfl, rfl⟩

end CommandShell
