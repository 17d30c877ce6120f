import CommandShell.Proofs.Reading.Groups
import CommandShell.Proofs.Reading.Statement
import CommandShell.Scan.Quoting
import Mathlib.Data.List.Defs

/-!
# `CommandShell.Proofs.Reading.Quoting` — texts that come back as one literal

Of the forms in which a text is written, the bare word and the text between quotes read back for what
they are chosen for. Braces keep a text with quotes in it, if the braces of the text that stand outside
its quotes are balanced: a text between braces is read up to the brace that closes the first one. These
are all the texts that come back, for where the writer falls back on quotes, the text has a quote of its
own.

## Contents
- `readsBackBraced_iff`, the texts that come back from between braces.
- `Forwardable`, the texts that read back from their written form, and `nextToken_quoteIfNeeded_iff`, that
  no other text does.
- `Extensible.readsAs_arguments`, a text followed by forwardable texts in their written form.
- `readsAs_literals`, texts with blanks between them.
-/

namespace CommandShell

/-! ## Braces -/

/-- What a text between braces is read as, if it comes back. -/
theorem nextToken_braced_iff {a : String} {kind : TokenKind} {endsStatement : Bool} :
    nextToken (braced a).toList = .ok ⟨⟨kind, a⟩, [], endsStatement⟩ ↔
      ((∀ c ∈ a.toList, c ≠ '\r' ∧ c ≠ '\n') ∧ Bracket.brace.Balanced a.toList) ∧
        kind = .literal ∧ endsStatement = false := by
  have htext : (braced a).toList = '{' :: (a.toList ++ ['}']) := by
    simp [braced]
  rw [htext]
  exact nextToken_inBraces_iff a [] kind endsStatement

/-- A text comes back from between braces if no line break is in it and its braces are balanced. -/
theorem readsBackBraced_iff {a : String} :
    readsBackBraced a = true ↔
      (∀ c ∈ a.toList, c ≠ '\r' ∧ c ≠ '\n') ∧ Bracket.brace.Balanced a.toList := by
  have hscan : readsBackBraced a = true ↔
      ∃ kind, nextToken (braced a).toList = .ok ⟨⟨kind, a⟩, [], false⟩ := by
    unfold readsBackBraced
    cases nextToken (braced a).toList with
    | error e => simp
    | ok s =>
        obtain ⟨⟨kind, text⟩, rest, endsStatement⟩ := s
        simp [and_assoc]
  rw [hscan]
  exact ⟨fun ⟨_, h⟩ => (nextToken_braced_iff.mp h).1, fun h => ⟨_, nextToken_braced_iff.mpr ⟨h, rfl, rfl⟩⟩⟩

/-! ## Words and quoted texts -/

/-- The text is a word that nothing in it splits or groups. -/
structure PlainWord (w : String) : Prop where
  nonempty : w ≠ ""
  plain : ∀ c ∈ w.toList, c ∉ PartialToken.actingChars

/-- Decided character by character. -/
instance (w : String) : Decidable (PlainWord w) :=
  decidable_of_iff (w ≠ "" ∧ w.toList.all fun c => c ∉ PartialToken.actingChars) <| by
    simp only [List.all_eq_true, decide_eq_true_eq]
    exact ⟨fun h => ⟨h.1, h.2⟩, fun h => ⟨h.nonempty, h.plain⟩⟩

theorem PlainWord.takes {w : String} (h : PlainWord w) : PartialToken.Takes {} w.toList { text := w } := by
  have := PartialToken.takes_word (r := {}) rfl h.plain
  simpa [PartialToken.append] using this

theorem PlainWord.nextToken {w : String} (h : PlainWord w) :
    nextToken w.toList = .ok ⟨⟨.literal, w⟩, [], false⟩ := by
  have hscan := h.takes.scanFrom_append []
  rw [List.append_nil] at hscan
  rw [CommandShell.nextToken, hscan, PartialToken.scanFrom_nil_eq_ok_iff]
  exact ⟨rfl, by simp [PartialToken.toToken, h.nonempty]⟩

/-- A blank ends a word. -/
theorem PlainWord.nextToken_append {w : String} (h : PlainWord w) (cs : List Char) :
    CommandShell.nextToken (w.toList ++ ' ' :: cs) = .ok ⟨⟨.literal, w⟩, cs, false⟩ := by
  have hblank : PartialToken.step { text := w } ' ' = .done ⟨.literal, w⟩ false := by
    rw [PartialToken.step_blank_of_isOuter rfl, if_neg h.nonempty]
  rw [CommandShell.nextToken, h.takes.scanFrom_append, PartialToken.scanFrom_of_done hblank]

theorem PlainWord.readsAs {w : String} (h : PlainWord w) : ReadsAs w.toList [⟨.literal, w⟩] [] :=
  readsAs_of_done h.nextToken (.inr rfl)

/-- The tokens behind a word and a blank follow on the word. -/
theorem PlainWord.readsAs_append {w : String} (h : PlainWord w) {cs rest : List Char}
    {tokens : List Token} (hcs : ReadsAs cs tokens rest) :
    ReadsAs (w.toList ++ ' ' :: cs) (⟨.literal, w⟩ :: tokens) rest :=
  readsAs_of_open (h.nextToken_append cs) hcs

/-- A colon in front of a word makes it a sub-evaluation. -/
theorem PlainWord.nextToken_colon {w : String} (h : PlainWord w) :
    CommandShell.nextToken (':' :: w.toList) = .ok ⟨⟨.subEval, w⟩, [], false⟩ := by
  have hcolon : PartialToken.step {} ':' = .more { kind := .subEval } := rfl
  have htakes := PartialToken.takes_word (r := { kind := .subEval }) rfl h.plain
  have hscan := htakes.scanFrom_append []
  rw [List.append_nil] at hscan
  rw [CommandShell.nextToken, PartialToken.scanFrom_of_more hcolon, hscan,
    PartialToken.scanFrom_nil_eq_ok_iff]
  exact ⟨rfl, by simp [PartialToken.toToken, PartialToken.append]⟩

theorem nextToken_quoted_iff {a : String} {kind : TokenKind} {endsStatement : Bool} :
    nextToken (quoted a).toList = .ok ⟨⟨kind, a⟩, [], endsStatement⟩ ↔
      (∀ c ∈ a.toList, c ≠ '\r' ∧ c ≠ '\n' ∧ c ≠ '"') ∧ kind = .literal ∧ endsStatement = false := by
  have htext : (quoted a).toList = '"' :: (a.toList ++ ['"']) := by
    simp [quoted]
  rw [htext]
  exact nextToken_inQuotes_iff a [] kind endsStatement

theorem nextToken_quoted {a : String} (h : ∀ c ∈ a.toList, c ≠ '\r' ∧ c ≠ '\n' ∧ c ≠ '"') :
    nextToken (quoted a).toList = .ok ⟨⟨.literal, a⟩, [], false⟩ :=
  nextToken_quoted_iff.mpr ⟨h, rfl, rfl⟩

/-! ## Forwardable texts -/

/-- No line break is in the text, and if there are quotes in it, they are paired and the braces outside
    them are balanced. -/
structure Forwardable (a : String) : Prop where
  breaks : ∀ c ∈ a.toList, c ≠ '\r' ∧ c ≠ '\n'
  braces : '"' ∈ a.toList → Bracket.brace.Balanced a.toList

instance (a : String) : Decidable (Forwardable a) :=
  decidable_of_iff ((a.toList.all fun c => c ≠ '\r' ∧ c ≠ '\n') ∧
      ('"' ∈ a.toList → Bracket.brace.Balanced a.toList)) <| by
    simp only [List.all_eq_true, decide_eq_true_eq]
    exact ⟨fun h => ⟨h.1, h.2⟩, fun h => ⟨h.breaks, h.braces⟩⟩

/-- A text without line breaks and quotes is forwardable. -/
theorem forwardable_of_unquoted {a : String} (h : ∀ c ∈ a.toList, c ≠ '\r' ∧ c ≠ '\n' ∧ c ≠ '"') :
    Forwardable a where
  breaks c hc := ⟨(h c hc).1, (h c hc).2.1⟩
  braces hquote := absurd rfl (h _ hquote).2.2

theorem needsGroup_eq_false_iff {a : String} :
    needsGroup a = false ↔ a ≠ "" ∧ ∀ c ∈ a.toList, c ∉ groupingChars := by
  simp [needsGroup]

theorem plainWord_of_not_needsGroup {a : String} (hgroup : needsGroup a = false)
    (h : ∀ c ∈ a.toList, c ≠ '\r' ∧ c ≠ '\n' ∧ c ≠ '"') : PlainWord a := by
  obtain ⟨hne, hplain⟩ := needsGroup_eq_false_iff.mp hgroup
  refine ⟨hne, fun c hc => ?_⟩
  have hgrouping := hplain c hc
  obtain ⟨hcr, hlf, hquote⟩ := h c hc
  simp only [groupingChars, List.mem_cons, List.not_mem_nil, or_false, not_or] at hgrouping
  simp [PartialToken.actingChars, hcr, hlf, hquote, hgrouping]

/-- The written form of a forwardable text is one literal token with this text. -/
theorem nextToken_quoteIfNeeded {a : String} (h : Forwardable a) :
    nextToken (quoteIfNeeded a).toList = .ok ⟨⟨.literal, a⟩, [], false⟩ := by
  by_cases hquote : '"' ∈ a.toList
  · have hclose := h.braces hquote
    have hform : quoteIfNeeded a = braced a := by
      simp [quoteIfNeeded, hquote, readsBackBraced_iff.mpr ⟨h.breaks, hclose⟩]
    rw [hform]
    exact nextToken_braced_iff.mpr ⟨⟨h.breaks, hclose⟩, rfl, rfl⟩
  · have hplain : ∀ c ∈ a.toList, c ≠ '\r' ∧ c ≠ '\n' ∧ c ≠ '"' :=
      fun c hc => ⟨(h.breaks c hc).1, (h.breaks c hc).2, fun hcq => hquote (hcq ▸ hc)⟩
    cases hgroup : needsGroup a with
    | true =>
        have hform : quoteIfNeeded a = quoted a := by
          simp [quoteIfNeeded, hquote, hgroup]
        rw [hform]
        exact nextToken_quoted hplain
    | false =>
        have hform : quoteIfNeeded a = a := by
          simp [quoteIfNeeded, hquote, hgroup]
        rw [hform]
        exact (plainWord_of_not_needsGroup hgroup hplain).nextToken

/-- A text with paired quotes that is not forwardable is put between quotes, for there is a brace
    in it. -/
theorem quoteIfNeeded_of_paired {a : String} (hbreaks : ∀ c ∈ a.toList, c ≠ '\r' ∧ c ≠ '\n')
    (hpaired : a.toList.count '"' % 2 = 0) (h : ¬ Forwardable a) : quoteIfNeeded a = quoted a := by
  have hopen : ¬ Bracket.brace.Balanced a.toList := fun hbalanced => h ⟨hbreaks, fun _ => hbalanced⟩
  have hbraced : readsBackBraced a = false := by
    rw [← Bool.not_eq_true, readsBackBraced_iff]
    exact fun hback => hopen hback.2
  have hgroup : needsGroup a = true := by
    rw [← Bool.not_eq_false, needsGroup_eq_false_iff]
    rintro ⟨-, hplain⟩
    refine hopen (Bracket.balanced_of_paired (fun c hc => ⟨?_, ?_⟩) hpaired) <;>
    · rintro rfl
      exact hplain _ hc (by decide)
  simp [quoteIfNeeded, hbraced, hgroup]

theorem forwardable_iff {a : String} :
    Forwardable a ↔ (∀ c ∈ a.toList, c ≠ '\r' ∧ c ≠ '\n') ∧
      ('"' ∉ a.toList ∨ Bracket.brace.Balanced a.toList) := by
  rw [← Decidable.imp_iff_not_or]
  exact ⟨fun h => ⟨h.breaks, h.braces⟩, fun h => ⟨h.1, h.2⟩⟩

/-- The written form of a text is one literal token with this text exactly if the text has no line break
    and is either without quotes or balanced in braces. -/
theorem nextToken_quoteIfNeeded_iff (a : String) :
    nextToken (quoteIfNeeded a).toList = .ok ⟨⟨.literal, a⟩, [], false⟩ ↔
      (∀ c ∈ a.toList, c ≠ '\r' ∧ c ≠ '\n') ∧ ('"' ∉ a.toList ∨ Bracket.brace.Balanced a.toList) := by
  rw [← forwardable_iff]
  refine ⟨fun hread => ?_, nextToken_quoteIfNeeded⟩
  obtain ⟨hbreaks, hpaired⟩ := text_of_nextToken hread
  by_cases hforward : Forwardable a
  · exact hforward
  · -- Then the text stands between quotes, and its own first quote is the end of the token.
    rw [quoteIfNeeded_of_paired hbreaks hpaired hforward] at hread
    have hplain := (nextToken_quoted_iff.mp hread).1
    exact ⟨hbreaks, fun hquote => absurd rfl (hplain _ hquote).2.2⟩

/-- A text that is one literal token may have more tokens behind it. -/
theorem extensible_of_literal {cs : List Char} {a : String}
    (h : nextToken cs = .ok ⟨⟨.literal, a⟩, [], false⟩) :
    Extensible cs [⟨⟨.literal, a⟩, [], false⟩] where
  scans := .last h (.inr rfl)
  unended := by simp
  last := by simp

/-! ## Texts in order -/

/-- Texts in their written form, each behind a blank. -/
def writtenArguments (texts : List String) : List Char :=
  texts.flatMap fun a => ' ' :: (quoteIfNeeded a).toList

/-- A text and arguments of which each may be extended in its written form: the tokens of the text, and
    then those of the arguments. -/
theorem Extensible.readsAs_arguments {cs : List Char} {ss : List Scanned} (h : Extensible cs ss)
    {texts : List String} (reading : String → List Scanned)
    (htexts : ∀ a ∈ texts, Extensible (quoteIfNeeded a).toList (reading a)) :
    ReadsAs (cs ++ writtenArguments texts) (kept ss ++ texts.flatMap fun a => kept (reading a)) [] := by
  induction texts generalizing cs ss with
  | nil => simpa [writtenArguments] using h.scans.readsAs
  | cons a texts ih =>
      rw [List.forall_mem_cons] at htexts
      have := h.readsAs_append (ih htexts.1 htexts.2)
      simpa [writtenArguments] using this

/-- Forwardable arguments are read as literals. -/
theorem Extensible.readsAs_forwardable {cs : List Char} {ss : List Scanned} (h : Extensible cs ss)
    {texts : List String} (htexts : ∀ a ∈ texts, Forwardable a) :
    ReadsAs (cs ++ writtenArguments texts) (kept ss ++ texts.map (Token.mk .literal)) [] := by
  have := h.readsAs_arguments (fun a => [⟨⟨.literal, a⟩, [], false⟩])
    fun a ha => extensible_of_literal (nextToken_quoteIfNeeded (htexts a ha))
  simpa [Token.kept, List.map_eq_flatMap] using this

/-- Texts with blanks between them, each in a form that is read as one literal, are read as these
    literals. -/
theorem readsAs_literals {texts forms : List String}
    (h : List.Forall₂ (fun a form => nextToken form.toList = .ok ⟨⟨.literal, a⟩, [], false⟩) texts forms) :
    ReadsAs (" ".intercalate forms).toList (texts.map (Token.mk .literal)) [] := by
  induction h with
  | nil => exact readsAs_nil
  | @cons a form texts forms hform hforms ih =>
      cases hforms with
      | nil => simpa [Token.kept] using (extensible_of_literal hform).scans.readsAs
      | @cons a' form' texts forms _ _ =>
          have htext : (" ".intercalate (form :: form' :: forms)).toList =
              form.toList ++ ' ' :: (" ".intercalate (form' :: forms)).toList := by
            simp [String.toList_intercalate]
          rw [htext]
          exact (extensible_of_literal hform).readsAs_append ih

end CommandShell
