import CommandShell.Proofs.Evaluation.Program

/-!
# `CommandShell.Proofs.Progress` — reading goes forward

Whoever reads a token takes a piece off the input. The text of the token is made of characters of the
piece, in their order, and of nothing else. How the token ends decides whether the piece stands for itself:
a token that one of its own characters has ended is read from the piece whatever stands behind it, and a
token that the end of the input has ended would have gone on (`PartialToken.ends_iff`).

A statement takes at least one token, so what it leaves is a proper suffix of the input. The loop that reads
a statement, runs it and goes on with the rest is stated here as a relation of its own, round by round, so
that nothing about its end is built into it. That it ends, and where, is then a theorem.

## Contents
- `PartialToken.text_of_step`, `PartialToken.Takes.exists_taken` and `PartialToken.Ends.text_sublist`, where
  the text of a token comes from.
- `PartialToken.ends_iff` and `exists_piece`, the piece of the input that a token takes.
- `suffix_of_nextStatement`.
- `Eval.StatementLoop`, with `Eval.exists_statementLoop` and `Eval.StatementLoop.unique`.
- `reading_progresses`.
-/

namespace CommandShell

variable {cs : List Char}

/-! ## The text of a token -/

namespace PartialToken

variable {r r' : PartialToken} {c : Char} {token : Token} {endsStatement : Bool}

theorem text_of_outside (h : r.outside c = .more r') :
    r'.text = r.text ∨ r'.text = r.text.push c := by
  unfold outside at h
  grind [push, finish]

/-- A character that leaves the token open comes into its text as the last one, or not at all. -/
theorem text_of_step (h : r.step c = .more r') : r'.text = r.text ∨ r'.text = r.text.push c := by
  unfold step at h
  grind [quote, openParen, closeParen, openBrace, closeBrace, text_of_outside, inGroup, push, finish]

/-- What a piece adds to the text are characters of the piece in their order. -/
theorem Takes.exists_taken (h : r.Takes cs r') :
    ∃ taken, taken.Sublist cs ∧ r'.text.toList = r.text.toList ++ taken := by
  induction h with
  | nil r => exact ⟨[], List.Sublist.slnil, (List.append_nil _).symm⟩
  | @cons r r' r'' c cs hstep _ ih =>
      obtain ⟨taken, hsublist, htext⟩ := ih
      rcases text_of_step hstep with hsame | hpush
      · exact ⟨taken, hsublist.cons c, by rw [htext, hsame]⟩
      · refine ⟨c :: taken, hsublist.cons_cons c, ?_⟩
        rw [htext, hpush, String.toList_push, List.append_assoc, List.singleton_append]

theorem Takes.text_sublist (h : Takes {} cs r) : r.text.toList.Sublist cs := by
  obtain ⟨taken, hsublist, htext⟩ := h.exists_taken
  rw [htext]
  exact hsublist

theorem Ends.text_sublist (h : Ends {} cs token endsStatement) : token.text.toList.Sublist cs := by
  obtain ⟨piece, c, r, rfl, htakes, hdone⟩ := h.exists_step
  rw [text_of_done hdone]
  exact htakes.text_sublist.trans (List.sublist_append_left piece [c])

theorem Ends.ne_nil (h : r.Ends cs token endsStatement) : cs ≠ [] := by
  cases h <;> exact List.cons_ne_nil _ _

/-- A piece ends a token with its last character exactly if the token is read from it whatever stands
    behind. -/
theorem ends_iff :
    Ends {} cs token endsStatement ↔
      ∀ more, nextToken (cs ++ more) = .ok ⟨token, more, endsStatement⟩ := by
  constructor
  · intro h more
    exact h.scanFrom_append more
  · intro h
    have hscan := h []
    rw [List.append_nil] at hscan
    rcases takes_or_ends hscan with ⟨r, htakes, houter, -⟩ | ⟨piece, hpiece, hends⟩
    · -- Then a semicolon would have been taken by the token.
      have hsemicolon : nextToken (cs ++ [';']) = .ok ⟨r.toToken, [], true⟩ :=
        (htakes.scanFrom_append [';']).trans (scanFrom_of_done (step_semicolon_of_isOuter houter))
      rw [h [';']] at hsemicolon
      cases hsemicolon
    · rw [List.append_nil] at hpiece
      rw [hpiece]
      exact hends

end PartialToken

/-- A token takes a piece off the input, and nothing only if there is nothing. The last character of the
    piece ends the token, or the input ends first. -/
theorem exists_piece {s : Scanned} (h : nextToken cs = .ok s) :
    ∃ piece, cs = piece ++ s.rest ∧ (cs ≠ [] → piece ≠ []) ∧ s.token.text.toList.Sublist piece ∧
      (PartialToken.Ends {} piece s.token s.endsStatement ∨
        ∃ r : PartialToken, PartialToken.Takes {} piece r ∧ r.scope.isOuter = true ∧
          s = ⟨r.toToken, [], false⟩) := by
  rcases PartialToken.takes_or_ends h with ⟨r, htakes, houter, rfl⟩ | ⟨piece, hcs, hends⟩
  · refine ⟨cs, (List.append_nil cs).symm, id, ?_, .inr ⟨r, htakes, houter, rfl⟩⟩
    rw [r.toToken_text]
    exact htakes.text_sublist
  · exact ⟨piece, hcs, fun _ => hends.ne_nil, hends.text_sublist, .inl hends⟩

/-! ## Statements -/

theorem Scans.suffix {ss : List Scanned} {rest : List Char} (h : Scans cs ss rest) : rest <:+ cs := by
  induction h with
  | last hs _ => exact suffix_of_nextToken hs
  | cons hs _ _ ih => exact ih.trans (suffix_of_nextToken hs)

/-- What is left behind a statement is a proper suffix of the input. -/
theorem suffix_of_nextStatement {t : Statement} (h : nextStatement cs = .ok t) (hne : cs ≠ []) :
    t.rest <:+ cs ∧ t.rest ≠ cs := by
  obtain ⟨ss, hscans, -⟩ := exists_scans h
  refine ⟨hscans.suffix, fun hsame => ?_⟩
  have hlt := length_rest_nextStatement_lt h hne
  rw [hsame] at hlt
  exact Nat.lt_irrefl _ hlt

/-! ## The loop over the statements -/

namespace Eval

variable {σ : Type}

/-- The loop over the statements of a text, from a state, ends after this many rounds with this result.
    A round reads the first statement of the text that is left and runs it. -/
inductive StatementLoop (nested : String → Eval σ Unit) :
    List Char → Shell σ → Nat → Except ShellError Unit × Shell σ → Prop where
  /-- No text is left. -/
  | ended {s} : StatementLoop nested [] s 0 (.ok (), s)
  /-- No statement can be read. -/
  | unread {cs s e} : cs ≠ [] → nextStatement cs = .error e →
      StatementLoop nested cs s 1 (.error e, s)
  /-- The statement fails. -/
  | failed {cs t s e s'} : cs ≠ [] → nextStatement cs = .ok t →
      (runStatement nested t.tokens).exec s = (.error e, s') → StatementLoop nested cs s 1 (.error e, s')
  /-- The loop goes on with the text behind the statement. -/
  | next {cs t s s' rounds result} : cs ≠ [] → nextStatement cs = .ok t →
      (runStatement nested t.tokens).exec s = (.ok (), s') →
      StatementLoop nested t.rest s' rounds result → StatementLoop nested cs s (rounds + 1) result

/-- The loop ends from every state, after one round for each character at the most, and it has done what
    the program of the text does. -/
theorem exists_statementLoop (nested : String → Eval σ Unit) (cs : List Char) (s : Shell σ) :
    ∃ rounds ≤ cs.length, StatementLoop nested cs s rounds ((runProgram nested (.ofChars cs)).exec s) := by
  fun_induction Program.ofChars cs generalizing s with
  | case1 => exact ⟨0, Nat.le_refl 0, .ended⟩
  | case2 cs hne e he => exact ⟨1, List.length_pos_iff.mpr hne, .unread hne he⟩
  | case3 cs hne t ht hlt ih =>
      rw [runProgram_cons, exec_bind]
      rcases hrun : (runStatement nested t.tokens).exec s with ⟨e | _, s'⟩
      · exact ⟨1, List.length_pos_iff.mpr hne, .failed hne ht hrun⟩
      · obtain ⟨rounds, hrounds, hloop⟩ := ih s'
        exact ⟨rounds + 1, by omega, .next hne ht hrun hloop⟩

/-- From a state the loop has one end at the most. -/
theorem StatementLoop.unique {nested : String → Eval σ Unit} {s : Shell σ} {rounds rounds' : Nat}
    {result result' : Except ShellError Unit × Shell σ} (h : StatementLoop nested cs s rounds result)
    (h' : StatementLoop nested cs s rounds' result') : rounds = rounds' ∧ result = result' := by
  induction h generalizing rounds' with
  | ended =>
      cases h' with
      | ended => exact ⟨rfl, rfl⟩
      | unread hne _ | failed hne _ _ | next hne _ _ _ => exact absurd rfl hne
  | unread hne he => cases h' <;> simp_all
  | failed hne ht hrun => cases h' <;> simp_all
  | next hne ht hrun _ ih =>
      cases h' with
      | ended => exact absurd rfl hne
      | unread _ he => rw [ht] at he; cases he
      | failed _ ht' hrun' =>
          rw [ht] at ht'
          cases ht'
          rw [hrun] at hrun'
          cases hrun'
      | next _ ht' hrun' hloop =>
          rw [ht] at ht'
          cases ht'
          rw [hrun] at hrun'
          cases hrun'
          obtain ⟨rfl, rfl⟩ := ih hloop
          exact ⟨rfl, rfl⟩

end Eval

/-! ## Tokens, statements and the loop -/

/-- Reading a token takes a piece off the input, and nothing only if there is nothing. The text of the token
    is a part of the characters of the piece, in their order, without line breaks and with paired quotes. A
    token that a character of the piece has ended is the same whatever stands behind the piece, and no
    other one is. Reading a statement leaves a proper suffix of the input. So the loop over the statements of
    the input ends from every state, after one round for each character at the most, and its one result is
    that of the program of the input. -/
theorem reading_progresses {σ : Type} (cs : List Char) :
    (∀ s, nextToken cs = .ok s →
      ∃ piece, cs = piece ++ s.rest ∧ (cs ≠ [] → piece ≠ []) ∧
        s.token.text.toList.Sublist piece ∧
        (∀ c ∈ s.token.text.toList, c ≠ '\r' ∧ c ≠ '\n') ∧
        s.token.text.toList.count '"' % 2 = 0 ∧
        (PartialToken.Ends {} piece s.token s.endsStatement ∨
          ∃ r : PartialToken, PartialToken.Takes {} piece r ∧ r.scope.isOuter = true ∧
            s = ⟨r.toToken, [], false⟩) ∧
        (PartialToken.Ends {} piece s.token s.endsStatement ↔
          ∀ more, nextToken (piece ++ more) = .ok ⟨s.token, more, s.endsStatement⟩)) ∧
    (∀ t, nextStatement cs = .ok t → cs ≠ [] → t.rest <:+ cs ∧ t.rest ≠ cs) ∧
    ∀ (nested : String → Eval σ Unit) (s : Shell σ), ∃ rounds ≤ cs.length, ∀ n result,
      Eval.StatementLoop nested cs s n result ↔
        n = rounds ∧ result = (Eval.runProgram nested (.ofChars cs)).exec s := by
  refine ⟨?token, fun t ht hne => suffix_of_nextStatement ht hne, ?loop⟩
  case token =>
    intro s hs
    obtain ⟨piece, hcs, hne, hsublist, hend⟩ := exists_piece hs
    obtain ⟨hbreaks, hquotes⟩ := text_of_nextToken hs
    exact ⟨piece, hcs, hne, hsublist, hbreaks, hquotes, hend, PartialToken.ends_iff⟩
  case loop =>
    intro nested s
    obtain ⟨rounds, hrounds, hloop⟩ := Eval.exists_statementLoop nested cs s
    refine ⟨rounds, hrounds, fun n result => ?_⟩
    constructor
    · intro h
      exact h.unique hloop
    · rintro ⟨rfl, rfl⟩
      exact hloop

/-- A sub-evaluation that holds a line break and a semicolon, both between quotes. Its parenthesis ends it,
    so that it is read from the piece up to there alone, and the semicolon behind it ends the statement. -/
theorem reading_progresses_group :
    nextToken "(x \";\n\"); y".toList = .ok ⟨⟨.subEval, "x \";\""⟩, "; y".toList, false⟩ ∧
      (∀ more, nextToken ("(x \";\n\")".toList ++ more) = .ok ⟨⟨.subEval, "x \";\""⟩, more, false⟩) ∧
      ∃ t, nextStatement "(x \";\n\"); y".toList = .ok t ∧ t.rest = " y".toList ∧
        t.rest <:+ "(x \";\n\"); y".toList ∧ t.rest ≠ "(x \";\n\"); y".toList := by
  have hread := reading_progresses (σ := Unit) "(x \";\n\"); y".toList
  have htoken : nextToken "(x \";\n\"); y".toList =
      .ok ⟨⟨.subEval, "x \";\""⟩, "; y".toList, false⟩ := rfl
  have hstatement : ReadsAs "(x \";\n\"); y".toList [⟨.subEval, "x \";\""⟩] " y".toList :=
    readsAs_of_open htoken (readsAs_semicolon " y".toList)
  obtain ⟨piece, hcs, -, -, -, -, hend, hlocal⟩ := hread.1 _ htoken
  obtain rfl : piece = "(x \";\n\")".toList := List.append_cancel_right (hcs.symm.trans rfl)
  obtain ⟨t, ht, -, hrest⟩ := hstatement
  refine ⟨htoken, hlocal.mp (hend.resolve_right ?_), t, ht, hrest, hread.2.1 t ht (by decide)⟩
  rintro ⟨r, -, -, hs⟩
  have hrest' : "; y".toList = [] := congrArg Scanned.rest hs
  exact absurd hrest' (by decide)

end CommandShell
