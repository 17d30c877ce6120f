import CommandShell.Proofs.Sequencing

/-!
# `CommandShell.Proofs.LineBreaks` — line breaks do not matter

A line break belongs to no token, whatever is open. That alone does not make a text and the text without
its line breaks the same program, since a statement and a program end where nothing is left of the text,
and a line break is something. Where only line breaks are left, the text has a blank token more, which is
dropped, or a statement without tokens more, which does nothing.

## Contents
- `nextToken_unbroken` and `ReadsAs.unbroken`, with `nextStatement_unbroken_error`.
- `Program.exists_ofChars_unbroken`.
- `Shell.evalBlock_unbroken`.
-/

namespace CommandShell

variable {cs rest : List Char} {tokens : List Token}

/-! ## Tokens -/

/-- The token without the line breaks in the input behind it. -/
def Scanned.unbroken (s : Scanned) : Scanned :=
  { s with rest := CommandShell.unbroken s.rest }

theorem scanFrom_unbroken (r : PartialToken) (cs : List Char) :
    scanFrom r (unbroken cs) = (scanFrom r cs).map Scanned.unbroken := by
  induction cs generalizing r with
  | nil =>
      show scanFrom r [] = _
      rw [scanFrom]
      cases r.scope.checkClosed <;> rfl
  | cons c cs ih =>
      by_cases hbreak : c = '\r' ∨ c = '\n'
      · have hstep : r.step c = .more r := by
          rw [PartialToken.step, if_pos hbreak]
        rw [unbroken_cons_of_break hbreak, PartialToken.scanFrom_of_more hstep]
        exact ih r
      · rw [unbroken_cons_of_not_break hbreak, scanFrom, scanFrom]
        cases r.step c with
        | more r' => exact ih r'
        | done token endsStatement => rfl

/-- Without its line breaks an input has the same first token or the same failure. -/
theorem nextToken_unbroken (cs : List Char) :
    nextToken (unbroken cs) = (nextToken cs).map Scanned.unbroken :=
  scanFrom_unbroken {} cs

/-! ## Statements -/

theorem Scans.readsAs_unbroken {ss : List Scanned} (h : Scans cs ss rest) :
    ReadsAs (unbroken cs) (kept ss) (unbroken rest) := by
  induction h with
  | @last cs s hs hdone =>
      have htoken := nextToken_unbroken cs
      rw [hs] at htoken
      rw [kept_singleton]
      exact readsAs_of_done htoken (hdone.imp_right fun hnil => by rw [Scanned.unbroken, hnil]; rfl)
  | @cons cs s ss rest hs hdone _ ih =>
      have htoken := nextToken_unbroken cs
      rw [not_or, Bool.not_eq_true] at hdone
      rw [hs, Except.map, Scanned.unbroken, hdone.1] at htoken
      rw [kept_cons]
      -- Behind this token there may be line breaks alone, so that it is the last one without them.
      exact readsAs_of_open htoken ih

/-- Without its line breaks an input has the same first statement. -/
theorem ReadsAs.unbroken (h : ReadsAs cs tokens rest) :
    ReadsAs (unbroken cs) tokens (CommandShell.unbroken rest) := by
  obtain ⟨ss, hscans, rfl⟩ := readsAs_iff.mp h
  exact hscans.readsAs_unbroken

theorem nextStatement_of_token_error {e : ShellError} (h : nextToken cs = .error e) :
    nextStatement cs = .error e := by
  rw [nextStatement]
  split
  · next e' he =>
    rw [h] at he
    cases he
    rfl
  · next s hs =>
    rw [h] at hs
    cases hs

theorem ne_nil_of_nextStatement_error {e : ShellError} (h : nextStatement cs = .error e) : cs ≠ [] := by
  rintro rfl
  obtain ⟨t, ht, -⟩ := readsAs_nil
  rw [ht] at h
  cases h

theorem nextStatement_of_rest_error {s : Scanned} {e : ShellError} (h : nextToken cs = .ok s)
    (hopen : s.endsStatement = false) (hrest : nextStatement s.rest = .error e) :
    nextStatement cs = .error e := by
  have hdone : ¬ (s.endsStatement = true ∨ s.rest = []) := by
    simp [hopen, ne_nil_of_nextStatement_error hrest]
  rw [nextStatement]
  split
  · next e' he =>
    rw [h] at he
    cases he
  · next s' hs' =>
    rw [h] at hs'
    cases hs'
    rw [dif_neg hdone, hrest]

/-- Without its line breaks an input that cannot be read fails in the same way. -/
theorem nextStatement_unbroken_error {e : ShellError} (h : nextStatement cs = .error e) :
    nextStatement (unbroken cs) = .error e := by
  have htoken := nextToken_unbroken cs
  fun_induction nextStatement cs with
  | case1 cs e' hs =>
      cases h
      rw [hs] at htoken
      exact nextStatement_of_token_error htoken
  | case2 => cases h
  | case3 cs s hs hdone hlt e' he ih =>
      cases h
      rw [not_or, Bool.not_eq_true] at hdone
      rw [hs] at htoken
      exact nextStatement_of_rest_error htoken hdone.1 (ih he (nextToken_unbroken s.rest))
  | case4 => cases h

/-! ## Programs -/

namespace Program

theorem ofChars_of_error {e : ShellError} (h : nextStatement cs = .error e) :
    ofChars cs = ⟨[], some e⟩ := by
  rw [ofChars, dif_neg (ne_nil_of_nextStatement_error h)]
  split
  · next e' he =>
    rw [h] at he
    cases he
    rfl
  · next t ht =>
    rw [h] at ht
    cases ht

/-- A text is the program that it is without its line breaks, but for statements without tokens at its
    end. -/
theorem exists_ofChars_unbroken (cs : List Char) :
    ∃ gap, (∀ tokens ∈ gap, tokens = []) ∧
      ofChars cs = ⟨(ofChars (unbroken cs)).statements ++ gap, (ofChars (unbroken cs)).failure?⟩ := by
  fun_induction ofChars cs with
  | case1 =>
      refine ⟨[], by simp, ?_⟩
      rw [show unbroken [] = [] from rfl, ofChars_nil]
      rfl
  | case2 cs hne e he =>
      refine ⟨[], by simp, ?_⟩
      rw [ofChars_of_error (nextStatement_unbroken_error he)]
      rfl
  | case3 cs hne t ht hlt ih =>
      have hread : ReadsAs (unbroken cs) t.tokens (unbroken t.rest) := ReadsAs.unbroken ⟨t, ht, rfl, rfl⟩
      obtain ⟨gap, hgap, hrest⟩ := ih
      by_cases hnil : unbroken cs = []
      · -- The text consists of line breaks, so its statements are without tokens.
        rw [hnil] at hread ⊢
        obtain ⟨htokens, hbehind⟩ := hread.unique readsAs_nil
        rw [hbehind] at hrest
        refine ⟨t.tokens :: gap, List.forall_mem_cons.mpr ⟨htokens, hgap⟩, ?_⟩
        rw [hrest, ofChars_nil]
        rfl
      · refine ⟨gap, hgap, ?_⟩
        rw [ofChars_of_readsAs hnil hread, hrest]
        rfl

end Program

/-! ## Evaluation -/

namespace Eval

variable {σ : Type}

/-- Statements without tokens at the end of a program do nothing, whether the program fails or not. -/
theorem runProgram_gap (nested : String → Eval σ Unit) {p : Program} {gap : List (List Token)}
    (hgap : ∀ tokens ∈ gap, tokens = []) :
    runProgram nested ⟨p.statements ++ gap, p.failure?⟩ = runProgram nested p := by
  have hnothing := runStatements_gap nested hgap
  rw [runProgram, runProgram]
  rw [List.forM_eq_forM] at hnothing ⊢
  simp only [List.forM_append, bind_assoc, hnothing, pure_bind]

theorem evaluateWithin_unbroken (levels : Nat) (text : String) :
    (evaluateWithin levels (String.ofList (unbroken text.toList)) : Eval σ Unit) =
      evaluateWithin levels text := by
  obtain ⟨gap, hgap, hprogram⟩ := Program.exists_ofChars_unbroken text.toList
  rw [evaluateWithin_eq, evaluateWithin_eq, String.toList_ofList, hprogram]
  cases levels with
  | zero => rfl
  | succ levels => rw [evaluateProgram, evaluateProgram, runProgram_gap _ hgap]

end Eval

/-- To evaluate a text is to evaluate the text without its line breaks: whatever the state, the outcome
    and the state left are the same, and so are all moments on the way. That includes texts of which a
    statement fails and texts that end inside a group. -/
theorem Shell.evalBlock_unbroken {σ : Type} (text : String) :
    (evalBlock (String.ofList (unbroken text.toList)) : Eval σ Unit) = evalBlock text := by
  unfold evalBlock
  simp only [Eval.evaluateWithin_unbroken]

end CommandShell
