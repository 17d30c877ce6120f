import CommandShell.Proofs.Reading.Token
import CommandShell.Scan.Statement

/-!
# `CommandShell.Proofs.Reading.Statement` — reading texts that are put together

A statement is read from a list of tokens, blank ones among them, which are dropped. What stands behind a
text can change how the text is read in one place only: at its last token, if that one ended with the
text. A blank or a semicolon behind the text ends such a token as it is, so the tokens of the text stay
what they were.

## Contents
- `Scans`, the tokens of a statement with the blank ones, and `ReadsAs`, the statement without them.
- `Scans.unended`, the statements that no semicolon ends.
- `Extensible`, the texts that a blank and more tokens may follow, with `Extensible.readsAs_append`.
- `Scans.semicolon`, what a semicolon behind a text does.
- `Program.ofChars_of_readsAs` and `Program.exists_ofChars_append_semicolon`.
-/

namespace CommandShell

/-! ## Statements -/

/-- The first statement of the text is read from these tokens, the blank ones included, and leaves the
    rest. -/
inductive Scans : List Char → List Scanned → List Char → Prop where
  | last {cs s} : nextToken cs = .ok s → (s.endsStatement = true ∨ s.rest = []) → Scans cs [s] s.rest
  | cons {cs s ss rest} : nextToken cs = .ok s → ¬ (s.endsStatement = true ∨ s.rest = []) →
      Scans s.rest ss rest → Scans cs (s :: ss) rest

/-- The token, unless it is blank. -/
def Token.kept (t : Token) : List Token :=
  if t.kind = .blank then [] else [t]

/-- The tokens that are not blank. -/
def kept (ss : List Scanned) : List Token :=
  ss.flatMap (·.token.kept)

/-- The first statement of the text has these tokens and leaves the rest. -/
def ReadsAs (cs : List Char) (tokens : List Token) (rest : List Char) : Prop :=
  ∃ t, nextStatement cs = .ok t ∧ t.tokens = tokens ∧ t.rest = rest

theorem kept_cons (s : Scanned) (ss : List Scanned) : kept (s :: ss) = s.token.kept ++ kept ss :=
  List.flatMap_cons

@[simp] theorem kept_singleton (s : Scanned) : kept [s] = s.token.kept := by
  simp [kept]

theorem tokens_consTo (s : Scanned) (later : List Scanned) (rest : List Char) :
    (⟨s.consTo later, rest⟩ : Statement).tokens = s.token.kept ++ later.map (·.token) := by
  simp only [Statement.tokens, Scanned.consTo, Token.kept]
  split <;> rfl

variable {cs ds more rest : List Char} {s : Scanned} {ss : List Scanned} {tokens tokens' : List Token}

theorem mem_kept {token : Token} :
    token ∈ kept ss ↔ token.kind ≠ .blank ∧ ∃ s ∈ ss, s.token = token := by
  simp only [kept, List.mem_flatMap, Token.kept]
  constructor
  · rintro ⟨s, hs, hmem⟩
    split at hmem
    · cases hmem
    · next hkind =>
      cases List.mem_singleton.mp hmem
      exact ⟨hkind, s, hs, rfl⟩
  · rintro ⟨hkind, s, hs, rfl⟩
    exact ⟨s, hs, by simp [hkind]⟩

theorem readsAs_of_done (h : nextToken cs = .ok s) (hdone : s.endsStatement = true ∨ s.rest = []) :
    ReadsAs cs s.token.kept s.rest := by
  refine ⟨⟨s.consTo [], s.rest⟩, ?_, ?_, rfl⟩
  · rw [nextStatement]
    split
    · next e he => rw [h] at he; cases he
    · next s' hs' =>
      rw [h] at hs'
      cases hs'
      rw [dif_pos hdone]
  · simpa using tokens_consTo s [] s.rest

theorem readsAs_of_not_done (h : nextToken cs = .ok s) (hdone : ¬ (s.endsStatement = true ∨ s.rest = []))
    (hrest : ReadsAs s.rest tokens rest) : ReadsAs cs (s.token.kept ++ tokens) rest := by
  obtain ⟨t, ht, rfl, rfl⟩ := hrest
  refine ⟨{ t with scanned := s.consTo t.scanned }, ?_, ?_, rfl⟩
  · rw [nextStatement]
    split
    · next e he => rw [h] at he; cases he
    · next s' hs' =>
      rw [h] at hs'
      cases hs'
      rw [dif_neg hdone, ht]
  · exact tokens_consTo s t.scanned t.rest

theorem Scans.readsAs (h : Scans cs ss rest) : ReadsAs cs (kept ss) rest := by
  induction h with
  | last hs hdone =>
      rw [kept_singleton]
      exact readsAs_of_done hs hdone
  | cons hs hdone _ ih =>
      rw [kept_cons]
      exact readsAs_of_not_done hs hdone ih

theorem exists_scans {t : Statement} (h : nextStatement cs = .ok t) :
    ∃ ss, Scans cs ss t.rest ∧ t.tokens = kept ss := by
  fun_induction nextStatement cs generalizing t with
  | case1 => cases h
  | case2 cs s hs hdone =>
      cases h
      exact ⟨[s], .last hs hdone, by simpa using tokens_consTo s [] s.rest⟩
  | case3 => cases h
  | case4 cs s hs hdone hlt u hu ih =>
      cases h
      obtain ⟨ss, hscans, htokens⟩ := ih hu
      refine ⟨s :: ss, .cons hs hdone hscans, ?_⟩
      rw [kept_cons, ← htokens]
      exact tokens_consTo s u.scanned u.rest

theorem readsAs_iff : ReadsAs cs tokens rest ↔ ∃ ss, Scans cs ss rest ∧ tokens = kept ss := by
  constructor
  · rintro ⟨t, ht, rfl, rfl⟩
    exact exists_scans ht
  · rintro ⟨ss, hscans, rfl⟩
    exact hscans.readsAs

/-- A text has one reading. -/
theorem ReadsAs.unique {rest' : List Char} (h : ReadsAs cs tokens rest) (h' : ReadsAs cs tokens' rest') :
    tokens = tokens' ∧ rest = rest' := by
  obtain ⟨t, ht, rfl, rfl⟩ := h
  obtain ⟨t', ht', rfl, rfl⟩ := h'
  rw [ht] at ht'
  cases ht'
  exact ⟨rfl, rfl⟩

/-- How a text is read depends on its first token alone and on what is read behind it. -/
theorem ReadsAs.congr (h : nextToken cs = nextToken ds) (hr : ReadsAs ds tokens rest) :
    ReadsAs cs tokens rest := by
  obtain ⟨ss, hscans, rfl⟩ := readsAs_iff.mp hr
  cases hscans with
  | last hs hdone =>
      rw [kept_singleton]
      exact readsAs_of_done (h.trans hs) hdone
  | cons hs hdone hscans =>
      rw [kept_cons]
      exact readsAs_of_not_done (h.trans hs) hdone hscans.readsAs

theorem readsAs_nil : ReadsAs [] [] [] :=
  readsAs_of_done (s := ⟨⟨.blank, ""⟩, [], false⟩) rfl (.inr rfl)

theorem readsAs_semicolon (cs : List Char) : ReadsAs (';' :: cs) [] cs :=
  readsAs_of_done (s := ⟨⟨.blank, ""⟩, cs, true⟩) (PartialToken.scanFrom_of_done rfl) (.inl rfl)

/-- A token that does not end the statement is followed by the tokens that are read behind it, if there is
    anything behind it at all. -/
theorem readsAs_of_open {token : Token} {behind : List Char}
    (h : nextToken cs = .ok ⟨token, behind, false⟩) (hrest : ReadsAs behind tokens rest) :
    ReadsAs cs (token.kept ++ tokens) rest := by
  by_cases hnil : behind = []
  · subst hnil
    obtain ⟨rfl, rfl⟩ := hrest.unique readsAs_nil
    rw [List.append_nil]
    exact readsAs_of_done h (.inr rfl)
  · exact readsAs_of_not_done h (by simp [hnil]) hrest

/-- Blanks in front of a statement do not matter. -/
theorem ReadsAs.blank (h : ReadsAs cs tokens rest) : ReadsAs (' ' :: cs) tokens rest :=
  h.congr (PartialToken.scanFrom_of_more rfl)

/-! ## How the last token ends -/

/-- The input behind a token is what is left of the input. -/
theorem suffix_of_nextToken (h : nextToken cs = .ok s) : s.rest <:+ cs := by
  rcases PartialToken.takes_or_ends h with ⟨r, -, -, rfl⟩ | ⟨piece, hcs, -⟩
  · exact List.nil_suffix
  · exact ⟨piece, hcs.symm⟩

/-- What ends a statement is a semicolon. -/
theorem exists_semicolon_of_endsStatement (h : nextToken cs = .ok s) (hends : s.endsStatement = true) :
    ∃ piece, cs = piece ++ ';' :: s.rest := by
  rcases PartialToken.takes_or_ends h with ⟨r, -, -, rfl⟩ | ⟨piece, hcs, hpiece⟩
  · cases hends
  · rw [hends] at hpiece
    obtain ⟨piece', c, r, rfl, -, hdone⟩ := hpiece.exists_step
    obtain ⟨-, ⟨-, hfalse⟩ | ⟨rfl, -⟩⟩ := PartialToken.step_eq_done hdone
    · cases hfalse
    · exact ⟨piece', by simpa using hcs⟩

/-- A text that is read as one statement and has no semicolon at its end is not ended by one. -/
theorem Scans.unended (h : Scans cs ss rest) (hrest : rest = []) (hlast : ¬ [';'] <:+ cs) :
    ∀ s ∈ ss, s.endsStatement = false := by
  induction h with
  | @last cs s hs hdone =>
      rw [List.forall_mem_singleton, ← Bool.not_eq_true]
      intro hends
      obtain ⟨piece, hcs⟩ := exists_semicolon_of_endsStatement hs hends
      exact hlast ⟨piece, by rw [hcs, hrest]⟩
  | @cons cs s ss rest hs hdone _ ih =>
      rw [not_or, Bool.not_eq_true] at hdone
      rw [List.forall_mem_cons]
      exact ⟨hdone.1, ih hrest fun hsuffix => hlast (hsuffix.trans (suffix_of_nextToken hs))⟩

/-- Every token of a statement is the first one of some input. -/
theorem Scans.exists_nextToken (h : Scans cs ss rest) : ∀ s ∈ ss, ∃ ds, nextToken ds = .ok s := by
  induction h with
  | last hs _ => exact List.forall_mem_singleton.mpr ⟨_, hs⟩
  | cons hs _ _ ih => exact List.forall_mem_cons.mpr ⟨⟨_, hs⟩, ih⟩

/-! ## Texts with more behind them -/

/-- What stands behind a text is read on its own when the last token of the text has ended before, and is
    read into that token when it has not. -/
theorem nextToken_append (h : nextToken cs = .ok s) :
    (∃ r : PartialToken, r.Sound ∧ r.scope.isOuter = true ∧ s = ⟨r.toToken, [], false⟩ ∧
        ∀ ds, nextToken (cs ++ ds) = scanFrom r ds) ∨
      ∀ ds, nextToken (cs ++ ds) = .ok ⟨s.token, s.rest ++ ds, s.endsStatement⟩ := by
  rcases PartialToken.takes_or_ends h with ⟨r, htakes, houter, hs⟩ | ⟨piece, hcs, hends⟩
  · exact .inl ⟨r, htakes.sound PartialToken.sound_fresh, houter, hs, htakes.scanFrom_append⟩
  · right
    intro ds
    rw [hcs, List.append_assoc]
    exact hends.scanFrom_append _

theorem nextToken_append_of_rest_ne_nil (h : nextToken cs = .ok s) (hne : s.rest ≠ []) (ds : List Char) :
    nextToken (cs ++ ds) = .ok ⟨s.token, s.rest ++ ds, s.endsStatement⟩ := by
  rcases nextToken_append h with ⟨r, -, -, rfl, -⟩ | happend
  · exact absurd rfl hne
  · exact happend ds

/-- More tokens may follow behind a blank: the text is read as one statement, which no semicolon has
    ended, and no colon at its end is still without the text that it refers to. -/
structure Extensible (cs : List Char) (ss : List Scanned) : Prop where
  scans : Scans cs ss []
  unended : ∀ s ∈ ss, s.endsStatement = false
  last : ∀ s ∈ ss.getLast?, s.token ≠ ⟨.subEval, ""⟩

/-- A token that has not ended when a blank follows. Unless it is still without text, the blank ends it
    as the end of the input does. -/
theorem readsAs_pending_blank {r : PartialToken} (hsound : r.Sound) (houter : r.scope.isOuter = true)
    (hlast : r.toToken ≠ ⟨.subEval, ""⟩) (happend : nextToken cs = scanFrom r (' ' :: more))
    (hmore : ReadsAs more tokens rest) : ReadsAs cs (r.toToken.kept ++ tokens) rest := by
  by_cases htext : r.text = ""
  · -- Nothing has been read, not even a colon, so the token begins where the text ends.
    have hkind : r.kind = .literal := by
      cases hk : r.kind with
      | literal => rfl
      | subEval => simp [PartialToken.toToken, hk, htext] at hlast
      | blank => exact absurd hk hsound.kind
    have hr : r = {} := by
      have hscope := Scope.eq_of_isOuter houter
      cases r
      simp_all
    subst hr
    exact hmore.blank.congr happend
  · have hstep : r.step ' ' = .done ⟨r.kind, r.text⟩ false := by
      rw [PartialToken.step_blank_of_isOuter houter, if_neg htext]
    have htoken : r.toToken = ⟨r.kind, r.text⟩ := by
      rw [PartialToken.toToken, if_neg fun h => htext h.2]
    rw [PartialToken.scanFrom_of_done hstep] at happend
    rw [htoken]
    exact readsAs_of_open happend hmore

theorem Scans.readsAs_append (h : Scans cs ss rest) (hopen : ∀ s ∈ ss, s.endsStatement = false)
    (hlast : ∀ s ∈ ss.getLast?, s.token ≠ ⟨.subEval, ""⟩) {rest' : List Char}
    (hmore : ReadsAs more tokens rest') : ReadsAs (cs ++ ' ' :: more) (kept ss ++ tokens) rest' := by
  induction h with
  | @last cs s hs hdone =>
      have hend : s.endsStatement = false := hopen s List.mem_cons_self
      have hnil : s.rest = [] := hdone.resolve_left (by simp [hend])
      rw [kept_singleton]
      rcases nextToken_append hs with ⟨r, hsound, houter, rfl, happend⟩ | happend
      · exact readsAs_pending_blank hsound houter (hlast _ rfl) (happend _) hmore
      · have happend := happend (' ' :: more)
        rw [hnil, List.nil_append, hend] at happend
        exact readsAs_of_open happend hmore.blank
  | @cons cs s ss rest hs hdone hscans ih =>
      rw [not_or] at hdone
      have happend := nextToken_append_of_rest_ne_nil hs hdone.2 (' ' :: more)
      have hne : ss ≠ [] := by cases hscans <;> simp
      rw [hopen s List.mem_cons_self] at happend
      rw [kept_cons, List.append_assoc]
      refine readsAs_of_open happend (ih ?_ ?_)
      · exact fun s' hs' => hopen s' (List.mem_cons_of_mem s hs')
      · intro s' hs'
        refine hlast s' ?_
        rw [List.getLast?_cons_of_ne_nil hne]
        exact hs'

/-- Behind a blank the tokens of a text are followed by those of another text. -/
theorem Extensible.readsAs_append (h : Extensible cs ss) (hmore : ReadsAs more tokens rest) :
    ReadsAs (cs ++ ' ' :: more) (kept ss ++ tokens) rest :=
  h.scans.readsAs_append h.unended h.last hmore

/-- A semicolon behind a text ends its last statement, unless that had one of its own. -/
theorem Scans.semicolon (h : Scans cs ss rest) (more : List Char) :
    ReadsAs (cs ++ ';' :: more) (kept ss) (rest ++ ';' :: more) ∨
      rest = [] ∧ ReadsAs (cs ++ ';' :: more) (kept ss) more := by
  induction h with
  | @last cs s hs hdone =>
      rw [kept_singleton]
      rcases nextToken_append hs with ⟨r, -, houter, rfl, happend⟩ | happend
      · right
        have hend := happend (';' :: more)
        rw [PartialToken.scanFrom_of_done (PartialToken.step_semicolon_of_isOuter houter)] at hend
        exact ⟨rfl, readsAs_of_done hend (.inl rfl)⟩
      · have happend := happend (';' :: more)
        cases hend : s.endsStatement with
        | true => exact .inl (readsAs_of_done happend (.inl hend))
        | false =>
            have hnil : s.rest = [] := hdone.resolve_left (by simp [hend])
            rw [hnil, List.nil_append, hend] at happend
            have hread := readsAs_of_open happend (readsAs_semicolon more)
            rw [List.append_nil] at hread
            exact .inr ⟨hnil, hread⟩
  | @cons cs s ss rest hs hdone _ ih =>
      rw [not_or, Bool.not_eq_true] at hdone
      have happend := nextToken_append_of_rest_ne_nil hs hdone.2 (';' :: more)
      rw [hdone.1] at happend
      rw [kept_cons]
      rcases ih with hread | ⟨hnil, hread⟩
      · exact .inl (readsAs_of_open happend hread)
      · exact .inr ⟨hnil, readsAs_of_open happend hread⟩

/-! ## Programs -/

namespace Program

theorem ofChars_nil : ofChars [] = ⟨[], none⟩ := by
  rw [ofChars, dif_pos rfl]

theorem ofChars_of_readsAs (hne : cs ≠ []) (h : ReadsAs cs tokens rest) :
    ofChars cs = cons tokens (ofChars rest) := by
  obtain ⟨t, ht, rfl, rfl⟩ := h
  rw [ofChars, dif_neg hne]
  split
  · next e he => rw [ht] at he; cases he
  · next t' ht' =>
    rw [ht] at ht'
    cases ht'
    rfl

/-- A text that is read as one statement is a program without failure. -/
theorem failure?_of_readsAs (h : ReadsAs cs tokens []) : (ofChars cs).failure? = none := by
  by_cases hempty : cs = []
  · rw [hempty, ofChars_nil]
  · rw [ofChars_of_readsAs hempty h, ofChars_nil]
    rfl

/-- A text without failure, a semicolon and any other text: their statements in order, with a statement
    without tokens between them where the first text has ended its last statement itself. -/
theorem exists_ofChars_append_semicolon {a : List Char} (h : (ofChars a).failure? = none)
    (b : List Char) :
    ∃ gap, (∀ tokens ∈ gap, tokens = []) ∧
      ofChars (a ++ ';' :: b) =
        ⟨(ofChars a).statements ++ gap ++ (ofChars b).statements, (ofChars b).failure?⟩ := by
  fun_induction ofChars a with
  | case1 =>
      refine ⟨[[]], by simp, ?_⟩
      rw [List.nil_append, ofChars_of_readsAs (by simp) (readsAs_semicolon b)]
      rfl
  | case2 cs hne e he => cases h
  | case3 cs hne t ht hlt ih =>
      obtain ⟨ss, hscans, htokens⟩ := exists_scans ht
      obtain ⟨gap, hgap, hrest⟩ := ih h
      rw [htokens]
      rcases hscans.semicolon b with hread | ⟨hnil, hread⟩
      · refine ⟨gap, hgap, ?_⟩
        rw [ofChars_of_readsAs (by simp) hread, hrest]
        rfl
      · refine ⟨[], by simp, ?_⟩
        rw [ofChars_of_readsAs (by simp) hread, hnil, ofChars_nil]
        rfl

end Program
end CommandShell
