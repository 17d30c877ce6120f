import CommandShell.Proofs.Aliases

/-!
# `CommandShell.Proofs.Injection` — what arguments can do to the statement of an alias

The arguments of a call are data. An alias that is a single word puts them into a text behind the word,
and when they have been read again they should still be data: literals of the one statement that the
word begins. A text that is forwardable comes back as it is. Any other literal text has quotes in it and
braces that are not balanced; it is put between quotes, which its own quotes close again, and what stands
outside is read as it may be.

## Contents
- `IsLiteralText`, the texts that arguments can be, and `IsSingleCall`.
- `quoteIfNeeded_of_not_forwardable`, the written form of those that are not forwardable.
- `aliases_single_call_iff`, the arguments that can do no harm, and `exists_injection`, one that does.
-/

namespace CommandShell

open Binding

variable {cs : List Char} {ss : List Scanned} {a : String}

/-! ## The arguments of a call -/

/-- Some statement has this text as a literal. -/
def IsLiteralText (a : String) : Prop :=
  ∃ cs t, nextStatement cs = .ok t ∧ ⟨.literal, a⟩ ∈ t.tokens

/-- The text is read as a single statement that nests no other one. -/
def IsSingleCall (cs : List Char) : Prop :=
  ∃ t, nextStatement cs = .ok t ∧ t.rest = [] ∧ ∀ token ∈ t.tokens, token.kind ≠ .subEval

theorem isSingleCall_iff :
    IsSingleCall cs ↔ ∃ ss, Scans cs ss [] ∧ ∀ s ∈ ss, s.token.kind ≠ .subEval := by
  constructor
  · rintro ⟨t, ht, hrest, hkinds⟩
    obtain ⟨ss, hscans, htokens⟩ := exists_scans ht
    rw [hrest] at hscans
    refine ⟨ss, hscans, fun s hs hkind => hkinds s.token ?_ hkind⟩
    rw [htokens]
    exact mem_kept.mpr ⟨by simp [hkind], s, hs, rfl⟩
  · rintro ⟨ss, hscans, hkinds⟩
    obtain ⟨t, ht, htokens, hrest⟩ := hscans.readsAs
    refine ⟨t, ht, hrest, fun token hmem => ?_⟩
    rw [htokens] at hmem
    obtain ⟨-, s, hs, rfl⟩ := mem_kept.mp hmem
    exact hkinds s hs

/-- A single call without a semicolon at its end may have more tokens behind it. -/
theorem Scans.extensible (h : Scans cs ss []) (hlast : ¬ [';'] <:+ cs)
    (hkinds : ∀ s ∈ ss, s.token.kind ≠ .subEval) : Extensible cs ss where
  scans := h
  unended := h.unended rfl hlast
  last s hs htoken := hkinds s (List.mem_of_getLast? hs) (by rw [htoken])

/-- There is no line break in a literal text, and its quotes are paired. -/
theorem IsLiteralText.text (h : IsLiteralText a) :
    (∀ c ∈ a.toList, c ≠ '\r' ∧ c ≠ '\n') ∧ a.toList.count '"' % 2 = 0 := by
  obtain ⟨cs, t, ht, hmem⟩ := h
  obtain ⟨ss, hscans, htokens⟩ := exists_scans ht
  rw [htokens] at hmem
  obtain ⟨-, s, hs, htoken⟩ := mem_kept.mp hmem
  obtain ⟨ds, hnext⟩ := hscans.exists_nextToken s hs
  have := text_of_nextToken hnext
  rwa [htoken] at this

/-- A literal text that is not forwardable is put between quotes. -/
theorem quoteIfNeeded_of_not_forwardable (ha : IsLiteralText a) (h : ¬ Forwardable a) :
    quoteIfNeeded a = quoted a :=
  quoteIfNeeded_of_paired ha.text.1 ha.text.2 h

/-- The written form of a harmless argument may have more arguments behind it. -/
theorem exists_extensible (ha : IsLiteralText a) (h : Forwardable a ∨ IsSingleCall (quoted a).toList) :
    ∃ ss, Extensible (quoteIfNeeded a).toList ss ∧ ∀ s ∈ ss, s.token.kind ≠ .subEval := by
  by_cases hforward : Forwardable a
  · exact ⟨_, extensible_of_literal (nextToken_quoteIfNeeded hforward), by simp⟩
  · rw [quoteIfNeeded_of_not_forwardable ha hforward]
    obtain ⟨ss, hscans, hkinds⟩ := isSingleCall_iff.mp (h.resolve_left hforward)
    refine ⟨ss, hscans.extensible ?_ hkinds, hkinds⟩
    -- The last character is the closing quote.
    rintro ⟨piece, hpiece⟩
    have hquote : (quoted a).toList = ('"' :: a.toList) ++ ['"'] := by
      simp [quoted]
    rw [hquote] at hpiece
    have := (List.append_inj' hpiece rfl).2
    simp at this

/-- A word and arguments of which each is a single call in its written form. -/
theorem isSingleCall_aliasStatement {word : String} (hword : PlainWord word) {texts : List String}
    {reading : String → List Scanned}
    (htexts : ∀ a ∈ texts, Extensible (quoteIfNeeded a).toList (reading a) ∧
      ∀ s ∈ reading a, s.token.kind ≠ .subEval) : IsSingleCall (aliasStatement word texts).toList := by
  have hfirst := extensible_of_literal hword.nextToken
  have hread := hfirst.readsAs_arguments reading fun a ha => (htexts a ha).1
  rw [← toList_aliasStatement] at hread
  obtain ⟨t, ht, htokens, hrest⟩ := hread
  refine ⟨t, ht, hrest, ?_⟩
  rw [htokens]
  simp only [List.mem_append, List.mem_flatMap]
  rintro token (hmem | ⟨a, ha, hmem⟩)
  · obtain ⟨-, s, hs, rfl⟩ := mem_kept.mp hmem
    cases List.mem_singleton.mp hs
    simp
  · obtain ⟨-, s, hs, rfl⟩ := mem_kept.mp hmem
    exact (htexts a ha).2 s hs

/-- What stands behind a word is a single call if both are one together. -/
theorem isSingleCall_of_word {word : String} (hword : PlainWord word) {cs : List Char} (hne : cs ≠ [])
    (h : IsSingleCall (word.toList ++ ' ' :: cs)) : IsSingleCall cs := by
  obtain ⟨ss, hscans, hkinds⟩ := isSingleCall_iff.mp h
  have hfirst := hword.nextToken_append cs
  generalize hnil : ([] : List Char) = rest at hscans
  cases hscans with
  | last hs hdone =>
      rw [hfirst] at hs
      cases hs
      simp [hne] at hdone
  | @cons _ s ss _ hs _ hscans =>
      rw [hfirst] at hs
      cases hs
      rw [← hnil] at hscans
      exact isSingleCall_iff.mpr ⟨ss, hscans, (List.forall_mem_cons.mp hkinds).2⟩

/-- The arguments with a property can do no harm behind any word, in whatever order they come, exactly if
    each of them is forwardable or is a single call when it stands between quotes alone. -/
theorem aliases_single_call_iff {A : String → Prop} (hA : ∀ a, A a → IsLiteralText a) :
    (∀ word, PlainWord word → ∀ texts : List String, (∀ a ∈ texts, A a) →
        IsSingleCall (aliasStatement word texts).toList) ↔
      ∀ a, A a → Forwardable a ∨ IsSingleCall (quoted a).toList := by
  constructor
  · intro h a ha
    by_cases hforward : Forwardable a
    · exact .inl hforward
    · right
      -- The argument alone, behind some word.
      have hword : PlainWord "p" := by decide
      have hcall := h "p" hword [a] (List.forall_mem_singleton.mpr ha)
      rw [toList_aliasStatement, writtenArguments, List.flatMap_singleton,
        quoteIfNeeded_of_not_forwardable (hA a ha) hforward] at hcall
      exact isSingleCall_of_word hword (by simp [quoted]) hcall
  · intro h word hword texts htexts
    have hread : ∀ a, ∃ ss, A a → Extensible (quoteIfNeeded a).toList ss ∧
        ∀ s ∈ ss, s.token.kind ≠ .subEval := by
      intro a
      by_cases ha : A a
      · obtain ⟨ss, hss⟩ := exists_extensible (hA a ha) (h a ha)
        exact ⟨ss, fun _ => hss⟩
      · exact ⟨[], fun ha' => absurd ha' ha⟩
    obtain ⟨reading, hreading⟩ := Classical.skolem.mp hread
    exact isSingleCall_aliasStatement hword fun a ha => hreading a (htexts a ha)

/-- An argument that is not forwardable and yet does no harm: put between quotes, it has its brace between
    quotes as well. -/
theorem aliases_single_call_quoted_brace :
    ¬ Forwardable "\"a\" , \x7b" ∧
      ∀ word, PlainWord word → ∀ texts : List String, (∀ a ∈ texts, a = "\"a\" , \x7b") →
        IsSingleCall (aliasStatement word texts).toList := by
  have hliteral : IsLiteralText "\"a\" , \x7b" := by
    have hnext : nextToken "(\"a\" , \x7b)".toList = .ok ⟨⟨.literal, "\"a\" , \x7b"⟩, [], false⟩ := rfl
    obtain ⟨t, ht, htokens, -⟩ := readsAs_of_done hnext (.inr rfl)
    exact ⟨_, t, ht, by rw [htokens]; decide⟩
  have hcall : IsSingleCall (quoted "\"a\" , \x7b").toList := by
    have hscans : Scans (quoted "\"a\" , \x7b").toList
        [⟨⟨.literal, ""⟩, "a\" , \x7b\"".toList, false⟩, ⟨⟨.literal, "a , \x7b"⟩, [], false⟩] [] :=
      .cons rfl (by decide) (.last rfl (.inr rfl))
    exact isSingleCall_iff.mpr ⟨_, hscans, by decide⟩
  refine ⟨by decide, (aliases_single_call_iff (A := (· = "\"a\" , \x7b")) ?_).mpr ?_⟩
  · rintro _ rfl
    exact hliteral
  · rintro _ rfl
    exact .inr hcall

/-- An argument can be written that makes two statements of the one. -/
theorem exists_injection :
    ¬ ∀ word, PlainWord word → ∀ texts : List String, (∀ a ∈ texts, IsLiteralText a) →
        IsSingleCall (aliasStatement word texts).toList := by
  intro h
  have hliteral : IsLiteralText "\"; print injected \", \x7b" := by
    have hnext : nextToken "(\"; print injected \", \x7b)".toList =
        .ok ⟨⟨.literal, "\"; print injected \", \x7b"⟩, [], false⟩ := rfl
    obtain ⟨t, ht, htokens, -⟩ := readsAs_of_done hnext (.inr rfl)
    exact ⟨_, t, ht, by rw [htokens]; decide⟩
  have hscans : Scans (aliasStatement "echo" ["\"; print injected \", \x7b"]).toList
      [⟨⟨.literal, "echo"⟩, "\"\"; print injected \", \x7b\"".toList, false⟩,
        ⟨⟨.literal, ""⟩, "; print injected \", \x7b\"".toList, false⟩,
        ⟨⟨.blank, ""⟩, " print injected \", \x7b\"".toList, true⟩]
      " print injected \", \x7b\"".toList :=
    .cons rfl (by decide) (.cons rfl (by decide) (.last rfl (.inl rfl)))
  obtain ⟨t, ht, hrest, -⟩ := h "echo" (by decide) _ (List.forall_mem_singleton.mpr hliteral)
  have := (hscans.readsAs.unique ⟨t, ht, rfl, hrest⟩).2
  simp at this

-- The second statement runs.
example :
    (((Shell.eval "p (\"; print injected \", \x7b)").run
      ((Shell.eval "alias p echo").run (Shell.start {} ())).2).2.output.lines.map (·.text)) =
        ["", "injected"] := by
  decide +kernel

end CommandShell
