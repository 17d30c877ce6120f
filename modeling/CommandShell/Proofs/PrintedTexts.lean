import CommandShell.Proofs.ArrayRoundTrip

/-!
# `CommandShell.Proofs.PrintedTexts` — which printed texts read back

A text in a printed array stands between quotes if it is empty or a delimiter is in it. The reader has
its own idea of what is no text: it trims a part of a literal of all white space before it reads it, and a
line break belongs to no token, between quotes or not. So a text without quotes is always read as some
text, and all that can be lost of it is its line breaks and, where the writer saw no delimiter in it, the
white space at its ends. A text of line breaks alone is even lost as a whole, if it is all there is.

## Contents
- `readBack`, what becomes of a text, and `ReadsBack`, the texts that stay as they are.
- `nextToken_elementText_unquoted`, a printed text as a token.
- `parse_display_texts`, what a printed array of texts converts to, and `parse_display_texts_eq_iff`, when
  that is the same array.
- `parse_display_unbroken`, the arrays that lose nothing but line breaks.
-/

namespace CommandShell

/-! ## Texts that come back -/

/-- What is read where a text without quotes stands in a printed array. -/
def readBack (t : String) : String :=
  String.ofList (unbroken (if Value.needsQuotes t then t.toList else Text.trimChars t.toList))

/-- The text is put between quotes, or it neither begins nor ends with white space, apart from line breaks
    that are lost anyway. -/
def KeepsEnds (t : String) : Prop :=
  Value.needsQuotes t = false → Text.trimChars (unbroken t.toList) = unbroken t.toList

instance (t : String) : Decidable (KeepsEnds t) :=
  inferInstanceAs (Decidable (_ → _))

/-- The text is not empty, but without its line breaks it is. -/
def OnlyBreaks (t : String) : Prop :=
  t ≠ "" ∧ unbroken t.toList = []

instance (t : String) : Decidable (OnlyBreaks t) :=
  inferInstanceAs (Decidable (_ ∧ _))

/-- There is nothing in the text that the reader would leave out. -/
structure ReadsBack (t : String) : Prop where
  breaks : ∀ c ∈ t.toList, c ≠ '\r' ∧ c ≠ '\n'
  ends : KeepsEnds t

/-- Line breaks are white space, so it does not matter which of both is taken away first. -/
theorem dropWhile_unbroken (cs : List Char) :
    (unbroken cs).dropWhile Text.isBlank = unbroken (cs.dropWhile Text.isBlank) := by
  induction cs with
  | nil => rfl
  | cons c cs ih =>
      by_cases hbreak : c = '\r' ∨ c = '\n'
      · have hblank : Text.isBlank c = true := by rcases hbreak with rfl | rfl <;> decide
        rw [unbroken_cons_of_break hbreak, ih, List.dropWhile_cons_of_pos hblank]
      · rw [unbroken_cons_of_not_break hbreak]
        cases hblank : Text.isBlank c with
        | true => rw [List.dropWhile_cons_of_pos hblank, List.dropWhile_cons_of_pos hblank, ih]
        | false =>
            rw [List.dropWhile_cons_of_neg (by simp [hblank]),
              List.dropWhile_cons_of_neg (by simp [hblank]), unbroken_cons_of_not_break hbreak]

theorem trimChars_unbroken (cs : List Char) :
    Text.trimChars (unbroken cs) = unbroken (Text.trimChars cs) := by
  have hreverse (ds : List Char) : (unbroken ds).reverse = unbroken ds.reverse := List.filter_reverse.symm
  simp only [Text.trimChars, Text.dropTrailingBlank, dropWhile_unbroken, hreverse]

/-- Where the ends are kept, line breaks are all that is lost. -/
theorem KeepsEnds.readBack_eq {t : String} (h : KeepsEnds t) :
    readBack t = String.ofList (unbroken t.toList) := by
  rw [readBack]
  cases hquotes : Value.needsQuotes t with
  | true => rw [if_pos rfl]
  | false => rw [if_neg (by simp), ← trimChars_unbroken, h hquotes]

theorem unbroken_sublist (cs : List Char) : (unbroken cs).Sublist cs :=
  List.filter_sublist

/-- A part of a text that is as good as the text without its line breaks is all of the text. -/
theorem unbroken_eq_iff {cs ds : List Char} (h : ds.Sublist cs) :
    unbroken ds = cs ↔ ds = cs ∧ ∀ c ∈ cs, c ≠ '\r' ∧ c ≠ '\n' := by
  constructor
  · intro heq
    have hds : ds = cs := h.eq_of_length_le (heq ▸ (unbroken_sublist ds).length_le)
    rw [hds] at heq
    exact ⟨hds, unbroken_eq_self_iff.mp heq⟩
  · rintro ⟨rfl, hbreaks⟩
    exact unbroken_eq_self_iff.mpr hbreaks

theorem readBack_eq_iff {t : String} : readBack t = t ↔ ReadsBack t := by
  have hlists {cs : List Char} : String.ofList cs = t ↔ cs = t.toList := by
    rw [← String.toList_inj, String.toList_ofList]
  rw [readBack, hlists]
  cases hquotes : Value.needsQuotes t with
  | true =>
      rw [if_pos rfl, unbroken_eq_self_iff]
      exact ⟨fun h => ⟨h, fun hbare => by simp [hquotes] at hbare⟩, fun h => h.breaks⟩
  | false =>
      rw [if_neg (by simp), unbroken_eq_iff (Text.trimChars_sublist _)]
      constructor
      · rintro ⟨htrim, hbreaks⟩
        refine ⟨hbreaks, fun _ => ?_⟩
        rw [unbroken_eq_self_iff.mpr hbreaks, htrim]
      · rintro ⟨hbreaks, hends⟩
        have htrim := hends hquotes
        rw [unbroken_eq_self_iff.mpr hbreaks] at htrim
        exact ⟨htrim, hbreaks⟩

theorem ReadsBack.not_onlyBreaks {t : String} (h : ReadsBack t) : ¬ OnlyBreaks t := by
  rintro ⟨hne, hnone⟩
  rw [unbroken_eq_self_iff.mpr h.breaks] at hnone
  exact hne (String.toList_eq_nil_iff.mp hnone)

/-! ## Printed texts -/

section Printed

variable {t : String}

/-- A text that nothing but line breaks acts in is one token, which ends with its input. -/
theorem nextToken_bare {cs : List Char} (h : ∀ c ∈ unbroken cs, c ∉ PartialToken.actingChars) :
    ∃ kind, kind ≠ .subEval ∧
      nextToken cs = .ok ⟨⟨kind, String.ofList (unbroken cs)⟩, [], false⟩ := by
  have htakes := (PartialToken.takes_word (r := {}) rfl h).of_unbroken
  let r : PartialToken := .append {} (unbroken cs)
  have hscan : nextToken cs = .ok ⟨r.toToken, [], false⟩ := by
    have := htakes.scanFrom_append []
    rw [List.append_nil] at this
    rw [nextToken, this, PartialToken.scanFrom_nil_eq_ok_iff]
    exact ⟨rfl, rfl⟩
  have htext : r.toToken.text = String.ofList (unbroken cs) := by
    rw [r.toToken_text]
    simp [r]
  refine ⟨r.toToken.kind, r.toToken_kind_ne_subEval (by simp [r]), ?_⟩
  rw [hscan, ← htext]

/-- A printed text is a single token, and never one that is evaluated. -/
theorem nextToken_elementText_unquoted (hquote : '"' ∉ t.toList) :
    ∃ kind, kind ≠ .subEval ∧ nextToken (Text.trimChars (Value.text t).elementText.toList) =
      .ok ⟨⟨kind, readBack t⟩, [], false⟩ := by
  rw [Value.elementText, readBack]
  cases hquotes : Value.needsQuotes t with
  | true =>
      have htext : (if true then "\"" ++ t ++ "\"" else t).toList = '"' :: (t.toList ++ ['"']) := by simp
      have hblank : Text.isBlank '"' = false := by decide
      obtain ⟨hfirst, hlast⟩ := Text.ends_enclosed hblank hblank t.toList
      have hscan := (PartialToken.ends_quoted hquote).scanFrom_append []
      rw [List.append_nil, List.cons_append] at hscan
      rw [htext, Text.trimChars_eq_self_of_ends hfirst hlast]
      exact ⟨.literal, by decide, hscan⟩
  | false =>
      have hplain := (Value.needsQuotes_eq_false_iff.mp hquotes).2
      refine nextToken_bare fun c hc => ?_
      obtain ⟨hmem, hbreak⟩ := mem_unbroken.mp hc
      exact not_acting_of_not_delimiter (hplain c ((Text.trimChars_sublist _).subset hmem)) hbreak

theorem passes_elementText (hquote : '"' ∉ t.toList) :
    Scope.Passes {} (Value.text t).elementText.toList {} := by
  rw [Value.elementText]
  cases hquotes : Value.needsQuotes t with
  | true => simpa using Scope.passes_quoted hquote
  | false => exact Scope.passes_word (Value.needsQuotes_eq_false_iff.mp hquotes).2

/-- Where the ends are kept, only a text of line breaks is blank in print. -/
theorem KeepsEnds.onlyBreaks (h : KeepsEnds t)
    (hblank : Text.allBlank (Value.text t).elementText.toList = true) : OnlyBreaks t := by
  rw [Value.elementText] at hblank
  cases hquotes : Value.needsQuotes t with
  | true => simp [hquotes, Text.allBlank, show Text.isBlank '"' = false by decide] at hblank
  | false =>
      rw [hquotes, if_neg (by simp)] at hblank
      have hall : Text.allBlank (unbroken t.toList) = true :=
        List.all_eq_true.mpr fun c hc => List.all_eq_true.mp hblank c ((unbroken_sublist _).subset hc)
      refine ⟨(Value.needsQuotes_eq_false_iff.mp hquotes).1, ?_⟩
      rw [← h hquotes, Text.trimChars_of_allBlank hall]

end Printed

/-! ## Printed arrays -/

namespace Parse

theorem parseParts_done {α : Type} {element : Parser} {items : List α} {part : α → List Char}
    {value : α → Value}
    (h : ∀ a ∈ items, ∀ index, parseElement element index (part a) = .done (.ok (value a)))
    (index : Nat) : parseParts element index (items.map part) = .done (.ok (items.map value)) := by
  induction items generalizing index with
  | nil => rfl
  | cons a items ih =>
      rw [List.forall_mem_cons] at h
      rw [List.map_cons, parseParts, h.1 index, ih h.2 (index + 1)]
      rfl

end Parse

/-- A printed array of texts converts to an array of texts, and nothing is evaluated for that. A text of
    white space alone is the array without elements. -/
theorem parse_display_texts {texts : List String} (hquotes : ∀ t ∈ texts, '"' ∉ t.toList) :
    Conversions.standard.parse (.array .text) (Value.array (texts.map .text)).display =
      .done (.ok (.array ((if Text.allBlank (Value.array (texts.map .text)).display.toList then []
        else texts.map readBack).map .text))) := by
  have hparser : Conversions.standard.parserFor? .text = some fun s => .done (parseText s) := rfl
  have htext : (Value.array (texts.map .text)).display.toList =
      commaJoined (texts.map fun t => (Value.text t).elementText.toList) := by
    rw [Value.toList_display_array, List.map_map]
    rfl
  rw [Conversions.parse, Conversions.parserFor?_standard_array hparser]
  show parseArray _ _ = _
  rw [parseArray]
  cases hblank : Text.allBlank (Value.array (texts.map .text)).display.toList with
  | true =>
      rw [parseElements, if_pos hblank]
      rfl
  | false =>
      have hitem : ∀ t ∈ texts, ∀ index, parseElement (fun s => .done (parseText s)) index
          (Value.text t).elementText.toList = .done (.ok (.text (readBack t))) := by
        intro t ht index
        obtain ⟨kind, hkind, hnext⟩ := nextToken_elementText_unquoted (hquotes t ht)
        rw [Parse.parseElement_of_trimmed hnext, if_neg hkind]
        rfl
      have hpasses : ∀ p ∈ texts.map fun t => (Value.text t).elementText.toList, Scope.Passes {} p {} :=
        List.forall_mem_map.mpr fun t ht => passes_elementText (hquotes t ht)
      rw [Parse.parseElements_commaJoined htext hblank hpasses, Parse.parseParts_done hitem 0,
        if_neg (by simp), List.map_map]
      rfl

/-- Where all texts keep their ends, an array that is blank in print is empty, or it is a single text of
    line breaks: of several texts there would be a comma. -/
theorem allBlank_display_texts {texts : List String} (hends : ∀ t ∈ texts, KeepsEnds t)
    (hblank : Text.allBlank (Value.array (texts.map .text)).display.toList = true) :
    texts = [] ∨ ∃ t, OnlyBreaks t ∧ texts = [t] := by
  rw [Value.toList_display_array, Text.allBlank, List.all_eq_true] at hblank
  rcases texts with _ | ⟨t, _ | ⟨u, texts⟩⟩
  · exact .inl rfl
  · refine .inr ⟨t, (hends t List.mem_cons_self).onlyBreaks (List.all_eq_true.mpr fun c hc => ?_), rfl⟩
    exact hblank c (by simpa [commaJoined, commaLed] using hc)
  · have hcomma := hblank ',' (by simp [commaJoined, commaLed])
    exact absurd hcomma (by decide)

/-- So nothing is taken for the array without elements, unless it is such a text. -/
theorem readBack_texts {texts : List String} (hends : ∀ t ∈ texts, KeepsEnds t)
    (hwhole : ∀ t, OnlyBreaks t → texts ≠ [t]) :
    (if Text.allBlank (Value.array (texts.map .text)).display.toList then [] else texts.map readBack) =
      texts.map readBack := by
  split
  · next hblank =>
    rcases allBlank_display_texts hends hblank with rfl | ⟨t, ht, rfl⟩
    · rfl
    · exact absurd rfl (hwhole t ht)
  · rfl

theorem map_text_inj {us vs : List String} : us.map Value.text = vs.map Value.text ↔ us = vs :=
  List.map_inj_right fun _ _ h => Value.text.inj h

theorem map_readBack_eq_iff {texts : List String} :
    texts.map readBack = texts ↔ ∀ t ∈ texts, ReadsBack t := by
  have := List.map_inj_left (f := readBack) (g := id) (l := texts)
  simpa [readBack_eq_iff] using this

/-- A printed array of texts without quotes reads back exactly if each of the texts does. -/
theorem parse_display_texts_eq_iff {texts : List String} (hquotes : ∀ t ∈ texts, '"' ∉ t.toList) :
    Conversions.standard.parse (.array .text) (Value.array (texts.map .text)).display =
      .done (.ok (.array (texts.map .text))) ↔ ∀ t ∈ texts, ReadsBack t := by
  rw [parse_display_texts hquotes, Parse.done.injEq, Except.ok.injEq, Value.array.injEq, map_text_inj]
  constructor
  · intro heq
    split at heq
    · simp [← heq]
    · exact map_readBack_eq_iff.mp heq
  · intro hall
    have hwhole : ∀ t, OnlyBreaks t → texts ≠ [t] := by
      rintro t ht rfl
      exact (hall t (List.mem_singleton.mpr rfl)).not_onlyBreaks ht
    rw [readBack_texts (fun t ht => (hall t ht).ends) hwhole]
    exact map_readBack_eq_iff.mpr hall

/-- A printed array of texts that have no quotes and keep their ends, but for a single text of line breaks,
    is read as the array of these texts without their line breaks, whatever the resolver would answer. So
    it reads back exactly if there is no line break in it. -/
theorem parse_display_unbroken {texts : List String} (hquotes : ∀ t ∈ texts, '"' ∉ t.toList)
    (hends : ∀ t ∈ texts, KeepsEnds t) (hwhole : ∀ t, OnlyBreaks t → texts ≠ [t])
    (resolver : String → Except ShellError String) :
    (Conversions.standard.parse (.array .text) (Value.array (texts.map .text)).display).runPure resolver =
        .ok (.array (texts.map fun t => .text (String.ofList (unbroken t.toList)))) ∧
      ((Conversions.standard.parse (.array .text) (Value.array (texts.map .text)).display).runPure
            resolver = .ok (.array (texts.map .text)) ↔
        ∀ t ∈ texts, ∀ c ∈ t.toList, c ≠ '\r' ∧ c ≠ '\n') := by
  rw [parse_display_texts hquotes, readBack_texts hends hwhole, Parse.runPure_done]
  have hitems : texts.map (Value.text ∘ readBack) =
      texts.map fun t => .text (String.ofList (unbroken t.toList)) :=
    List.map_congr_left fun t ht => congrArg Value.text (hends t ht).readBack_eq
  constructor
  · rw [List.map_map, hitems]
  · rw [Except.ok.injEq, Value.array.injEq, map_text_inj, map_readBack_eq_iff]
    exact ⟨fun h t ht => (h t ht).breaks, fun h t ht => ⟨h t ht, hends t ht⟩⟩

/-- A delimiter, white space inside of a word, no character at all, and line breaks between quotes, at the
    ends of a word and alone. -/
theorem parse_display_unbroken_delimited :
    (Conversions.standard.parse (.array .text) (Value.array [.text " a, b", .text "c\u00a0d", .text "",
        .text "e\n f", .text "\ng\r\n", .text "\n"]).display).runPure Parse.verbatim =
      .ok (.array [.text " a, b", .text "c\u00a0d", .text "", .text "e f", .text "g", .text ""]) :=
  (@parse_display_unbroken [" a, b", "c\u00a0d", "", "e\n f", "\ng\r\n", "\n"] (by decide) (by decide)
    (by simp) Parse.verbatim).1

/-- A line break is lost between quotes as well. -/
theorem parse_display_loses_line_break :
    ¬ ∀ texts : List String, (∀ t ∈ texts, '"' ∉ t.toList) →
      (Conversions.standard.parse (.array .text) (Value.array (texts.map .text)).display).runPure
        Parse.verbatim = .ok (.array (texts.map .text)) := by
  intro h
  have hlost := h ["a,\n b", "c"] (by decide)
  have hread : (Conversions.standard.parse (.array .text)
      (Value.array [.text "a,\n b", .text "c"]).display).runPure Parse.verbatim =
        .ok (.array [.text "a, b", .text "c"]) := rfl
  rw [List.map_cons, List.map_singleton, hread] at hlost
  simp at hlost

end CommandShell
