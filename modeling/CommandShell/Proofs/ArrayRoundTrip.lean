import CommandShell.Conversion.Table
import CommandShell.Proofs.Reading.ArrayText

/-!
# `CommandShell.Proofs.ArrayRoundTrip` — printed arrays read back

What a command answers is printed, and what is printed can be written into a statement again. An array
of texts, truth values and such arrays comes back as it was, if there is no quote in its texts, which
could not be written, and no white space apart from blanks and tabs, which would be lost or trimmed.

Reading goes down the levels of the array as printing went up. On each of them the text is split, every
part is trimmed and read as one token, and the text of the token is what the element itself prints.

## Contents
- `ValueType.IsTextual` and `ValueType.Has`, the arrays in question, and `Value.texts`, the texts in them.
- `isElement_elementText` and `nextToken_elementText`, a printed element.
- `Parse.parseElements_display` and `Parse.runPure_parseElements`, the elements of a printed list.
- `parse_display`.
-/

namespace CommandShell

/-! ## Values of a type -/

namespace ValueType

/-- Texts, truth values and arrays of them, nested to any depth. -/
inductive IsTextual : ValueType → Prop where
  | text : IsTextual .text
  | bool : IsTextual .bool
  | array {element} : IsTextual element → IsTextual (.array element)

/-- The value is one of the type. -/
inductive Has : ValueType → Value → Prop where
  | text (s) : Has .text (.text s)
  | bool (b) : Has .bool (.bool b)
  | array {element items} : (∀ v ∈ items, Has element v) → Has (.array element) (.array items)

end ValueType

namespace Value

mutual

/-- The texts in a value, at any depth. -/
def texts : Value → List String
  | text s => [s]
  | array items => textsOf items
  | _ => []

/-- The texts in the values of a list. -/
def textsOf : List Value → List String
  | [] => []
  | v :: vs => texts v ++ textsOf vs

end

theorem mem_textsOf {items : List Value} {v : Value} (hv : v ∈ items) {s : String} (hs : s ∈ v.texts) :
    s ∈ textsOf items := by
  induction items with
  | nil => cases hv
  | cons w items ih =>
      rw [textsOf, List.mem_append]
      rcases List.mem_cons.mp hv with rfl | hv
      · exact .inl hs
      · exact .inr (ih hv)

/-- How an element is read when it stands in an array. -/
def elementKind : Value → TokenKind
  | array items => groupKind items.length
  | _ => .literal

theorem elementTexts_eq_map (items : List Value) : elementTexts items = items.map elementText := by
  induction items with
  | nil => rfl
  | cons v items ih => rw [elementTexts, ih, List.map_cons]

/-- An array is printed as what its elements print, with commas and blanks between. -/
theorem toList_display_array (items : List Value) :
    (array items).display.toList = commaJoined (items.map fun v => v.elementText.toList) := by
  rw [display, commaSeparated, elementTexts_eq_map, String.toList_intercalate,
    commaJoined_eq_intercalate, List.map_map]
  rfl

/-- Inside of an array it stands in parentheses. -/
theorem toList_elementText_array (items : List Value) :
    (array items).elementText.toList =
      '(' :: (commaJoined (items.map fun v => v.elementText.toList) ++ [')']) := by
  rw [← toList_display_array, elementText, display]
  simp

end Value

/-- There is no quote in the text, and no white space apart from blanks and tabs. -/
def IsPrintable (s : String) : Prop :=
  ∀ c ∈ s.toList, c ≠ '"' ∧ (Text.isBlank c = true → c = ' ' ∨ c = '\t')

instance (s : String) : Decidable (IsPrintable s) :=
  decidable_of_iff (s.toList.all fun c => c ≠ '"' ∧ (Text.isBlank c = true → c = ' ' ∨ c = '\t')) <| by
    simp only [List.all_eq_true, decide_eq_true_eq, IsPrintable]

/-! ## Printed elements -/

/-- Such a text may stand between quotes. -/
theorem IsPrintable.quotable {s : String} (h : IsPrintable s) :
    ∀ c ∈ s.toList, c ≠ '\r' ∧ c ≠ '\n' ∧ c ≠ '"' := by
  intro c hc
  obtain ⟨hquote, hblank⟩ := h c hc
  refine ⟨?_, ?_, hquote⟩ <;>
  · rintro rfl
    exact absurd (hblank (by decide)) (by decide)

theorem Value.needsQuotes_eq_false_iff {s : String} :
    needsQuotes s = false ↔ s ≠ "" ∧ ∀ c ∈ s.toList, c ∉ delimiters := by
  simp [needsQuotes]

/-- A printable text that is not put between quotes is a word. -/
theorem IsPrintable.word {s : String} (h : IsPrintable s) (hquotes : Value.needsQuotes s = false) :
    s ≠ "" ∧ ∀ c ∈ s.toList, c ∉ Value.delimiters ∧ Text.isBlank c = false := by
  have hplain := Value.needsQuotes_eq_false_iff.mp hquotes
  refine ⟨hplain.1, fun c hc => ⟨hplain.2 c hc, ?_⟩⟩
  rw [← Bool.not_eq_true]
  intro hblank
  rcases (h c hc).2 hblank with rfl | rfl <;> exact absurd (hplain.2 _ hc) (by decide)

theorem isElement_elementText_text {s : String} (h : IsPrintable s) :
    IsElement (Value.text s).elementText.toList := by
  rw [Value.elementText]
  cases hquotes : Value.needsQuotes s with
  | true => simpa using IsElement.quoted h.quotable
  | false =>
      obtain ⟨hne, hplain⟩ := h.word hquotes
      exact .word (by simpa using hne) hplain

theorem nextToken_elementText_text {s : String} (h : IsPrintable s) :
    nextToken (Value.text s).elementText.toList = .ok ⟨⟨.literal, s⟩, [], false⟩ := by
  rw [Value.elementText]
  cases hquotes : Value.needsQuotes s with
  | true => exact nextToken_quoted h.quotable
  | false =>
      obtain ⟨hne, hplain⟩ := h.word hquotes
      have hword : PlainWord s := ⟨hne, fun c hc => not_acting_of_word (hplain c hc)⟩
      exact hword.nextToken

/-- What a value prints as an element is a word, a text between quotes or a group. The induction is on
    the value. -/
theorem isElement_elementText {type : ValueType} {v : Value} (hv : type.Has v)
    (htexts : ∀ s ∈ v.texts, IsPrintable s) : IsElement v.elementText.toList := by
  induction hv with
  | text s => exact isElement_elementText_text (htexts s (List.mem_singleton.mpr rfl))
  | bool b => cases b <;> exact isElement_of_word (by decide)
  | array _ ih =>
      rw [Value.toList_elementText_array]
      refine .group (List.forall_mem_map.mpr fun v hv => ih v hv fun s hs => ?_)
      exact htexts s (Value.mem_textsOf hv hs)

/-- A printed element is one token, and the text of the token is what the element prints on its own. -/
theorem nextToken_elementText {type : ValueType} {v : Value} (hv : type.Has v)
    (htexts : ∀ s ∈ v.texts, IsPrintable s) :
    nextToken v.elementText.toList = .ok ⟨⟨v.elementKind, v.display⟩, [], false⟩ := by
  cases hv with
  | text s => exact nextToken_elementText_text (htexts s (List.mem_singleton.mpr rfl))
  | bool b => cases b <;> rfl
  | @array _ items hitems =>
      rw [Value.toList_elementText_array, nextToken_group, ← Value.toList_display_array,
        String.ofList_toList, List.length_map]
      · rfl
      · refine List.forall_mem_map.mpr fun v hv => isElement_elementText (hitems v hv) fun s hs => ?_
        exact htexts s (Value.mem_textsOf hv hs)

/-! ## Reading lists -/

namespace Parse

variable {α β : Type} {resolver : String → Except ShellError String} {element : Parser}

theorem runPure_bind_ok {p : Parse α} {f : α → Parse β} {a : α} (h : p.runPure resolver = .ok a) :
    (p >>= f).runPure resolver = (f a).runPure resolver := by
  refine (runPure_andThen resolver p _).trans ?_
  rw [h]

/-- A value is not changed with the failures. -/
theorem runPure_mapFailure_ok {p : Parse α} {a : α} (h : p.runPure resolver = .ok a)
    (f : ParseFailure → ParseFailure) : (p.mapFailure f).runPure resolver = .ok a := by
  refine (runPure_andThen resolver p _).trans ?_
  rw [h]
  rfl

/-- What becomes of one part, by the token that it is when it has been trimmed. -/
theorem parseElement_of_trimmed {part : List Char} {token : Token}
    (hnext : nextToken (Text.trimChars part) = .ok ⟨token, [], false⟩) (index : Nat) :
    parseElement element index part =
      if token.kind = .subEval then do
        let text ← resolved token.text
        (element text).mapFailure (atElement index true)
      else (element token.text).mapFailure (atElement index false) := by
  have hplain : (!Text.allBlank []) = false := rfl
  rw [parseElement, hnext]
  simp only [Bool.false_or, hplain, Bool.false_eq_true, if_false]

theorem parseElement_of_token {part : List Char} (hpart : IsElement part) {token : Token}
    (hnext : nextToken part = .ok ⟨token, [], false⟩) (index : Nat) :
    parseElement element index part =
      if token.kind = .subEval then do
        let text ← resolved token.text
        (element text).mapFailure (atElement index true)
      else (element token.text).mapFailure (atElement index false) :=
  parseElement_of_trimmed (by rw [hpart.trimChars_eq, hnext]) index

/-- One part is read as the text of its token, which a sub-evaluation has to leave as it is. -/
theorem runPure_parseElement {part : List Char} (hpart : IsElement part) {token : Token}
    (hnext : nextToken part = .ok ⟨token, [], false⟩)
    (hresolver : token.kind = .subEval → resolver token.text = .ok token.text) {v : Value}
    (hv : (element token.text).runPure resolver = .ok v) (index : Nat) :
    (parseElement element index part).runPure resolver = .ok v := by
  rw [parseElement_of_token hpart hnext]
  by_cases hkind : token.kind = .subEval
  · have hresolved : (resolved token.text).runPure resolver = .ok token.text := by
      rw [resolved, runPure_resolve, hresolver hkind]
      rfl
    rw [if_pos hkind, runPure_bind_ok hresolved]
    exact runPure_mapFailure_ok hv _
  · rw [if_neg hkind]
    exact runPure_mapFailure_ok hv _

/-- A blank in front of a part is trimmed. -/
theorem parseElement_blank (index : Nat) (part : List Char) :
    parseElement element index (' ' :: part) = parseElement element index part := by
  rw [parseElement, parseElement, Text.trimChars_blank]

theorem parseParts_blank (index : Nat) (parts : List (List Char)) :
    parseParts element index (parts.map (' ' :: ·)) = parseParts element index parts := by
  induction parts generalizing index with
  | nil => rfl
  | cons part parts ih => rw [List.map_cons, parseParts, parseParts, parseElement_blank, ih]

theorem runPure_parseParts {items : List Value} {part : Value → List Char}
    (h : ∀ v ∈ items, ∀ index, (parseElement element index (part v)).runPure resolver = .ok v)
    (index : Nat) : (parseParts element index (items.map part)).runPure resolver = .ok items := by
  induction items generalizing index with
  | nil => rfl
  | cons v items ih =>
      rw [List.forall_mem_cons] at h
      rw [List.map_cons, parseParts, runPure_bind_ok (h.1 index), runPure_bind_ok (ih h.2 (index + 1))]
      rfl

/-- A literal is split into its parts, the blanks behind its commas apart. -/
theorem parseElements_commaJoined {s : String} {parts : List (List Char)}
    (hs : s.toList = commaJoined parts) (hblank : Text.allBlank s.toList = false)
    (hparts : ∀ p ∈ parts, Scope.Passes {} p {}) :
    parseElements element s = parseParts element 0 parts := by
  cases parts with
  | nil =>
      rw [hs] at hblank
      cases hblank
  | cons p parts =>
      rw [List.forall_mem_cons] at hparts
      rw [parseElements, if_neg (by simp [hblank]), hs, splitArray_commaJoined hparts.1 hparts.2]
      -- The parts behind the first one still have their blank.
      simp only
      rw [parseParts, parseParts_blank, ← parseParts]

/-- A printed list is split into what its elements print. -/
theorem parseElements_display {items : List Value}
    (helements : ∀ v ∈ items, IsElement v.elementText.toList) :
    parseElements element (Value.array items).display =
      parseParts element 0 (items.map fun v => v.elementText.toList) := by
  have htext := Value.toList_display_array items
  cases items with
  | nil => rfl
  | cons v items =>
      refine parseElements_commaJoined htext ?_ (List.forall_mem_map.mpr fun v hv => (helements v hv).passes)
      rw [htext]
      exact allBlank_commaJoined (helements v List.mem_cons_self) _

/-- The elements of a printed list, each of which reads back. -/
theorem runPure_parseElements {items : List Value}
    (helements : ∀ v ∈ items, IsElement v.elementText.toList)
    (h : ∀ v ∈ items, ∀ index,
      (parseElement element index v.elementText.toList).runPure resolver = .ok v) :
    (parseElements element (Value.array items).display).runPure resolver = .ok items := by
  rw [parseElements_display helements]
  exact runPure_parseParts h 0

end Parse

/-! ## Arrays -/

theorem Conversions.parserFor?_standard_array {element : ValueType} {parser : Parser}
    (h : standard.parserFor? element = some parser) :
    standard.parserFor? (.array element) = some (parseArray parser) := by
  have hnone : standard.registered? (.array element) = none := rfl
  rw [parserFor?, hnone]
  simp [h]

/-- The induction is on the type: the elements of an array are printed and read by the level below. -/
theorem ValueType.IsTextual.reads_back {type : ValueType} (htype : type.IsTextual) :
    ∃ parser, Conversions.standard.parserFor? type = some parser ∧
      ∀ v, type.Has v → (∀ s ∈ v.texts, IsPrintable s) →
        (parser v.display).runPure Parse.verbatim = .ok v := by
  induction htype with
  | text =>
      refine ⟨_, rfl, fun v hv _ => ?_⟩
      cases hv
      rfl
  | bool =>
      refine ⟨_, rfl, fun v hv _ => ?_⟩
      cases hv with
      | bool b => cases b <;> rfl
  | @array element _ ih =>
      obtain ⟨parser, hparser, hread⟩ := ih
      refine ⟨_, Conversions.parserFor?_standard_array hparser, fun v hv htexts => ?_⟩
      cases hv with
      | @array _ items hitems =>
          have hprintable : ∀ v ∈ items, ∀ s ∈ v.texts, IsPrintable s :=
            fun v hv s hs => htexts s (Value.mem_textsOf hv hs)
          have helements : ∀ v ∈ items, IsElement v.elementText.toList :=
            fun v hv => isElement_elementText (hitems v hv) (hprintable v hv)
          have hitem : ∀ v ∈ items, ∀ index, (parseElement parser index v.elementText.toList).runPure
              Parse.verbatim = .ok v :=
            fun v hv => Parse.runPure_parseElement (helements v hv)
              (nextToken_elementText (hitems v hv) (hprintable v hv)) (fun _ => rfl)
              (hread v (hitems v hv) (hprintable v hv))
          refine (Parse.runPure_bind_ok (Parse.runPure_parseElements helements hitem)).trans ?_
          rfl

/-- An array of texts and truth values, nested to any depth, is read back from what is printed of it,
    when every sub-evaluation answers with its own text. -/
theorem parse_display {element : ValueType} (htype : element.IsTextual) {v : Value}
    (hv : (ValueType.array element).Has v) (htexts : ∀ s ∈ v.texts, IsPrintable s) :
    (Conversions.standard.parse (.array element) v.display).runPure Parse.verbatim = .ok v := by
  obtain ⟨parser, hparser, hread⟩ := (ValueType.IsTextual.array htype).reads_back
  rw [Conversions.parse, hparser]
  exact hread v hv htexts

/-- Lists without elements and with one, and texts with delimiters in them. -/
theorem parse_display_nested :
    (Conversions.standard.parse (.array (.array .text))
      (Value.array [.array [], .array [.text "a, (b"], .array [.text "", .text "c"]]).display).runPure
        Parse.verbatim =
      .ok (.array [.array [], .array [.text "a, (b"], .array [.text "", .text "c"]]) := by
  have hv : (ValueType.array (.array .text)).Has
      (.array [.array [], .array [.text "a, (b"], .array [.text "", .text "c"]]) := by
    refine .array (List.forall_mem_cons.mpr ⟨?_, List.forall_mem_cons.mpr ⟨?_,
      List.forall_mem_singleton.mpr ?_⟩⟩)
    · exact .array (by simp)
    · exact .array (List.forall_mem_singleton.mpr (.text _))
    · exact .array (List.forall_mem_cons.mpr ⟨.text _, List.forall_mem_singleton.mpr (.text _)⟩)
  exact parse_display (.array .text) hv (by decide)

end CommandShell
