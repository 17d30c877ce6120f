import CommandShell.Proofs.Reading.Quoting
import CommandShell.Scan.ArrayLiteral
import CommandShell.Text.Blank
import CommandShell.Value.Display

/-!
# `CommandShell.Proofs.Reading.ArrayText` — reading written arrays

The elements of a written array are words, texts between quotes, and lists of elements in parentheses.
Splitting passes over an element, from one scope back to the same one, so that the parts of a literal are
what stands between its own commas. An element is also balanced, and so a list of elements can stand in
parentheses as one token. What kind of token that is, the commas between the elements decide, for a comma
inside of one stands in quotes or in parentheses of its own.

## Contents
- `IsElement`, the written form of an element, and `commaJoined`.
- `splitArray_intercalate`, parts that are joined, and `splitArray_commaJoined`, the parts of a written
  literal.
- `nextToken_group`, a list in parentheses as one token.
- `IsElement.trimChars_eq`, that an element begins and ends with characters that are not blank.
-/

namespace CommandShell

/-! ## Written elements -/

/-- Parts with a comma and a blank in front of each. -/
def commaLed (parts : List (List Char)) : List Char :=
  parts.flatMap fun p => ',' :: ' ' :: p

/-- Parts with a comma and a blank between them. -/
def commaJoined : List (List Char) → List Char
  | [] => []
  | p :: parts => p ++ commaLed parts

/-- How an element of an array is written. -/
inductive IsElement : List Char → Prop where
  | word {cs} : cs ≠ [] → (∀ c ∈ cs, c ∉ Value.delimiters ∧ Text.isBlank c = false) → IsElement cs
  | quoted {cs} : (∀ c ∈ cs, c ≠ '\r' ∧ c ≠ '\n' ∧ c ≠ '"') → IsElement ('"' :: (cs ++ ['"']))
  | group {parts} : (∀ p ∈ parts, IsElement p) → IsElement ('(' :: (commaJoined parts ++ [')']))

variable {p q cs ds : List Char} {parts : List (List Char)} {c : Char} {s s' s'' : Scope}

/-- A word, told by its characters. -/
theorem isElement_of_word
    (h : (!cs.isEmpty && cs.all fun c => !Value.delimiters.contains c && !Text.isBlank c) = true) :
    IsElement cs := by
  simp only [Bool.and_eq_true, Bool.not_eq_true', List.isEmpty_eq_false_iff, List.all_eq_true] at h
  refine .word h.1 fun c hc => ⟨?_, (h.2 c hc).2⟩
  simpa using (h.2 c hc).1

theorem commaLed_cons (p : List Char) (parts : List (List Char)) :
    commaLed (p :: parts) = ',' :: ' ' :: (p ++ commaLed parts) := by
  simp [commaLed]

theorem commaJoined_eq_intercalate (parts : List (List Char)) :
    commaJoined parts = [',', ' '].intercalate parts := by
  induction parts with
  | nil => rfl
  | cons p parts ih =>
      cases parts with
      | nil => simp [commaJoined, commaLed]
      | cons q parts =>
          rw [List.intercalate_cons_cons, ← ih, commaJoined, commaLed_cons]
          simp [commaJoined]

/-- Behind its commas each part but the first begins with a blank. -/
theorem commaJoined_cons_eq_intercalate (p : List Char) (parts : List (List Char)) :
    commaJoined (p :: parts) = [','].intercalate (p :: parts.map (' ' :: ·)) := by
  induction parts generalizing p with
  | nil => simp [commaJoined, commaLed]
  | cons q parts ih =>
      have hq := ih (' ' :: q)
      rw [List.map_cons, List.intercalate_cons_cons, ← hq, commaJoined, commaLed_cons]
      simp [commaJoined]

/-- What acts outside of every group is a delimiter or a line break. -/
theorem not_acting_of_not_delimiter (h : c ∉ Value.delimiters) (hbreak : c ≠ '\r' ∧ c ≠ '\n') :
    c ∉ PartialToken.actingChars := by
  simp_all [Value.delimiters, PartialToken.actingChars]

theorem not_acting_of_word (h : c ∉ Value.delimiters ∧ Text.isBlank c = false) :
    c ∉ PartialToken.actingChars := by
  have hcr : c ≠ '\r' := by rintro rfl; exact absurd h.2 (by decide)
  have hlf : c ≠ '\n' := by rintro rfl; exact absurd h.2 (by decide)
  exact not_acting_of_not_delimiter h.1 ⟨hcr, hlf⟩

/-! ## Splitting -/

namespace Scope

/-- Splitting passes over the piece, from one scope to another, and no part ends in it. -/
def Passes (s : Scope) (cs : List Char) (s' : Scope) : Prop :=
  ∀ part rest, splitFrom s part (cs ++ rest) = splitFrom s' (cs.reverse ++ part) rest

theorem Passes.nil (s : Scope) : s.Passes [] s :=
  fun _ _ => rfl

theorem Passes.trans (h : s.Passes cs s') (h' : s'.Passes ds s'') : s.Passes (cs ++ ds) s'' := by
  intro part rest
  rw [List.append_assoc, h, h', List.reverse_append, List.append_assoc]

theorem passes_single (h : c = ',' → s.isOuter = false) (hc : s.advance c = s') : s.Passes [c] s' := by
  intro part rest
  have hsplit : ¬ (c = ',' ∧ s.isOuter = true) := fun ⟨hcomma, houter⟩ => by simp [h hcomma] at houter
  rw [List.singleton_append, splitFrom, if_neg hsplit, hc]
  rfl

theorem Passes.cons (h : c = ',' → s.isOuter = false) (hc : s.advance c = s') (hcs : s'.Passes cs s'') :
    s.Passes (c :: cs) s'' :=
  (passes_single h hc).trans hcs

/-- Characters that neither split nor change the scope. -/
theorem passes_of_forall (h : ∀ c ∈ cs, (c = ',' → s.isOuter = false) ∧ s.advance c = s) :
    s.Passes cs s := by
  induction cs with
  | nil => exact .nil s
  | cons c cs ih =>
      rw [List.forall_mem_cons] at h
      exact .cons h.1.1 h.1.2 (ih h.2)

theorem passes_word (h : ∀ c ∈ cs, c ∉ Value.delimiters) : s.Passes cs s := by
  refine passes_of_forall fun c hc => ?_
  have := h c hc
  simp_all [Value.delimiters, advance]

/-- A text between quotes, wherever no quote is open. -/
theorem passes_quoted {parens braces : Nat} (h : '"' ∉ cs) :
    Passes ⟨parens, braces, false⟩ ('"' :: (cs ++ ['"'])) ⟨parens, braces, false⟩ := by
  have hinside : Passes ⟨parens, braces, true⟩ cs ⟨parens, braces, true⟩ := by
    refine passes_of_forall fun c hc => ?_
    have hquote : c ≠ '"' := fun hc' => h (hc' ▸ hc)
    simp [isOuter, advance, hquote]
  exact .cons (by simp) rfl (hinside.trans (passes_single (by simp) rfl))

/-- Parts in a group, where a comma does not split. -/
theorem passes_commaJoined (hgroup : s.isOuter = false) (hparts : ∀ p ∈ parts, s.Passes p s) :
    s.Passes (commaJoined parts) s := by
  have hcomma : s.Passes [',', ' '] s := by
    refine passes_of_forall fun c hc => ?_
    simp only [List.mem_cons, List.not_mem_nil, or_false] at hc
    rcases hc with rfl | rfl <;> simp [hgroup, advance]
  have hled : ∀ parts : List (List Char), (∀ p ∈ parts, s.Passes p s) → s.Passes (commaLed parts) s := by
    intro parts hparts
    induction parts with
    | nil => exact .nil s
    | cons p parts ih =>
        rw [List.forall_mem_cons] at hparts
        rw [commaLed_cons]
        exact hcomma.trans (hparts.1.trans (ih hparts.2))
  cases parts with
  | nil => exact .nil s
  | cons p parts =>
      rw [List.forall_mem_cons] at hparts
      exact hparts.1.trans (hled parts hparts.2)

end Scope

/-- Splitting passes over an element, wherever no quote is open. -/
theorem IsElement.passes (h : IsElement p) {parens braces : Nat} :
    Scope.Passes ⟨parens, braces, false⟩ p ⟨parens, braces, false⟩ := by
  induction h generalizing parens with
  | word _ hplain => exact Scope.passes_word fun c hc => (hplain c hc).1
  | quoted hcs => exact Scope.passes_quoted fun hquote => (hcs _ hquote).2.2 rfl
  | group _ ih =>
      have hinside := Scope.passes_commaJoined (s := ⟨parens + 1, braces, false⟩)
        (by simp [Scope.isOuter]) fun p hp => ih p hp
      exact .cons (by simp) rfl (hinside.trans (Scope.passes_single (by simp) rfl))

/-- Parts that splitting passes over are the parts of their join, for nothing is open at the commas
    between them. -/
theorem splitArray_intercalate (hne : parts ≠ []) (hparts : ∀ p ∈ parts, Scope.Passes {} p {}) :
    splitArray ([','].intercalate parts) = .ok parts := by
  induction parts with
  | nil => exact absurd rfl hne
  | cons p parts ih =>
      rw [List.forall_mem_cons] at hparts
      obtain ⟨hp, hparts⟩ := hparts
      cases parts with
      | nil =>
          have hlast := hp [] []
          rw [List.append_nil, List.append_nil, splitFrom, List.reverse_reverse] at hlast
          rw [List.intercalate_singleton]
          exact hlast
      | cons q parts =>
          have hrest : splitFrom {} [] ([','].intercalate (q :: parts)) = .ok (q :: parts) :=
            ih (List.cons_ne_nil q parts) hparts
          rw [List.intercalate_cons_cons, List.append_assoc, List.singleton_append, splitArray, hp,
            splitFrom, if_pos ⟨rfl, rfl⟩, hrest, List.append_nil, List.reverse_reverse]
          rfl

/-- A literal is split at the commas between its parts, behind which a blank stays. -/
theorem splitArray_commaJoined (hp : Scope.Passes {} p {}) (hparts : ∀ q ∈ parts, Scope.Passes {} q {}) :
    splitArray (commaJoined (p :: parts)) = .ok (p :: parts.map (' ' :: ·)) := by
  have hblank : Scope.Passes {} [' '] {} := Scope.passes_single (by decide) rfl
  rw [commaJoined_cons_eq_intercalate]
  refine splitArray_intercalate (List.cons_ne_nil _ _) ?_
  rw [List.forall_mem_cons, List.forall_mem_map]
  exact ⟨hp, fun q hq => hblank.trans (hparts q hq)⟩

/-! ## Tokens -/

theorem forall_mem_commaJoined {Q : Char → Prop} (hcomma : Q ',') (hblank : Q ' ')
    (h : ∀ p ∈ parts, ∀ c ∈ p, Q c) : ∀ c ∈ commaJoined parts, Q c := by
  cases parts with
  | nil => simp [commaJoined]
  | cons p parts =>
      rw [List.forall_mem_cons] at h
      rw [commaJoined, List.forall_mem_append]
      refine ⟨h.1, fun c hc => ?_⟩
      obtain ⟨q, hq, hc⟩ := List.mem_flatMap.mp hc
      rcases List.mem_cons.mp hc with rfl | hc
      · exact hcomma
      · rcases List.mem_cons.mp hc with rfl | hc
        · exact hblank
        · exact h.2 q hq c hc

theorem balanced_commaJoined {b : Bracket} (h : ∀ p ∈ parts, b.Balanced p) :
    b.Balanced (commaJoined parts) := by
  have hled : ∀ parts : List (List Char), (∀ p ∈ parts, b.Balanced p) → b.Balanced (commaLed parts) := by
    intro parts h
    induction parts with
    | nil => exact .nil
    | cons p parts ih =>
        rw [List.forall_mem_cons] at h
        have hseparator : b.Balanced [',', ' '] := by
          refine Bracket.balanced_of_plain ?_
          cases b <;> simp [Bracket.opening, Bracket.closing]
        rw [commaLed_cons]
        exact hseparator.append (h.1.append (ih h.2))
  cases parts with
  | nil => exact .nil
  | cons p parts =>
      rw [List.forall_mem_cons] at h
      exact h.1.append (hled parts h.2)

theorem IsElement.breaks (h : IsElement p) : ∀ c ∈ p, c ≠ '\r' ∧ c ≠ '\n' := by
  have henclosed : ∀ {first last : Char} {cs : List Char}, (first ≠ '\r' ∧ first ≠ '\n') →
      (last ≠ '\r' ∧ last ≠ '\n') → (∀ c ∈ cs, c ≠ '\r' ∧ c ≠ '\n') →
        ∀ c ∈ first :: (cs ++ [last]), c ≠ '\r' ∧ c ≠ '\n' := by
    intro first last cs hfirst hlast hcs
    rw [List.forall_mem_cons, List.forall_mem_append, List.forall_mem_singleton]
    exact ⟨hfirst, hcs, hlast⟩
  induction h with
  | word _ hplain =>
      intro c hc
      constructor <;>
      · rintro rfl
        exact absurd (hplain _ hc).2 (by decide)
  | quoted hcs =>
      exact henclosed (by decide) (by decide) fun c hc => ⟨(hcs c hc).1, (hcs c hc).2.1⟩
  | group _ ih =>
      exact henclosed (by decide) (by decide) (forall_mem_commaJoined (by decide) (by decide) ih)

/-- The parentheses of an element are nested. -/
theorem IsElement.balanced (h : IsElement p) : Bracket.paren.Balanced p := by
  induction h with
  | word _ hplain =>
      refine Bracket.balanced_of_plain fun c hc => ?_
      have := (hplain c hc).1
      simp_all [Value.delimiters, Bracket.opening, Bracket.closing]
  | quoted hcs => exact .quotes (fun hquote => (hcs _ hquote).2.2 rfl) .nil
  | group _ ih => exact .group (balanced_commaJoined ih) .nil

/-- An element alone is no list. -/
theorem IsElement.not_outerComma (h : IsElement p) : ¬ Bracket.paren.OuterComma p := by
  cases h with
  | word _ hplain =>
      rintro ⟨before, rest, rfl, -⟩
      exact (hplain ',' (by simp)).1 (by decide)
  | quoted hcs => exact Bracket.not_outerComma_inQuotes _ fun hquote => (hcs _ hquote).2.2 rfl
  | group hparts =>
      exact (balanced_commaJoined fun p hp => (hparts p hp).balanced).not_outerComma_enclosed

/-- A comma stands outside of the parentheses of a list if there are two elements at least. -/
theorem outerComma_commaJoined_iff (h : ∀ p ∈ parts, IsElement p) :
    Bracket.paren.OuterComma (commaJoined parts) ↔ 2 ≤ parts.length := by
  rcases parts with _ | ⟨p, _ | ⟨q, parts⟩⟩
  · exact iff_of_false (by simp [commaJoined, Bracket.OuterComma]) (by simp)
  · have hp := (h p List.mem_cons_self).not_outerComma
    exact iff_of_false (by simpa [commaJoined, commaLed] using hp) (by simp)
  · have hp := (h p List.mem_cons_self).balanced
    refine iff_of_true ⟨p, ' ' :: (q ++ commaLed parts), ?_, hp⟩ (by simp)
    rw [commaJoined, commaLed_cons]

/-- How a list of this many elements is read that stands in parentheses: as an array literal if there is a
    comma in it, and else as a sub-evaluation. -/
def groupKind (count : Nat) : TokenKind :=
  if 2 ≤ count then .literal else .subEval

/-- A list in parentheses is one token. -/
theorem nextToken_group (h : ∀ p ∈ parts, IsElement p) :
    nextToken ('(' :: (commaJoined parts ++ [')'])) =
      .ok ⟨⟨groupKind parts.length, String.ofList (commaJoined parts)⟩, [], false⟩ := by
  have hbreaks := forall_mem_commaJoined (by decide) (by decide) fun p hp => (h p hp).breaks
  have hbalanced := balanced_commaJoined fun p hp => (h p hp).balanced
  have hgroup := nextToken_enclosed_iff .paren (String.ofList (commaJoined parts)) []
    (groupKind parts.length) false
  rw [String.toList_ofList, outerComma_commaJoined_iff h] at hgroup
  refine hgroup.mpr ⟨⟨hbreaks, hbalanced⟩, ?_, rfl⟩
  by_cases hlength : 2 ≤ parts.length <;> simp [groupKind, hlength, Bracket.kind]

/-! ## Blanks around elements -/

theorem Text.trimChars_blank (cs : List Char) : Text.trimChars (' ' :: cs) = Text.trimChars cs := by
  have hblank : Text.isBlank ' ' = true := by decide
  simp [Text.trimChars, hblank]

theorem Text.ends_enclosed {first last : Char} (hfirst : isBlank first = false)
    (hlast : isBlank last = false) (cs : List Char) :
    (∀ c ∈ (first :: (cs ++ [last])).head?, isBlank c = false) ∧
      ∀ c ∈ (first :: (cs ++ [last])).getLast?, isBlank c = false := by
  rw [← List.cons_append, List.getLast?_concat]
  simp [hfirst, hlast]

/-- An element begins and ends with characters that are not blank. -/
theorem IsElement.ends (h : IsElement p) :
    (∀ c ∈ p.head?, Text.isBlank c = false) ∧ ∀ c ∈ p.getLast?, Text.isBlank c = false := by
  cases h with
  | word _ hplain =>
      exact ⟨fun c hc => (hplain c (List.mem_of_head? hc)).2,
        fun c hc => (hplain c (List.mem_of_getLast? hc)).2⟩
  | quoted _ => exact Text.ends_enclosed (by decide) (by decide) _
  | group _ => exact Text.ends_enclosed (by decide) (by decide) _

theorem IsElement.trimChars_eq (h : IsElement p) : Text.trimChars p = p :=
  Text.trimChars_eq_self_of_ends h.ends.1 h.ends.2

theorem IsElement.ne_nil (h : IsElement p) : p ≠ [] := by
  cases h with
  | word hne _ => exact hne
  | quoted _ => simp
  | group _ => simp

/-- A list that has elements is not blank. -/
theorem allBlank_commaJoined (hp : IsElement p) (parts : List (List Char)) :
    Text.allBlank (commaJoined (p :: parts)) = false := by
  have hne := hp.ne_nil
  have hfirst := hp.ends.1
  cases p with
  | nil => exact absurd rfl hne
  | cons c cs =>
      have hc : Text.isBlank c = false := hfirst c rfl
      simp [commaJoined, Text.allBlank, hc]

end CommandShell
