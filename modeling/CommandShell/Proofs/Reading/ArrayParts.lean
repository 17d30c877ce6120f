import CommandShell.Proofs.ArrayLiterals
import CommandShell.Proofs.Reading.ArrayText

/-!
# `CommandShell.Proofs.Reading.ArrayParts` — an array literal is its parts with commas between them

Splitting loses nothing: the parts of a literal with commas between them are the literal again. Nor is
there another way to cut it: a part is a text that does not split any further, and a list of such texts is
what their join is split into.

What stands between two commas is scanned from an empty scope and has to leave an empty scope behind. A
comma splits only where nothing is open, and parentheses, braces and quotes are counted apart from each
other, a closing delimiter counting nothing where it closes nothing; so it is not enough that the
literal as a whole is closed. That a text which is one part leads from the empty scope to itself
(`splitArray_eq_singleton_iff`) is what makes parts independent of what stands around them.

## Contents
- `splitFrom_eq_ok`, the first part of a literal and what is behind its comma.
- `splitArray_eq_singleton_iff`, the texts that are one part.
- `splitArray_eq_ok_iff`.
-/

namespace CommandShell

variable {s : Scope} {part cs p : List Char} {parts : List (List Char)}

/-- A text that is split has a piece that splitting passes over, up to where nothing is open. There the
    text ends, or a comma stands there and the text behind it is split on its own. -/
theorem splitFrom_eq_ok (h : splitFrom s part cs = .ok parts) :
    ∃ piece, s.Passes piece {} ∧
      (cs = piece ∧ parts = [part.reverse ++ piece] ∨
        ∃ behind later, cs = piece ++ ',' :: behind ∧ splitArray behind = .ok later ∧
          parts = (part.reverse ++ piece) :: later) := by
  induction cs generalizing s part with
  | nil =>
      have houter : s.isOuter = true := (exists_splitFrom_iff s part []).mp ⟨parts, h⟩
      obtain rfl := Scope.eq_of_isOuter houter
      cases h
      exact ⟨[], .nil {}, .inl ⟨rfl, by rw [List.append_nil]⟩⟩
  | cons c cs ih =>
      by_cases hcomma : c = ',' ∧ s.isOuter = true
      · obtain ⟨rfl, houter⟩ := hcomma
        obtain rfl := Scope.eq_of_isOuter houter
        rw [splitFrom_comma houter, Scope.advance_comma] at h
        cases hbehind : splitFrom {} [] cs with
        | error e => rw [hbehind] at h; cases h
        | ok later =>
            rw [hbehind] at h
            cases h
            exact ⟨[], .nil {}, .inr ⟨cs, later, rfl, hbehind, by rw [List.append_nil]⟩⟩
      · rw [splitFrom_other hcomma] at h
        obtain ⟨piece, hpiece, hend⟩ := ih h
        have houter : c = ',' → s.isOuter = false := fun hc => by simpa [hc] using hcomma
        rw [List.reverse_cons, List.append_assoc, List.singleton_append] at hend
        refine ⟨c :: piece, .cons houter rfl hpiece, ?_⟩
        rcases hend with ⟨rfl, hparts⟩ | ⟨behind, later, rfl, hlater, hparts⟩
        · exact .inl ⟨rfl, hparts⟩
        · exact .inr ⟨behind, later, rfl, hlater, hparts⟩

theorem splitArray_ne_nil (h : splitArray cs = .ok parts) : parts ≠ [] := by
  obtain ⟨piece, -, ⟨-, rfl⟩ | ⟨behind, later, -, -, rfl⟩⟩ := splitFrom_eq_ok h <;>
    exact List.cons_ne_nil _ _

/-- A text is one part if splitting passes over it, from the empty scope to the empty scope. -/
theorem splitArray_eq_singleton_iff : splitArray p = .ok [p] ↔ Scope.Passes {} p {} := by
  constructor
  · intro h
    obtain ⟨piece, hpiece, ⟨rfl, -⟩ | ⟨behind, later, -, hlater, hparts⟩⟩ := splitFrom_eq_ok h
    · exact hpiece
    · rw [List.cons.injEq] at hparts
      exact absurd hparts.2.symm (splitArray_ne_nil hlater)
  · intro h
    simpa using splitArray_intercalate (List.cons_ne_nil p []) (by simpa using h)

/-- The parts of a literal are its own text between the commas, and each of them is one part. The
    induction is on the parts, the first of which `splitFrom_eq_ok` takes off. -/
theorem parts_of_splitArray (h : splitArray cs = .ok parts) :
    [','].intercalate parts = cs ∧ ∀ p ∈ parts, Scope.Passes {} p {} := by
  induction parts generalizing cs with
  | nil => exact absurd rfl (splitArray_ne_nil h)
  | cons p parts ih =>
      obtain ⟨piece, hpiece, ⟨rfl, hparts⟩ | ⟨behind, later, rfl, hlater, hparts⟩⟩ := splitFrom_eq_ok h
      · cases hparts
        exact ⟨by simp, by simpa using hpiece⟩
      · cases hparts
        obtain ⟨hjoin, hpasses⟩ := ih hlater
        refine ⟨?_, List.forall_mem_cons.mpr ⟨hpiece, hpasses⟩⟩
        rw [List.intercalate_cons_of_ne_nil (splitArray_ne_nil hlater), hjoin]
        simp

/-- A text is split into these parts exactly if it is these parts with commas between them, there is one at
    least, and each of them is one part on its own. A text is one part if everything that is opened in it
    is closed and no comma of it stands outside of every group. -/
theorem splitArray_eq_ok_iff (cs : List Char) (parts : List (List Char)) :
    (splitArray cs = .ok parts ↔
      parts ≠ [] ∧ [','].intercalate parts = cs ∧ ∀ p ∈ parts, splitArray p = .ok [p]) ∧
    (splitArray cs = .ok [cs] ↔
      (Scope.after {} cs).isOuter = true ∧ ¬ Scope.CommaWhere (·.isOuter = true) {} cs) := by
  constructor
  · simp only [splitArray_eq_singleton_iff]
    constructor
    · intro h
      exact ⟨splitArray_ne_nil h, parts_of_splitArray h⟩
    · rintro ⟨hne, rfl, hparts⟩
      exact splitArray_intercalate hne hparts
  · constructor
    · intro h
      have hcomma := (two_le_length_iff h).2
      exact ⟨(exists_splitFrom_iff {} [] cs).mp ⟨[cs], h⟩, fun hc => absurd (hcomma.mpr hc) (by simp)⟩
    · rintro ⟨hclosed, hcomma⟩
      obtain ⟨parts, hparts⟩ := (exists_splitFrom_iff {} [] cs).mpr hclosed
      obtain ⟨hpos, hlength⟩ := two_le_length_iff hparts
      have hone : parts.length = 1 := by
        have := mt hlength.mp hcomma
        omega
      obtain ⟨p, rfl⟩ := List.length_eq_one_iff.mp hone
      have hjoin : [','].intercalate [p] = cs := (parts_of_splitArray hparts).1
      rw [List.intercalate_singleton] at hjoin
      rw [← hjoin] at hparts ⊢
      exact hparts

/-- The parentheses that close nothing are not counted, and the comma in braces does not split. -/
example : splitArray ")\x7b),\x7d,a".toList = .ok [")\x7b),\x7d".toList, "a".toList] := rfl

end CommandShell
