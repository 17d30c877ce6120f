import CommandShell.Binding.Registry

/-!
# `CommandShell.Proofs.Names` — names with white space around them

A name is registered under its trimmed lower-case form and looked up under its lower-case form. The two
agree for a name without white space around it. Otherwise the name is not found, for lower-casing keeps
white space and no name is kept with any.

## Contents
- `Text.exists_blank_lower` and `Text.not_blank_of_mem_lowerChars`, white space under lower-casing.
- `Registry.IsKey`, the names under which bindings are kept.
- `Registry.not_isKey_of_padded` and `Registry.keyOf_of_not_blank`.
-/

namespace CommandShell

/-! ## White space and lower case -/

namespace Text

/-- White space has no other case. -/
theorem lowerChar_of_blank {c : Char} (h : isBlank c = true) : lowerChar c = [c] := by
  -- The ranges of white space are small enough to be listed.
  have hall : ∀ n ∈ [0x09, 0x0A, 0x0B, 0x0C, 0x0D, 0x20, 0x85, 0xA0, 0x1680, 0x2000, 0x2001, 0x2002,
      0x2003, 0x2004, 0x2005, 0x2006, 0x2007, 0x2008, 0x2009, 0x200A, 0x2028, 0x2029, 0x202F, 0x205F,
      0x3000], lowerChar (Char.ofNat n) = [Char.ofNat n] := by
    decide +kernel
  have hc := hall c.toNat (by simp [isBlank, inRanges, blankRanges] at h; simp; omega)
  rwa [Char.ofNat_toNat] at hc

theorem mem_lowerChars_of_blank {c : Char} {cs : List Char} (h : isBlank c = true) (hc : c ∈ cs) :
    c ∈ lowerChars cs := by
  -- What stands before a character matters for the sigma alone, which is no white space.
  have hgo : ∀ before, c ∈ lowerChars.go before cs := by
    induction cs with
    | nil => cases hc
    | cons d cs ih =>
        intro before
        rw [lowerChars.go, List.mem_append]
        rcases List.mem_cons.mp hc with rfl | hc
        · left
          have hne : c ≠ 'Σ' := by
            rintro rfl
            exact absurd h (by decide)
          rw [if_neg hne, lowerChar_of_blank h]
          exact List.mem_singleton_self c
        · exact .inr (ih hc _)
  exact hgo []

/-- What trimming changes has white space at an end. -/
theorem exists_blank_of_trim_ne {s : String} (h : trim s ≠ s) : ∃ c ∈ s.toList, isBlank c = true := by
  by_cases hany : s.toList.any isBlank = true
  · exact List.any_eq_true.mp hany
  · have hclear : ∀ c ∈ s.toList, isBlank c = false := by
      simpa [List.any_eq_true] using hany
    refine absurd (String.toList_injective ?_) h
    rw [toList_trim]
    exact trimChars_eq_self_of_ends (fun c hc => hclear c (List.mem_of_mem_head? hc))
      (fun c hc => hclear c (List.mem_of_mem_getLast? hc))

theorem exists_blank_lower {s : String} (h : trim s ≠ s) :
    ∃ c ∈ (lower s).toList, isBlank c = true := by
  obtain ⟨c, hc, hblank⟩ := exists_blank_of_trim_ne h
  refine ⟨c, ?_, hblank⟩
  rw [toList_lower]
  exact mem_lowerChars_of_blank hblank hc

/-- The lower-case letters of the table are no white space. The images of a run lie in one piece, so it is
    enough to compare where the pieces begin and end. -/
theorem not_blank_of_run {run : LowerRun} {n : Nat} (hrun : run ∈ lowerRuns) (hn : run.contains n = true) :
    isBlank (Char.ofNat (run.image + (n - run.first))) = false := by
  have hapart : ∀ run ∈ lowerRuns, ∀ r ∈ blankRanges,
      run.image + (run.last - run.first) < r.1 ∨ r.2 < run.image := by
    decide +kernel
  by_cases hvalid : (run.image + (n - run.first)).isValidChar
  · have htoNat : (Char.ofNat (run.image + (n - run.first))).toNat = run.image + (n - run.first) := by
      rw [Char.ofNat, dif_pos hvalid]
      rfl
    have hlast : n ≤ run.last := by
      simp only [LowerRun.contains, Bool.and_eq_true, decide_eq_true_eq] at hn
      exact hn.1.2
    rw [isBlank, inRanges, htoNat, List.any_eq_false]
    intro r hr hin
    simp only [Bool.and_eq_true, decide_eq_true_eq] at hin
    have := hapart run hrun r hr
    omega
  · -- A number that stands for no character is read as the null character.
    rw [Char.ofNat, dif_neg hvalid]
    rfl

/-- Lower-casing makes no white space. -/
theorem not_blank_of_mem_lowerChar {c d : Char} (h : isBlank c = false) (hd : d ∈ lowerChar c) :
    isBlank d = false := by
  unfold lowerChar at hd
  dsimp only at hd
  split at hd
  · next hascii =>
    have hall : ∀ n < 0x80, isBlank (Char.ofNat n) = false → isBlank (Char.ofNat n).toLower = false := by
      decide +kernel
    have hc := hall c.toNat hascii
    rw [Char.ofNat_toNat] at hc
    rw [List.mem_singleton.mp hd]
    exact hc h
  · split at hd
    · rw [List.mem_cons, List.mem_singleton] at hd
      rcases hd with rfl | rfl
      · decide
      · decide
    · split at hd
      · next run hrun =>
        rw [List.mem_singleton.mp hd]
        have hcontains : run.contains c.toNat = true := by
          simpa using List.find?_some hrun
        exact not_blank_of_run (List.mem_of_find?_eq_some hrun) hcontains
      · rw [List.mem_singleton.mp hd]
        exact h

theorem lowerChar_ne_nil (c : Char) : lowerChar c ≠ [] := by
  unfold lowerChar
  dsimp only
  split
  · simp
  · split
    · simp
    · split <;> simp

/-- A text without white space has a lower-case form without it, which is empty only if the text is. -/
theorem not_blank_of_mem_lowerChars {cs : List Char} (h : ∀ c ∈ cs, isBlank c = false) :
    (∀ d ∈ lowerChars cs, isBlank d = false) ∧ (lowerChars cs = [] → cs = []) := by
  have hgo : ∀ before, (∀ d ∈ lowerChars.go before cs, isBlank d = false) ∧
      (lowerChars.go before cs = [] → cs = []) := by
    induction cs with
    | nil => exact fun _ => ⟨by simp [lowerChars.go], fun _ => rfl⟩
    | cons c cs ih =>
        rw [List.forall_mem_cons] at h
        intro before
        have hfirst : ∀ d ∈ (if c = 'Σ' then [lowerSigma before cs] else lowerChar c), isBlank d = false := by
          split
          · intro d hd
            rw [List.mem_singleton.mp hd, lowerSigma]
            split
            · decide
            · decide
          · exact fun d hd => not_blank_of_mem_lowerChar h.1 hd
        have hne : (if c = 'Σ' then [lowerSigma before cs] else lowerChar c) ≠ [] := by
          split
          · simp
          · exact lowerChar_ne_nil c
        rw [lowerChars.go]
        refine ⟨fun d hd => ?_, fun hnil => absurd (List.append_eq_nil_iff.mp hnil).1 hne⟩
        rcases List.mem_append.mp hd with hd | hd
        · exact hfirst d hd
        · exact (ih h.2 _).1 d hd
  exact hgo []

end Text

/-! ## Keys -/

namespace Registry

/-- Bindings can be kept under this name: it is not empty and has no white space in it. -/
def IsKey (key : String) : Prop :=
  (key.isEmpty || key.toList.any Text.isBlank) = false

/-- What a name with white space around it is looked up as, no binding is kept under. -/
theorem not_isKey_of_padded {name : String} (h : Text.trim name ≠ name) :
    ¬ IsKey (Text.lower name) := by
  obtain ⟨c, hc, hblank⟩ := Text.exists_blank_lower h
  intro hkey
  have hany : (Text.lower name).toList.any Text.isBlank = true := List.any_eq_true.mpr ⟨c, hc, hblank⟩
  rw [IsKey, hany, Bool.or_true] at hkey
  cases hkey

theorem keyOf_of_trim_eq {name : String} (h : Text.trim name = name) : keyOf name = Text.lower name := by
  rw [keyOf, h]

/-- A name without white space is kept under its lower-case form. -/
theorem keyOf_of_not_blank {name : String} (hne : name ≠ "")
    (h : ∀ c ∈ name.toList, Text.isBlank c = false) :
    keyOf name = Text.lower name ∧ IsKey (keyOf name) := by
  have htrim : Text.trim name = name := by
    refine String.toList_injective ?_
    rw [Text.toList_trim]
    exact Text.trimChars_eq_self_of_ends (fun c hc => h c (List.mem_of_mem_head? hc))
      (fun c hc => h c (List.mem_of_mem_getLast? hc))
  obtain ⟨hclear, hnil⟩ := Text.not_blank_of_mem_lowerChars h
  refine ⟨keyOf_of_trim_eq htrim, ?_⟩
  rw [keyOf_of_trim_eq htrim]
  have hnonempty : Text.lower name ≠ "" := by
    intro hempty
    have hlower : Text.lowerChars name.toList = [] := by
      rw [← Text.toList_lower, hempty]
      rfl
    exact hne (String.toList_eq_nil_iff.mp (hnil hlower))
  simpa [IsKey, hnonempty] using hclear

end Registry
end CommandShell
