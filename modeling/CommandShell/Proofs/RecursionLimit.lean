import CommandShell.Proofs.Builtins
import CommandShell.Proofs.Sequencing

/-!
# `CommandShell.Proofs.RecursionLimit` — the limit of nested evaluations

A text is evaluated on one level more than the text that it is written in, and so is the statement that an
alias stands for. Where no level is left the evaluation fails, and that is reported once: on the way back
every other level is left without a word. A shell that allows a number of levels evaluates that many, no
fewer and no more, and aliases that stand for each other in a circle are cut off at the limit.

Both proofs are inductions in which one level is entered at each step. The levels that are left are those
of the evaluator, so what is proved of all states at once holds for the state on the next level.

## Contents
- `nestedPrint`, `Eval.exec_nestedPrint` and `Shell.eval_nestedPrint`.
- `Registry.Circular`, `Eval.exec_circular` and `Shell.eval_aliasCycle`.
-/

namespace CommandShell

/-! ## Leaving a level -/

section Levels

variable {σ : Type}

theorem Shell.report_recursionLimit (s : Shell σ) (levels : Nat) :
    s.report (.recursionLimit levels) =
      s.emit .error ("evaluation nested deeper than " ++ toString levels ++ " levels") := rfl

/-- Without a level left an evaluation reports the limit and does nothing else. -/
theorem Eval.exec_evaluateWithin_zero (text : String) (s : Shell σ) :
    (evaluateWithin 0 text).exec s = (.error .aborted, s.report (.recursionLimit s.config.maxDepth)) :=
  rfl

end Levels

/-! ## Nested sub-evaluations -/

/-- A command with a text, inside this many commands that write its result. -/
def nestedPrint : Nat → String
  | 0 => "print x"
  | k + 1 => "print (" ++ nestedPrint k ++ ")"

theorem toList_nestedPrint_succ (k : Nat) :
    (nestedPrint (k + 1)).toList = "print".toList ++ ' ' :: '(' :: ((nestedPrint k).toList ++ [')']) := by
  simp [nestedPrint]

theorem nestedPrint_plain (k : Nat) :
    ∀ c ∈ (nestedPrint k).toList, c ≠ '\r' ∧ c ≠ '\n' ∧ c ≠ ',' := by
  have hall : ((nestedPrint k).toList.all fun c => c ≠ '\r' ∧ c ≠ '\n' ∧ c ≠ ',') = true := by
    induction k with
    | zero => decide
    | succ k ih =>
        rw [toList_nestedPrint_succ, List.all_append, List.all_cons, List.all_cons, List.all_append, ih]
        decide
  simpa only [List.all_eq_true, decide_eq_true_eq] using hall

theorem balanced_nestedPrint (k : Nat) : Bracket.paren.Balanced (nestedPrint k).toList := by
  have hword : Bracket.paren.Balanced "print ".toList := by decide +kernel
  induction k with
  | zero => decide +kernel
  | succ k ih =>
      have hgroup : Bracket.paren.Balanced ('(' :: ((nestedPrint k).toList ++ [')'])) := .group ih .nil
      have happend := hword.append hgroup
      rw [toList_nestedPrint_succ]
      exact happend

/-- A nested command is a sub-evaluation of the command around it. -/
theorem readsAs_nestedPrint_succ (k : Nat) :
    ReadsAs (nestedPrint (k + 1)).toList [⟨.literal, "print"⟩, ⟨.subEval, nestedPrint k⟩] [] := by
  have hplain := nestedPrint_plain k
  have hcomma : ¬ Bracket.paren.OuterComma (nestedPrint k).toList := by
    rintro ⟨before, rest, htext, -⟩
    have hmem : ',' ∈ (nestedPrint k).toList := by
      rw [htext]
      exact List.mem_append_right _ List.mem_cons_self
    exact (hplain _ hmem).2.2 rfl
  have hgroup : nextToken ('(' :: ((nestedPrint k).toList ++ [')'])) =
      .ok ⟨⟨.subEval, nestedPrint k⟩, [], false⟩ := by
    refine (nextToken_enclosed_iff .paren (nestedPrint k) [] .subEval false).mpr
      ⟨⟨fun c hc => ?_, balanced_nestedPrint k⟩, .inr ⟨hcomma, rfl⟩, rfl⟩
    exact ⟨(hplain c hc).1, (hplain c hc).2.1⟩
  rw [toList_nestedPrint_succ]
  exact PlainWord.readsAs_append (w := "print") (by decide) (readsAs_of_done hgroup (.inr rfl))

namespace Eval

variable {σ : Type}

/-- With more levels left than commands are nested in the outermost one, its result is handed through all
    of them. With no more than that, the limit is reported by the evaluation that has no level, and the
    commands around it do nothing. -/
theorem exec_nestedPrint (k levels : Nat) {s : Shell σ} (h : s.HasBuiltins) :
    (evaluateWithin levels (nestedPrint k)).exec s =
      if k < levels then (.ok (), s.passOn ⟨"x", .normal⟩ (k + 1))
      else (.error .aborted, s.report (.recursionLimit s.config.maxDepth)) := by
  -- The inner commands run one level deeper, in another state and with one level less.
  induction k generalizing levels s with
  | zero =>
      cases levels with
      | zero => exact exec_evaluateWithin_zero "print x" s
      | succ levels =>
          have hread : ReadsAs "print x".toList (["print", "x"].map (Token.mk .literal)) [] :=
            PlainWord.readsAs_append (w := "print") (by decide) (PlainWord.readsAs (w := "x") (by decide))
          have hdeeper : (deeper s).HasBuiltins := h.congr (Shell.sameSetup_atLevel _ _ _)
          rw [if_pos (Nat.succ_pos levels)]
          show (evaluateWithin (levels + 1) "print x").exec s = _
          rw [exec_evaluateWithin_of_readsAs levels hread, runStatement_literals _ (by decide)]
          exact congrArg (leave s.depth) (hdeeper.exec_print ⟨"x", .literal⟩ [])
  | succ k ih =>
      cases levels with
      | zero => exact exec_evaluateWithin_zero _ s
      | succ levels =>
          have hdeeper : (deeper s).HasBuiltins := h.congr (Shell.sameSetup_atLevel _ _ _)
          have hinner := ih levels hdeeper
          rw [exec_evaluateWithin_of_readsAs levels (readsAs_nestedPrint_succ k)]
          by_cases hlevels : k < levels
          · rw [if_pos hlevels] at hinner
            rw [if_pos (by omega), hdeeper.exec_print_subEval (Nat.succ_pos k) hinner]
            rfl
          · rw [if_neg hlevels] at hinner
            rw [if_neg (by omega), runStatement_subEval _ (by decide), exec_bind,
              exec_subEvaluate_error _ hinner]
            rfl

end Eval

namespace Shell

variable {σ : Type}

open Channel in
/-- The limit is exact. In a shell with its built-in commands that does not show its input, `k` nested
    sub-evaluations in a command succeed if `k` levels are left behind the one of the command itself. The
    innermost text is then written once, at whatever depth the line is evaluated and however many lines
    are waiting. Otherwise the limit is reported once. Apart from that the shell is as it was. -/
theorem eval_nestedPrint {s : Shell σ} (h : s.HasBuiltins) (hecho : s.config.echoInput = false)
    (k : Nat) :
    (s.depth + k < s.config.maxDepth →
      (eval (nestedPrint k)).run s = (true, { s with
        output := { s.output with
          lines := retain s.output.capacity (s.output.lines ++ [⟨"x", .normal⟩])
          emitted := s.output.emitted + (k + 1) } })) ∧
    (s.config.maxDepth ≤ s.depth + k →
      (eval (nestedPrint k)).run s = (false, s.emit .error
        ("evaluation nested deeper than " ++ toString s.config.maxDepth ++ " levels"))) ∧
    (s.output.lines = [] →
      ((eval (nestedPrint k)).run s).2.output.lines =
        [if s.depth + k < s.config.maxDepth then ⟨"x", .normal⟩
          else ⟨"evaluation nested deeper than " ++ toString s.config.maxDepth ++ " levels", .error⟩]) := by
  have hexec := Eval.exec_nestedPrint k s.levelsLeft h
  have hleft : k < s.levelsLeft ↔ s.depth + k < s.config.maxDepth := by
    unfold levelsLeft
    omega
  have hblock : (evalBlock (nestedPrint k)).exec s =
      (Eval.evaluateWithin s.levelsLeft (nestedPrint k)).exec s := rfl
  rw [run_eval, shown_eq_self hecho, hblock, hexec]
  refine ⟨fun hwithin => ?_, fun hbeyond => ?_, fun hempty => ?_⟩
  · rw [if_pos (hleft.mpr hwithin)]
    rfl
  · rw [if_neg (by rw [hleft]; omega), report_recursionLimit]
    rfl
  · -- A single line is kept by a channel of any capacity.
    have hsingle : ∀ line : Line, retain s.output.capacity (s.output.lines ++ [line]) = [line] := by
      intro line
      obtain ⟨kept, hkept, hsuffix⟩ := retain_concat s.output.capacity s.output.lines line
      rw [hempty, List.suffix_nil] at hsuffix
      rw [hkept, hsuffix, List.nil_append]
    by_cases hwithin : s.depth + k < s.config.maxDepth
    · rw [if_pos (hleft.mpr hwithin), if_pos hwithin]
      exact hsingle _
    · rw [if_neg (by rw [hleft]; exact hwithin), if_neg hwithin]
      exact hsingle _

/-- With two levels the innermost of two commands is reached, and the innermost of three is not. -/
theorem eval_nestedPrint_two :
    ∃ s : Shell Unit, s = start { maxDepth := 2 } () ∧ s.HasBuiltins ∧ s.config.echoInput = false ∧
      s.depth = 0 ∧ s.config.maxDepth = 2 ∧ s.output.lines = [] ∧
      ((eval "print (print x)").run s).1 = true ∧
      ((eval "print (print (print x))").run s).1 = false ∧
      ((eval "print (print (print x))").run s).2.output.lines =
        [⟨"evaluation nested deeper than 2 levels", .error⟩] := by
  have hstart : ∃ s : Shell Unit, s = start { maxDepth := 2 } () ∧ s.HasBuiltins ∧
      s.config.echoInput = false ∧ s.depth = 0 ∧ s.config.maxDepth = 2 ∧ s.output.lines = [] := by
    refine ⟨_, rfl, ?_, by decide +kernel⟩
    rw [start_eq_configured rfl]
    exact hasBuiltins_configured rfl (by simp) ()
  obtain ⟨s, hs, hbuiltins, hecho, hdepth, hlimit, hempty⟩ := hstart
  obtain ⟨htwo, -, -⟩ := eval_nestedPrint hbuiltins hecho 1
  obtain ⟨-, hthree, hlines⟩ := eval_nestedPrint hbuiltins hecho 2
  have hline := hlines hempty
  rw [hdepth, hlimit] at htwo hthree hline
  exact ⟨s, hs, hbuiltins, hecho, hdepth, hlimit, hempty, congrArg Prod.fst (htwo (by decide)),
    congrArg Prod.fst (hthree (by decide)), hline⟩

end Shell

/-! ## Aliases in a circle -/

/-- Each of the names is a word and an alias for one of the names. -/
def Registry.Circular {σ : Type} (r : Registry σ) (names : String → Prop) : Prop :=
  ∀ name, names name → PlainWord name ∧ ∃ target, names target ∧ r.lookup? name = some (.ofAlias target)

namespace Eval

variable {σ : Type}

/-- A call of a name from a circle evaluates another name from it with the same arguments, one level
    deeper. So the levels run out, and the report passes all calls on the way back. -/
theorem exec_circular {names : String → Prop} {texts : List String} (htexts : ∀ a ∈ texts, Forwardable a)
    (levels : Nat) {s : Shell σ} (hcircular : s.registry.Circular names) {name text : String}
    (hname : names name)
    (hread : ReadsAs text.toList ((name :: texts).map (Token.mk .literal)) []) :
    (evaluateWithin levels text).exec s =
      (.error .aborted, s.report (.recursionLimit s.config.maxDepth)) := by
  induction levels generalizing s name text with
  | zero => exact exec_evaluateWithin_zero text s
  | succ levels ih =>
      obtain ⟨hword, target, htarget, hlookup⟩ := hcircular name hname
      let frame : Frame := ⟨name, texts.map (Argument.mk · .literal)⟩
      have hframe : frame.texts = texts := by
        simp [frame, Frame.texts, Function.comp_def]
      -- What the alias evaluates is a call of its target with the same arguments.
      have hnext : ReadsAs (Binding.aliasStatement target texts).toList
          ((target :: texts).map (Token.mk .literal)) [] := by
        have hextensible := extensible_of_literal (hcircular target htarget).1.nextToken
        have hforward := hextensible.readsAs_forwardable htexts
        rw [← Binding.toList_aliasStatement] at hforward
        exact hforward
      have hinner := ih (s := called (deeper s) frame) hcircular htarget hnext
      have hcall := exec_dispatch_alias (evaluateWithin levels) frame (s := deeper s) hlookup
      rw [hframe, exec_inCall, hinner] at hcall
      rw [exec_evaluateWithin_of_readsAs levels hread, runStatement_literals _ hword.nonempty, hcall]
      rfl

end Eval

namespace Shell

variable {σ : Type}

/-- Aliases that stand for each other in a circle are cut off with one report. The arguments may be any
    texts without quotes and line breaks, each of them written between quotes or as an alias writes it; they
    are the same on every level. The circle is given by its names in order, the target of the last one
    being the first. Whatever the limit is, the line fails, the limit is reported, and apart from that the
    shell is as it was. -/
theorem eval_aliasCycle {k : Nat} {names : Fin (k + 1) → String} {s : Shell σ}
    (hecho : s.config.echoInput = false) (hnames : ∀ i, PlainWord (names i))
    (hcycle : ∀ i, s.registry.lookup? (names i) = some (.ofAlias (names (i + 1))))
    {texts forms : List String}
    (htexts : ∀ a ∈ texts, ∀ c ∈ a.toList, c ≠ '\r' ∧ c ≠ '\n' ∧ c ≠ '"')
    (hforms : List.Forall₂ (fun a form => form = quoteIfNeeded a ∨ form = quoted a) texts forms) :
    (eval (" ".intercalate (names 0 :: forms))).run s =
      (false, s.emit .error
        ("evaluation nested deeper than " ++ toString s.config.maxDepth ++ " levels")) := by
  have hforwardable : ∀ a ∈ texts, Forwardable a := fun a ha => forwardable_of_unquoted (htexts a ha)
  have hliterals : List.Forall₂
      (fun a form => nextToken form.toList = .ok ⟨⟨.literal, a⟩, [], false⟩) texts forms := by
    refine ((List.forall₂_and_left _ _).mpr ⟨htexts, hforms⟩).imp ?_
    rintro a form ⟨ha, rfl | rfl⟩
    · exact nextToken_quoteIfNeeded (forwardable_of_unquoted ha)
    · exact nextToken_quoted ha
  have hread : ReadsAs (" ".intercalate (names 0 :: forms)).toList
      ((names 0 :: texts).map (Token.mk .literal)) [] :=
    readsAs_literals (.cons (hnames 0).nextToken hliterals)
  have hcircular : s.registry.Circular fun name => ∃ i, names i = name := by
    rintro name ⟨i, rfl⟩
    exact ⟨hnames i, names (i + 1), ⟨i + 1, rfl⟩, hcycle i⟩
  have hexec := Eval.exec_circular hforwardable s.levelsLeft hcircular ⟨0, rfl⟩ hread
  have hblock : (evalBlock (" ".intercalate (names 0 :: forms))).exec s =
      (Eval.evaluateWithin s.levelsLeft (" ".intercalate (names 0 :: forms))).exec s := rfl
  rw [run_eval, shown_eq_self hecho, hblock, hexec, report_recursionLimit]
  rfl

/-- A shell with three levels and two aliases for each other. -/
def circle : Shell Unit :=
  { Shell.empty { maxDepth := 3 } () with
    registry := ⟨(Dictionary.insert ∅ "pong" (.ofAlias "ping")).insert "ping" (.ofAlias "pong")⟩ }

/-- The aliases are called with an argument that has to be quoted and one that does not. -/
theorem eval_aliasCycle_two :
    circle.config.echoInput = false ∧ circle.config.maxDepth = 3 ∧
      circle.registry.lookup? "ping" = some (.ofAlias "pong") ∧
      circle.registry.lookup? "pong" = some (.ofAlias "ping") ∧
      (eval "ping \"a b\" c").run circle =
        (false, circle.emit .error "evaluation nested deeper than 3 levels") := by
  have hping : circle.registry.lookup? "ping" = some (.ofAlias "pong") := by
    rw [Registry.lookup?, show Text.lower "ping" = "ping" by decide +kernel]
    exact Dictionary.getElem?_insert_self ..
  have hpong : circle.registry.lookup? "pong" = some (.ofAlias "ping") := by
    rw [Registry.lookup?, show Text.lower "pong" = "pong" by decide +kernel]
    exact (Dictionary.getElem?_insert ..).trans (Dictionary.getElem?_insert_self ..)
  let names : Fin 2 → String := ["ping", "pong"].get
  have hnames : ∀ i, PlainWord (names i) := by decide
  have hcycle : ∀ i, circle.registry.lookup? (names i) = some (.ofAlias (names (i + 1))) := by
    intro i
    have htwo : ∀ i : Fin 2, i = 0 ∨ i = 1 := by decide
    rcases htwo i with rfl | rfl
    · exact hping
    · exact hpong
  have hforms : List.Forall₂ (fun a form => form = quoteIfNeeded a ∨ form = quoted a)
      ["a b", "c"] ["\"a b\"", "c"] :=
    .cons (.inl (by decide)) (.cons (.inl (by decide)) .nil)
  have htext : " ".intercalate (names 0 :: ["\"a b\"", "c"]) = "ping \"a b\" c" := by decide
  have hlimit : circle.config.maxDepth = 3 := rfl
  have hreport : "evaluation nested deeper than " ++ toString 3 ++ " levels" =
      "evaluation nested deeper than 3 levels" := by decide
  have hplain : (["a b", "c"].all fun a =>
      a.toList.all fun c => c ≠ '\r' ∧ c ≠ '\n' ∧ c ≠ '"') = true := by decide
  have htexts : ∀ a ∈ ["a b", "c"], ∀ c ∈ a.toList, c ≠ '\r' ∧ c ≠ '\n' ∧ c ≠ '"' := by
    simpa only [List.all_eq_true, decide_eq_true_eq] using hplain
  have hline := eval_aliasCycle rfl hnames hcycle htexts hforms
  rw [htext, hlimit, hreport] at hline
  exact ⟨rfl, hlimit, hping, hpong, hline⟩

end Shell
end CommandShell
