import CommandShell.Proofs.Builtins
import CommandShell.Proofs.Protection
import CommandShell.Proofs.Sequencing

/-!
# `CommandShell.Proofs.Variables` — variables that are set and read

A variable is stored in a cell. Called with an argument it stores the value of the argument, and called
without one it answers its value; so what is read is what has been stored last. But a command does not see
whether there was an argument: it is given a value for each parameter, which is null where there was none.
An argument whose value is null is taken for none, and the variable answers its value instead of storing
another one.

The variables that a line can define hold texts, and a text is never null. A text that has been written
into a line comes back from the variable as it was, with all its delimiters.

## Contents
- `Binding.Stores`, with `Eval.exec_dispatch_read` and `Eval.exec_dispatch_write`.
- `Eval.cell_roundtrip_iff`, and `Eval.cell_roundtrip_fails_null`, a variable that keeps its value.
- `PlainName`, `Shell.declare` and `Shell.HasBuiltins.exec_var`.
- `Shell.eval_var_print`.
-/

namespace CommandShell

open Eval

variable {σ : Type}

/-! ## Calls of a variable -/

/-- The binding is a variable of this type that is stored in this cell. -/
structure Binding.Stores (b : Binding σ) (type : ValueType) (cell : Nat) : Prop where
  params : b.profile.params = [.optional "value" type]
  alive : b.profile.alive? = none
  run : b.run = (Binding.ofCell type cell).run

theorem Binding.stores_ofCell (type : ValueType) (cell : Nat) :
    (ofCell type cell : Binding σ).Stores type cell :=
  ⟨rfl, rfl, rfl⟩

theorem Binding.Stores.withDescription {b : Binding σ} {type : ValueType} {cell : Nat}
    (h : b.Stores type cell) (text : String) : (b.withDescription text).Stores type cell :=
  ⟨h.params, h.alive, h.run⟩

namespace Eval

section Cells

variable (nested : String → Eval σ Unit) {s : Shell σ} {name text : String} {type : ValueType}
  {cell : Nat} {b : Binding σ} {v : Value}

/-- What a call does when its parameter has this value. A null value is taken for a missing argument. -/
theorem exec_dispatch_cell {arguments : List Argument} (hb : s.registry.lookup? name = some b)
    (hstores : b.Stores type cell)
    (hfetch : (fetch nested 0 (.optional "value" type)).exec (called s ⟨name, arguments⟩) =
      (.ok v, called s ⟨name, arguments⟩)) :
    (dispatch nested ⟨name, arguments⟩).exec s = (.ok (),
      if v.isNull = true then s.emit .normal (s.memory.cell cell).display
      else { s with memory := s.memory.setCell cell v }) := by
  have halive : b.profile.isAlive s.memory = true := by
    rw [Profile.isAlive, hstores.alive]
  have hargs : (fetchFrom nested 0 b.profile.params).exec (called s ⟨name, arguments⟩) =
      (.ok [v], called s ⟨name, arguments⟩) := by
    rw [hstores.params]
    exact exec_fetchFrom_cons nested hfetch rfl
  cases v with
  | null =>
      refine exec_dispatch nested s (some (s.memory.cell cell)) hb halive hargs ?_
      rw [hstores.run]
      rfl
  | text | int | float | bool | array | vector =>
      refine exec_dispatch nested { s with memory := s.memory.setCell cell _ } none hb halive hargs ?_
      rw [hstores.run]
      rfl

/-- Without an argument the value of the variable is written. -/
theorem exec_dispatch_read (hb : s.registry.lookup? name = some b) (hstores : b.Stores type cell) :
    (dispatch nested ⟨name, []⟩).exec s = (.ok (), s.emit .normal (s.memory.cell cell).display) :=
  exec_dispatch_cell nested (v := .null) hb hstores
    (exec_fetch_of_missing nested (CallStack.current_push _ _) rfl)

/-- With an argument whose conversion asks for nothing the variable stores its value, unless that is null. -/
theorem exec_dispatch_write (hb : s.registry.lookup? name = some b) (hstores : b.Stores type cell)
    (hv : s.types.parse type text = .done (.ok v)) (origin : Origin) :
    (dispatch nested ⟨name, [⟨text, origin⟩]⟩).exec s = (.ok (),
      if v.isNull = true then s.emit .normal (s.memory.cell cell).display
      else { s with memory := s.memory.setCell cell v }) := by
  refine exec_dispatch_cell nested hb hstores ?_
  unfold Conversions.parse at hv
  split at hv
  · next parser hparser =>
    exact exec_fetch_of_argument nested (CallStack.current_push _ _) (List.getElem?_cons_zero ..)
      hparser hv
  · cases hv

end Cells

end Eval

/-- A line that is written is counted, even where the channel does not keep it. -/
theorem Shell.output_emit_ne (s : Shell σ) (severity : Severity) (text : String) :
    (s.emit severity text).output ≠ s.output := by
  intro houtput
  have hemitted := congrArg Channel.emitted houtput
  simp only [emit, Channel.emitted_emit] at hemitted
  omega

theorem Memory.cell_setCell {m : Memory σ} {i : Nat} (hi : i < m.cells.size) (v : Value) :
    (m.setCell i v).cell i = v := by
  simp [cell, setCell, hi]

namespace Eval

variable {s : Shell σ} {name text : String} {type : ValueType} {cell : Nat} {v : Value}

/-- A variable of any type with a conversion, in any state, and any text whose conversion to the type
    gives a value and asks for nothing. To call the variable with the text stores the value and writes
    nothing, and to call it without one afterwards writes the value, exactly if the value is not null.
    A null value is not stored: the variable writes the value that it has instead. -/
theorem cell_roundtrip_iff (nested : String → Eval σ Unit)
    (hb : s.registry.lookup? name = some (.ofCell type cell)) (hcell : cell < s.memory.cells.size)
    (hv : s.types.parse type text = .done (.ok v)) (origin : Origin) :
    ((∃ t : Shell σ, (dispatch nested ⟨name, [⟨text, origin⟩]⟩).exec s = (.ok (), t) ∧
        t.memory.cell cell = v ∧ t.output = s.output ∧
        (dispatch nested ⟨name, []⟩).exec t = (.ok (), t.emit .normal v.display)) ↔ v.isNull = false) ∧
    (v.isNull = false →
      (dispatch nested ⟨name, [⟨text, origin⟩]⟩).exec s =
        (.ok (), { s with memory := s.memory.setCell cell v })) ∧
    (v.isNull = true →
      (dispatch nested ⟨name, [⟨text, origin⟩]⟩).exec s =
        (.ok (), s.emit .normal (s.memory.cell cell).display)) := by
  have hwrite := exec_dispatch_write nested hb (Binding.stores_ofCell type cell) hv origin
  have hstored : v.isNull = false → (dispatch nested ⟨name, [⟨text, origin⟩]⟩).exec s =
      (.ok (), { s with memory := s.memory.setCell cell v }) := by
    intro hnull
    rwa [if_neg (by simp [hnull])] at hwrite
  have hwritten : v.isNull = true → (dispatch nested ⟨name, [⟨text, origin⟩]⟩).exec s =
      (.ok (), s.emit .normal (s.memory.cell cell).display) := by
    intro hnull
    rwa [if_pos hnull] at hwrite
  refine ⟨⟨?_, fun hnull => ?_⟩, hstored, hwritten⟩
  · rintro ⟨t, hcall, -, houtput, -⟩
    rw [← Bool.not_eq_true]
    intro hnull
    rw [hwritten hnull, Prod.mk.injEq] at hcall
    rw [← hcall.2] at houtput
    exact s.output_emit_ne _ _ houtput
  · refine ⟨_, hstored hnull, Memory.cell_setCell hcell v, rfl, ?_⟩
    have hread := exec_dispatch_read nested (s := { s with memory := s.memory.setCell cell v }) hb
      (Binding.stores_ofCell type cell)
    rwa [Memory.cell_setCell hcell v] at hread

/-- A shell in which a name is bound as a variable in a cell of its own. -/
def withCell (name : String) (type : ValueType) (content : Value) : Shell Unit :=
  { Shell.empty {} () with
    registry := ⟨Dictionary.insert ∅ name (.ofCell type 0)⟩, memory := { cells := #[content], host := () } }

/-- A variable of texts is called with a text that means nothing to its type. -/
theorem cell_roundtrip_motd :
    let s := withCell "motd" .text (.text "")
    s.registry.lookup? "motd" = some (.ofCell .text 0) ∧ 0 < s.memory.cells.size ∧
      s.types.parse .text "null" = .done (.ok (.text "null")) ∧
      ∃ t : Shell Unit,
        (dispatch (evaluateWithin 64) ⟨"motd", [⟨"null", .literal⟩]⟩).exec s = (.ok (), t) ∧
        t.memory.cell 0 = .text "null" ∧ t.output = s.output ∧
        (dispatch (evaluateWithin 64) ⟨"motd", []⟩).exec t = (.ok (), t.emit .normal "null") := by
  intro s
  have hlookup : s.registry.lookup? "motd" = some (.ofCell .text 0) := by
    rw [Registry.lookup?, show Text.lower "motd" = "motd" by decide +kernel]
    exact Dictionary.getElem?_insert_self ..
  have hcell : 0 < s.memory.cells.size := Nat.one_pos
  have htext : s.types.parse .text "null" = .done (.ok (.text "null")) := rfl
  exact ⟨hlookup, hcell, htext,
    (cell_roundtrip_iff (evaluateWithin 64) hlookup hcell htext .literal).1.mpr rfl⟩

/-- A variable of integers that may be absent is called with `null`. -/
theorem cell_roundtrip_fails_null :
    let s := withCell "limit" (.optional .int) (.int 5)
    s.registry.lookup? "limit" = some (.ofCell (.optional .int) 0) ∧
      s.memory.cells = #[.int 5] ∧ s.types.parse (.optional .int) "null" = .done (.ok .null) ∧
      (dispatch (evaluateWithin 64) ⟨"limit", [⟨"null", .literal⟩]⟩).exec s =
        (.ok (), s.emit .normal "5") ∧
      ¬ ∃ t : Shell Unit,
        (dispatch (evaluateWithin 64) ⟨"limit", [⟨"null", .literal⟩]⟩).exec s = (.ok (), t) ∧
        t.memory.cell 0 = .null ∧ t.output = s.output ∧
        (dispatch (evaluateWithin 64) ⟨"limit", []⟩).exec t =
          (.ok (), t.emit .normal Value.null.display) := by
  intro s
  have hlookup : s.registry.lookup? "limit" = some (.ofCell (.optional .int) 0) := by
    rw [Registry.lookup?, show Text.lower "limit" = "limit" by decide +kernel]
    exact Dictionary.getElem?_insert_self ..
  have hnull : s.types.parse (.optional .int) "null" = .done (.ok .null) := by
    have hword : isNullText "null" = true := by decide +kernel
    show parseOptional (fun text => .done (parseInt text)) "null" = _
    rw [parseOptional, if_pos hword]
    rfl
  have hcall := exec_dispatch_write (evaluateWithin 64) hlookup (Binding.stores_ofCell _ _) hnull .literal
  have hdisplay : (s.memory.cell 0).display = "5" := by decide +kernel
  rw [if_pos (by rfl : Value.null.isNull = true), hdisplay] at hcall
  refine ⟨hlookup, rfl, hnull, hcall, ?_⟩
  rintro ⟨t, hstored, -, houtput, -⟩
  rw [hcall, Prod.mk.injEq] at hstored
  rw [← hstored.2] at houtput
  exact s.output_emit_ne _ _ houtput

end Eval

/-! ## Declaring a variable -/

/-- A name that can be bound and that stands in a statement as it is. -/
structure PlainName (x : String) : Prop where
  nonempty : x ≠ ""
  unbroken : ∀ c ∈ x.toList, Text.isBlank c = false
  plain : ∀ c ∈ x.toList, c ∉ ['"', '(', ')', '{', '}', ':', ';']

instance (x : String) : Decidable (PlainName x) :=
  decidable_of_iff (x ≠ "" ∧ x.toList.all fun c => Text.isBlank c = false ∧
      c ∉ ['"', '(', ')', '{', '}', ':', ';']) <| by
    simp only [List.all_eq_true, decide_eq_true_eq]
    exact ⟨fun h => ⟨h.1, fun c hc => (h.2 c hc).1, fun c hc => (h.2 c hc).2⟩,
      fun h => ⟨h.nonempty, fun c hc => ⟨h.unbroken c hc, h.plain c hc⟩⟩⟩

theorem PlainName.plainWord {x : String} (h : PlainName x) : PlainWord x where
  nonempty := h.nonempty
  plain := by
    intro c hc hacting
    have hblank : (['\r', '\n', ' ', '\t'].all Text.isBlank) = true := by decide
    have hclear := h.unbroken c hc
    have hplain := h.plain c hc
    simp only [List.all_eq_true, PartialToken.actingChars, List.mem_cons, List.not_mem_nil,
      or_false] at hblank hacting hplain
    grind

namespace Shell

variable {s : Shell σ} {x t : String}

/-- The shell with a text variable more: a new cell with the content, bound to the name. -/
def declare (s : Shell σ) (x content : String) : Shell σ :=
  { s with
    registry := ⟨s.registry.bindings.insert (Registry.keyOf x)
      ((Binding.ofCell .text s.memory.cells.size).withDescription "Shell variable")⟩
    memory := s.memory.addCell (.text content) }

theorem lookup?_declare (hx : PlainName x) (content : String) :
    (s.declare x content).registry.lookup? x =
      some ((Binding.ofCell .text s.memory.cells.size).withDescription "Shell variable") := by
  obtain ⟨hkeyOf, -⟩ := Registry.keyOf_of_not_blank hx.nonempty hx.unbroken
  rw [Registry.lookup?, ← hkeyOf]
  exact Dictionary.getElem?_insert_self ..

theorem cell_declare (s : Shell σ) (x content : String) :
    (s.declare x content).memory.cell s.memory.cells.size = .text content := by
  simp [declare, Memory.addCell, Memory.cell]

theorem cell_declare_of_lt {i : Nat} (hi : i < s.memory.cells.size) (x content : String) :
    (s.declare x content).memory.cell i = s.memory.cell i := by
  have hne : ¬ i = s.memory.cells.size := by omega
  show (s.memory.cells.push (.text content)).getD i .null = s.memory.cells.getD i .null
  simp [Array.getD_eq_getD_getElem?, Array.getElem?_push, hne]

theorem getElem?_declare_of_ne {key : String} (hkey : key ≠ Registry.keyOf x) (content : String) :
    (s.declare x content).registry.bindings[key]? = s.registry.bindings[key]? :=
  (Dictionary.getElem?_insert ..).trans (if_neg hkey.symm)

namespace HasBuiltins

/-- A name that is free for a variable is not the name of a built-in command. -/
theorem keyOf_ne (h : s.HasBuiltins) (hx : PlainName x)
    (hfree : ∀ p, s.profile? x = some p → p.kind = .variable) :
    ∀ c ∈ (Builtin.all : List (Command σ)), Registry.keyOf x ≠ c.name := by
  intro c hc hkey
  obtain ⟨hkeyOf, -⟩ := Registry.keyOf_of_not_blank hx.nonempty hx.unbroken
  have hlower : Text.lower x = Text.lower c.name := by
    rw [← hkeyOf, hkey, (Builtin.keyOf_name hc).2.1]
  have hprofile : s.profile? x = some c.toBinding.profile := by
    rw [profile?, Registry.lookup?, hlower]
    exact congrArg (Option.map (·.profile)) (h.commands c hc)
  cases hfree _ hprofile

theorem bind_declare (h : s.HasBuiltins) (hx : PlainName x) (content : String) :
    ({ s with memory := s.memory.addCell (.text content) } : Shell σ).bind x
      ((Binding.ofCell .text s.memory.cells.size).withDescription "Shell variable") =
        .ok (s.declare x content) := by
  refine bind_eq_ok_iff.mpr ⟨(Registry.keyOf_of_not_blank hx.nonempty hx.unbroken).2, ?_, rfl⟩
  intro p hp
  have htype : p.type = .text := by
    rw [List.mem_singleton.mp hp]
    rfl
  rw [htype, Conversions.supports, h.parserFor?_text]
  rfl

theorem declare (h : s.HasBuiltins) (hx : PlainName x)
    (hfree : ∀ p, s.profile? x = some p → p.kind = .variable) (content : String) :
    (s.declare x content).HasBuiltins := by
  have hmemory : ({ s with memory := s.memory.addCell (.text content) } : Shell σ).HasBuiltins :=
    h.congr ⟨rfl, rfl, rfl, rfl⟩
  exact hmemory.bind (h.keyOf_ne hx hfree) (h.bind_declare hx content)

variable {nested : String → Eval σ Unit}

/-- A command that asks for a name which is free for it goes on. -/
theorem exec_requireKind {command name : String} {kind : BindingKind} {next : Unit → Action σ}
    (hfree : ∀ p, s.profile? name = some p → p.kind = kind) :
    (perform nested (Builtin.requireKind command name kind next)).exec s =
      (perform nested (next ())).exec s := by
  have hview : s.view.lookup name = s.profile? name := rfl
  rw [Builtin.requireKind_apply, exec_perform_inspect, hview]
  cases hp : s.profile? name with
  | none => rfl
  | some p =>
      rw [Option.elim_some, if_neg (not_not_intro (hfree p hp))]

/-- The command declares a variable with its second argument as the content. -/
theorem exec_var (h : s.HasBuiltins) (hx : PlainName x)
    (hfree : ∀ p, s.profile? x = some p → p.kind = .variable) (content : String) :
    (dispatch nested ⟨"var", [⟨x, .literal⟩, ⟨content, .literal⟩]⟩).exec s =
      (.ok (), s.declare x content) := by
  let frame : Frame := ⟨"var", [⟨x, .literal⟩, ⟨content, .literal⟩]⟩
  have hcalled : (called s frame).HasBuiltins := h.congr (sameSetup_atLevel _ _ _)
  have hbound : s.registry.lookup? "var" = some Builtin.var.toBinding :=
    h.commands Builtin.var (by simp [Builtin.all])
  have hframe : (called s frame).stack.current = .ok frame := CallStack.current_push _ _
  have hname : (Eval.fetch nested 0 (Builtin.textParam "name")).exec (called s frame) =
      (.ok (.text x), called s frame) :=
    hcalled.exec_fetch_text hframe rfl rfl
  have hcontent : (Eval.fetch nested 1 ((Param.optional "value" .text).withDefault (.text ""))).exec
      (called s frame) = (.ok (.text content), called s frame) :=
    hcalled.exec_fetch_text hframe rfl rfl
  have hargs : (fetchFrom nested 0 (Builtin.var : Command σ).toBinding.profile.params).exec
      (called s frame) = (.ok [.text x, .text content], called s frame) :=
    exec_fetchFrom_cons nested hname (exec_fetchFrom_cons nested hcontent rfl)
  let binding (cell : Nat) : Binding σ := (Binding.ofCell .text cell).withDescription "Shell variable"
  have hscript : (Builtin.var : Command σ).toBinding.run ⟨[.text x, .text content]⟩ =
      Builtin.requireKind "var" x .variable fun _ => .inspect fun v =>
        .update (·.addCell (.text content))
          (Script.bind x (binding v.memory.cells.size) fun _ => .done (.ok none)) := rfl
  have hrun : (perform nested ((Builtin.var : Command σ).toBinding.run ⟨[.text x, .text content]⟩)).exec
      (called s frame) = (.ok none, called (s.declare x content) frame) := by
    have hfree' : ∀ p, (called s frame).profile? x = some p → p.kind = .variable := hfree
    rw [hscript, exec_requireKind hfree', exec_perform_inspect, exec_perform_update]
    exact exec_perform_bind nested (hcalled.bind_declare hx content)
  exact exec_dispatch nested (s.declare x content) none hbound rfl hargs hrun

end HasBuiltins

/-! ## A text through a variable -/

/-- The statement that declares a variable. -/
theorem exec_declaration (h : s.HasBuiltins) (hx : PlainName x)
    (hfree : ∀ p, s.profile? x = some p → p.kind = .variable) (ht : Forwardable t) (levels : Nat) :
    (Program.ofChars ("var " ++ x ++ " " ++ quoteIfNeeded t).toList).failure? = none ∧
      (evaluateWithin (levels + 1) ("var " ++ x ++ " " ++ quoteIfNeeded t)).exec s =
        (.ok (), s.declare x t) := by
  have htext : "var " ++ x ++ " " ++ quoteIfNeeded t = " ".intercalate ["var", x, quoteIfNeeded t] := by
    refine String.toList_injective ?_
    simp
  have hread : ReadsAs ("var " ++ x ++ " " ++ quoteIfNeeded t).toList
      (["var", x, t].map (Token.mk .literal)) [] := by
    have hword : PlainWord "var" := by decide
    rw [htext]
    exact readsAs_literals
      (.cons hword.nextToken (.cons hx.plainWord.nextToken (.cons (nextToken_quoteIfNeeded ht) .nil)))
  refine ⟨Program.failure?_of_readsAs hread, ?_⟩
  have hdeeper : (deeper s).HasBuiltins := h.congr (sameSetup_atLevel _ _ _)
  rw [exec_evaluateWithin_of_readsAs levels hread, runStatement_literals _ (by decide)]
  exact congrArg (leave s.depth) (hdeeper.exec_var hx hfree t)

/-- The statement that prints a variable which has been declared. The name is evaluated on a level of its
    own; the line that is written there is taken and printed. -/
theorem exec_reference (h : (s.declare x t).HasBuiltins) (hx : PlainName x) (levels : Nat) :
    (evaluateWithin (levels + 2) (" print :" ++ x)).exec (s.declare x t) =
      (.ok (), (s.declare x t).passOn ⟨t, .normal⟩ 2) := by
  have hread : ReadsAs (" print :" ++ x).toList [⟨.literal, "print"⟩, ⟨.subEval, x⟩] [] := by
    have hword : PlainWord "print" := by decide
    have hcolon : ReadsAs (':' :: x.toList) [⟨.subEval, x⟩] [] :=
      readsAs_of_done hx.plainWord.nextToken_colon (.inr rfl)
    have htext : (" print :" ++ x).toList = ' ' :: ("print".toList ++ ' ' :: ':' :: x.toList) := by
      simp
    rw [htext]
    exact (hword.readsAs_append hcolon).blank
  have hvalue : (evaluateWithin (levels + 1) x).exec (deeper (s.declare x t)) =
      (.ok (), (deeper (s.declare x t)).passOn ⟨t, .normal⟩ 1) := by
    have hlookup : (deeper (deeper (s.declare x t))).registry.lookup? x =
        some ((Binding.ofCell .text s.memory.cells.size).withDescription "Shell variable") :=
      lookup?_declare hx t
    have hcell : (deeper (deeper (s.declare x t))).memory.cell s.memory.cells.size = .text t :=
      cell_declare s x t
    have hcall := exec_dispatch_read (evaluateWithin levels) hlookup
      ((Binding.stores_ofCell .text s.memory.cells.size).withDescription _)
    rw [hcell] at hcall
    rw [exec_evaluateWithin_of_readsAs levels hx.plainWord.readsAs]
    show leave _ ((runStatement _ ([x].map (Token.mk .literal))).exec _) = _
    rw [runStatement_literals _ hx.nonempty, List.map_nil, hcall]
    generalize s.declare x t = declared
    rfl
  have hdeeper : (deeper (s.declare x t)).HasBuiltins := h.congr (sameSetup_atLevel _ _ _)
  rw [exec_evaluateWithin_of_readsAs (levels + 1) hread, hdeeper.exec_print_subEval Nat.one_pos hvalue]
  rfl

/-- A line declares a variable with a text as its content, in the form in which a text is written into a
    line, and then prints the variable. In a shell with its built-in commands that does not show its input
    and has two levels left, the line succeeds for every text that can be written at all. The text is
    printed, and it is the content of the variable; the other names, the other cells, the calls and the
    depth are as they were. -/
theorem eval_var_print (h : s.HasBuiltins) (hecho : s.config.echoInput = false)
    (hlevels : s.depth + 2 ≤ s.config.maxDepth) (hx : PlainName x)
    (hfree : ∀ p, s.profile? x = some p → p.kind = .variable) (ht : Forwardable t) :
    ∃ u, (eval ("var " ++ x ++ " " ++ quoteIfNeeded t ++ "; print :" ++ x)).run s = (true, u) ∧
      u.output.lines = Channel.retain s.output.capacity (s.output.lines ++ [⟨t, .normal⟩]) ∧
      (s.output.capacity = 0 → u.output.lines = s.output.lines ++ [⟨t, .normal⟩]) ∧
      u.registry.lookup? x =
        some ((Binding.ofCell .text s.memory.cells.size).withDescription "Shell variable") ∧
      u.memory.cell s.memory.cells.size = .text t ∧
      (∀ key, key ≠ Registry.keyOf x → u.registry.bindings[key]? = s.registry.bindings[key]?) ∧
      (∀ i < s.memory.cells.size, u.memory.cell i = s.memory.cell i) ∧
      u.stack = s.stack ∧ u.depth = s.depth := by
  obtain ⟨levels, hleft⟩ : ∃ levels, s.levelsLeft = levels + 2 :=
    ⟨s.levelsLeft - 2, by unfold levelsLeft; omega⟩
  obtain ⟨hreadable, hdeclare⟩ := exec_declaration h hx hfree ht (levels + 1)
  have hprint := exec_reference (h.declare hx hfree t) hx levels
  have htext : "var " ++ x ++ " " ++ quoteIfNeeded t ++ "; print :" ++ x =
      "var " ++ x ++ " " ++ quoteIfNeeded t ++ ";" ++ (" print :" ++ x) := by
    refine String.toList_injective ?_
    simp
  have hline : (evalBlock ("var " ++ x ++ " " ++ quoteIfNeeded t ++ "; print :" ++ x)).exec s =
      (.ok (), (s.declare x t).passOn ⟨t, .normal⟩ 2) := by
    -- The first statement can be read, so the semicolon behind it is not part of the text.
    have hsequence := agree_evaluateWithin_semicolon s.levelsLeft s hreadable (" print :" ++ x)
    rw [htext]
    show (evaluateWithin s.levelsLeft _).exec s = _
    rw [hsequence.exec, exec_bind, hleft, hdeclare]
    exact hprint
  refine ⟨(s.declare x t).passOn ⟨t, .normal⟩ 2, ?_, rfl, ?_, lookup?_declare hx t, cell_declare s x t,
    fun key hkey => getElem?_declare_of_ne hkey t, fun i hi => cell_declare_of_lt hi x t, rfl, rfl⟩
  · rw [run_eval, shown_eq_self hecho, hline]
    rfl
  · intro hcapacity
    show Channel.retain s.output.capacity _ = _
    rw [hcapacity, Channel.retain_zero]
    rfl

/-- A text with quotes, semicolons, a sub-evaluation and a reference, and with a brace between its quotes.
    The channel keeps all lines. -/
theorem eval_var_print_delimited :
    ∃ s : Shell Unit, s = start { maxOutputLines := 0 } () ∧
      ∃ u, (eval ("var motd " ++ quoteIfNeeded "say \"hi; \x7b\" (print x); :y" ++ "; print :motd")).run s =
          (true, u) ∧
        u.output.lines = s.output.lines ++ [⟨"say \"hi; \x7b\" (print x); :y", .normal⟩] ∧
        u.memory.cell 0 = .text "say \"hi; \x7b\" (print x); :y" := by
  have hstart : ∃ s : Shell Unit, s = start { maxOutputLines := 0 } () ∧ s.HasBuiltins ∧
      s.config.echoInput = false ∧ s.depth + 2 ≤ s.config.maxDepth ∧ s.output.capacity = 0 ∧
      s.memory.cells.size = 0 ∧ (s.profile? "motd").isNone = true := by
    refine ⟨_, rfl, ?_, by decide +kernel⟩
    rw [start_eq_configured rfl]
    exact hasBuiltins_configured rfl (by simp) ()
  obtain ⟨s, hs, hbuiltins, hecho, hlevels, hcapacity, hcells, hunbound⟩ := hstart
  have hfree : ∀ p, s.profile? "motd" = some p → p.kind = .variable := by
    intro p hp
    rw [hp] at hunbound
    cases hunbound
  have hname : PlainName "motd" := by decide
  have htext : Forwardable "say \"hi; \x7b\" (print x); :y" := by decide
  obtain ⟨u, hrun, -, hlines, -, hcell, -⟩ := eval_var_print hbuiltins hecho hlevels hname hfree htext
  rw [hcells] at hcell
  exact ⟨s, hs, u, hrun, hlines hcapacity, hcell⟩

end Shell
end CommandShell
