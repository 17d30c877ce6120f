import CommandShell.Proofs.Evaluation.Program
import CommandShell.Proofs.Reading.Quoting

/-!
# `CommandShell.Proofs.Aliases` — what a call of an alias means

An alias puts its target and the arguments of the call together to one text and has it read again. That
is meant to be the same as putting the tokens together: the target with the arguments as literals behind
it. It is, for forwardable arguments and for every target that more tokens may follow.

## Contents
- `Binding.toList_aliasStatement`, the text that an alias evaluates.
- `Eval.inCall`, an evaluation with a frame on the call stack, and `Eval.exec_dispatch_alias`.
- `Eval.alias_transparent`.
-/

namespace CommandShell

open Binding

/-! ## The text of a call -/

theorem Binding.toList_aliasStatement (target : String) (texts : List String) :
    (aliasStatement target texts).toList = target.toList ++ writtenArguments texts := by
  induction texts generalizing target with
  | nil => simp [aliasStatement, writtenArguments]
  | cons a texts ih =>
      have := ih (target ++ " " ++ quoteIfNeeded a)
      simpa [aliasStatement, writtenArguments] using this

namespace Eval

variable {σ : Type}

/-! ## Calls -/

/-- Runs an evaluation with a frame on the call stack, which is taken off again however it ends. -/
def inCall (frame : Frame) (x : Eval σ Unit) : Eval σ Unit := do
  modify fun s => { s with stack := s.stack.push frame }
  let outcome ← attempt x
  modify fun s => { s with stack := s.stack.pop?.2 }
  liftM outcome

/-- The state in which a call with this frame runs. -/
def called (s : Shell σ) (frame : Frame) : Shell σ :=
  s.atLevel s.depth (s.stack.push frame)

theorem exec_inCall (frame : Frame) (x : Eval σ Unit) (s : Shell σ) :
    (inCall frame x).exec s =
      let (outcome, u) := x.exec (called s frame)
      (outcome, u.atLevel u.depth u.stack.pop?.2) := rfl

/-- Finds the binding of the name of a frame and runs it. -/
def callByName (nested : String → Eval σ Unit) (frame : Frame) : Eval σ Unit := do
  let (binding, args) ← prepare nested frame.name
  enter nested ⟨frame, binding, args⟩

theorem dispatch_eq (nested : String → Eval σ Unit) (frame : Frame) :
    dispatch nested frame = inCall frame (callByName nested frame) := rfl

section Alias

variable {nested : String → Eval σ Unit} {frame : Frame} {target : String} {s : Shell σ}

/-- An alias has no parameters, so its arguments are not converted. -/
theorem exec_prepare_alias {name : String} (h : s.registry.lookup? name = some (.ofAlias target)) :
    (prepare nested name).exec s = (.ok (.ofAlias target, ⟨[]⟩), s) := by
  rw [prepare, exec_get_bind, h]
  rfl

/-- An alias evaluates its text as a block and answers nothing. -/
theorem exec_perform_alias (hframe : s.stack.current = .ok frame) (args : Args) :
    (perform nested ((Binding.ofAlias target).run args)).exec s =
      (nested (aliasStatement target frame.texts) >>= fun _ => pure none).exec s := by
  have hrequest : (perform nested ((Binding.ofAlias target).run args)).exec s =
      (perform nested (Script.ofExcept s.stack.current fun frame =>
        .evalBlock (aliasStatement target frame.texts) fun r =>
          Script.ofExcept r fun _ => .done (.ok none))).exec s := rfl
  have hblock : (perform nested ((Binding.ofAlias target).run args)).exec s =
      (attempt (nested (aliasStatement target frame.texts)) >>= fun r =>
        perform nested (Script.ofExcept r fun _ => .done (.ok none))).exec s := by
    rw [hrequest, hframe]
    rfl
  rw [hblock, exec_bind, exec_bind, exec_attempt]
  rcases (nested (aliasStatement target frame.texts)).exec s with ⟨_ | _, t⟩ <;> rfl

theorem exec_enter_alias (hframe : s.stack.current = .ok frame) (args : Args) :
    (enter nested ⟨frame, .ofAlias target, args⟩).exec s =
      (nested (aliasStatement target frame.texts)).exec s := by
  rw [enter, exec_note_bind, exec_bind, exec_perform_alias hframe, exec_bind]
  rcases (nested (aliasStatement target frame.texts)).exec s with ⟨_ | _, t⟩ <;> rfl

variable (nested frame) in
/-- A call of an alias evaluates the text that the alias stands for. -/
theorem exec_dispatch_alias (h : s.registry.lookup? frame.name = some (.ofAlias target)) :
    (dispatch nested frame).exec s =
      (inCall frame (nested (aliasStatement target frame.texts))).exec s := by
  have hcalled : (called s frame).registry.lookup? frame.name = some (.ofAlias target) := h
  have hcall : (callByName nested frame).exec (called s frame) =
      (nested (aliasStatement target frame.texts)).exec (called s frame) := by
    rw [callByName, exec_bind, exec_prepare_alias hcalled]
    exact exec_enter_alias (CallStack.current_push _ _) _
  rw [dispatch_eq, exec_inCall, exec_inCall, hcall]

end Alias

/-- The tokens of the target and the arguments as literals are what a call of an alias evaluates, one
    level deeper. The target is any text that is read as one statement, of which no token was ended by a
    semicolon and the last one is no colon alone. -/
theorem alias_transparent {target : String} {t : Statement} {ss : List Scanned} {texts : List String}
    (htarget : nextStatement target.toList = .ok t) (hextensible : Extensible target.toList ss)
    (htexts : ∀ a ∈ texts, Forwardable a) :
    (∃ u, nextStatement (aliasStatement target texts).toList = .ok u ∧ u.rest = [] ∧
        u.tokens = t.tokens ++ texts.map (Token.mk .literal)) ∧
      ∀ (levels : Nat) (name : String) (arguments : List Argument) (s : Shell σ),
        arguments.map (·.text) = texts → s.registry.lookup? name = some (.ofAlias target) →
        (dispatch (evaluateWithin levels) ⟨name, arguments⟩).exec s =
          (inCall ⟨name, arguments⟩
            (evaluateProgram levels ⟨[t.tokens ++ texts.map (Token.mk .literal)], none⟩)).exec s := by
  obtain ⟨htokens, -⟩ := ReadsAs.unique ⟨t, htarget, rfl, rfl⟩ hextensible.scans.readsAs
  have hread := hextensible.readsAs_forwardable htexts
  rw [← toList_aliasStatement, ← htokens] at hread
  constructor
  · obtain ⟨u, hu, htokens, hrest⟩ := hread
    exact ⟨u, hu, hrest, htokens⟩
  · intro levels name arguments s harguments hlookup
    have htext : (⟨name, arguments⟩ : Frame).texts = texts := harguments
    have hcall := exec_dispatch_alias (evaluateWithin levels) ⟨name, arguments⟩ hlookup
    rw [htext, evaluateWithin_of_readsAs levels hread] at hcall
    exact hcall

/-- A shell in which one name is bound, as an alias with a block among its words. -/
def greeter : Shell Unit :=
  { Shell.empty {} () with
    registry := ⟨Dictionary.insert ∅ "greet" (.ofAlias "echo \x7ba b\x7d")⟩ }

/-- A call with an argument that has to be quoted and one that has to stand in braces. -/
theorem alias_transparent_greet :
    greeter.registry.lookup? "greet" = some (.ofAlias "echo \x7ba b\x7d") ∧
      (∀ a ∈ ["c d", "say \"hi\""], Forwardable a) ∧
      (dispatch (evaluateWithin 2) ⟨"greet", [⟨"c d", .literal⟩, ⟨"say \"hi\"", .subEval⟩]⟩).exec greeter =
        (inCall ⟨"greet", [⟨"c d", .literal⟩, ⟨"say \"hi\"", .subEval⟩]⟩ (evaluateProgram 2
          ⟨[["echo", "a b", "c d", "say \"hi\""].map (Token.mk .literal)], none⟩)).exec greeter := by
  have hextensible : Extensible "echo \x7ba b\x7d".toList
      [⟨⟨.literal, "echo"⟩, "\x7ba b\x7d".toList, false⟩, ⟨⟨.literal, "a b"⟩, [], false⟩] :=
    ⟨.cons rfl (by decide) (.last rfl (.inr rfl)), by simp, by simp⟩
  have hforwardable : ∀ a ∈ ["c d", "say \"hi\""], Forwardable a := by decide
  have hlookup : greeter.registry.lookup? "greet" = some (.ofAlias "echo \x7ba b\x7d") := by
    rw [Registry.lookup?, show Text.lower "greet" = "greet" by decide +kernel]
    exact Dictionary.getElem?_insert_self ..
  obtain ⟨t, ht, htokens, -⟩ := hextensible.scans.readsAs
  refine ⟨hlookup, hforwardable, ?_⟩
  have hcall := (alias_transparent ht hextensible hforwardable).2 2 "greet"
    [⟨"c d", .literal⟩, ⟨"say \"hi\"", .subEval⟩] greeter rfl hlookup
  rw [htokens] at hcall
  exact hcall

end Eval
end CommandShell
