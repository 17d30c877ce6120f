/-!
# `CommandShell.Output.Channel` — the output channel

Commands and the evaluator write lines to one channel. The host drains it from the front; the
evaluator takes the last line as the result of a sub-evaluation. A channel of bounded capacity drops
its oldest lines.

## Contents
- `Severity`, `Line` and `Channel`.
- `Channel.emit`, `Channel.popLast?` and `Channel.drain`, each with its effect on `Channel.lines`.
-/

namespace CommandShell

/-- How a line is to be shown. -/
inductive Severity where
  | normal
  | warning
  | error
  /-- The echo of a submitted input line. -/
  | input
deriving DecidableEq, Repr

/-- One line of output. -/
structure Line where
  text : String
  severity : Severity
deriving DecidableEq, Repr

/-- The lines written and not yet taken, oldest first. -/
structure Channel where
  lines : List Line := []
  /-- The greatest number of lines kept, or zero for no bound. -/
  capacity : Nat := 0
  /-- The number of lines ever written, those dropped or taken included. -/
  emitted : Nat := 0
deriving DecidableEq, Repr

namespace Channel

/-- The number of lines waiting. -/
def size (ch : Channel) : Nat :=
  ch.lines.length

/-- The last lines of a list, as many as a capacity allows. -/
def retain (capacity : Nat) (lines : List Line) : List Line :=
  if capacity = 0 then lines else lines.drop (lines.length - capacity)

/-- Writes a line and drops the oldest ones beyond the capacity. -/
def emit (ch : Channel) (line : Line) : Channel :=
  { ch with lines := retain ch.capacity (ch.lines ++ [line]), emitted := ch.emitted + 1 }

/-- Takes the line written last. -/
def popLast? (ch : Channel) : Option Line × Channel :=
  (ch.lines.getLast?, { ch with lines := ch.lines.dropLast })

/-- Takes every line. -/
def drain (ch : Channel) : List Line × Channel :=
  (ch.lines, { ch with lines := [] })

/-! ## What each operation does to the lines -/

theorem retain_zero (lines : List Line) : retain 0 lines = lines := rfl

theorem length_retain_le {capacity : Nat} (h : 0 < capacity) (lines : List Line) :
    (retain capacity lines).length ≤ capacity := by
  simp only [retain, if_neg (Nat.ne_of_gt h), List.length_drop]
  omega

theorem retain_suffix (capacity : Nat) (lines : List Line) : retain capacity lines <:+ lines := by
  unfold retain
  split
  · exact List.suffix_rfl
  · exact List.drop_suffix _ _

/-- The line written last is never dropped. -/
theorem retain_concat (capacity : Nat) (lines : List Line) (line : Line) :
    ∃ kept, retain capacity (lines ++ [line]) = kept ++ [line] ∧ kept <:+ lines := by
  unfold retain
  split
  · exact ⟨lines, rfl, List.suffix_rfl⟩
  · next hcapacity =>
    refine ⟨lines.drop ((lines ++ [line]).length - capacity), ?_, List.drop_suffix _ _⟩
    refine List.drop_append_of_le_length ?_
    simp only [List.length_append, List.length_singleton]
    omega

@[simp] theorem lines_emit (ch : Channel) (line : Line) :
    (ch.emit line).lines = retain ch.capacity (ch.lines ++ [line]) := rfl

@[simp] theorem emitted_emit (ch : Channel) (line : Line) :
    (ch.emit line).emitted = ch.emitted + 1 := rfl

@[simp] theorem capacity_emit (ch : Channel) (line : Line) :
    (ch.emit line).capacity = ch.capacity := rfl

end Channel
end CommandShell
