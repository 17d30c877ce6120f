import CommandShell.Output.Channel

/-!
# `CommandShell.Proofs.BoundedOutput` — a bounded channel beside an unbounded one

A channel with a capacity does what one without does, except that it drops its oldest lines. So whatever
is written to both and taken from both, it shows the last of the lines that the other one shows. How many
it lacks cannot be told from the capacity: lines are also taken from the back, and the bounded channel
may run out of them while the other one has some left.

## Contents
- `Channel.Operation`, `Channel.apply` and `Channel.after`.
- `Channel.Trails`, the relation between the two channels, and that each operation keeps it.
- `Channel.bounded_trails_unbounded`.
-/

namespace CommandShell
namespace Channel

/-! ## Operations -/

/-- What is done to a channel. -/
inductive Operation where
  | emit (line : Line)
  | popLast
  | drain

/-- The channel after an operation. -/
def apply (ch : Channel) : Operation → Channel
  | .emit line => ch.emit line
  | .popLast => ch.popLast?.2
  | .drain => ch.drain.2

/-- The channel after some operations, done in order. -/
def after (ch : Channel) (ops : List Operation) : Channel :=
  ops.foldl apply ch

/-- How many lines the operations write. -/
def Operation.writes : List Operation → Nat
  | [] => 0
  | .emit _ :: ops => writes ops + 1
  | .popLast :: ops => writes ops
  | .drain :: ops => writes ops

/-- The last operation is applied to what the others leave. -/
theorem after_concat (ch : Channel) (ops : List Operation) (op : Operation) :
    ch.after (ops ++ [op]) = (ch.after ops).apply op := by
  simp [after]

@[simp] theorem capacity_apply (ch : Channel) (op : Operation) :
    (ch.apply op).capacity = ch.capacity := by
  cases op <;> rfl

@[simp] theorem capacity_after (ch : Channel) (ops : List Operation) :
    (ch.after ops).capacity = ch.capacity := by
  unfold after
  induction ops generalizing ch with
  | nil => rfl
  | cons op ops ih => rw [List.foldl_cons, ih, capacity_apply]

/-- The counter counts the lines that are written, whatever becomes of them. -/
theorem emitted_after (ch : Channel) (ops : List Operation) :
    (ch.after ops).emitted = ch.emitted + Operation.writes ops := by
  unfold after
  induction ops generalizing ch with
  | nil => rfl
  | cons op ops ih =>
      rw [List.foldl_cons, ih]
      cases op with
      | emit line =>
          simp only [apply, emitted_emit, Operation.writes]
          omega
      | popLast | drain => rfl

/-- What has just been written is the last line, whatever has been dropped for it. -/
theorem getLast?_emit (ch : Channel) (line : Line) : (ch.emit line).lines.getLast? = some line := by
  obtain ⟨kept, hkept, -⟩ := retain_concat ch.capacity ch.lines line
  rw [lines_emit, hkept, List.getLast?_concat]

/-! ## Two channels -/

/-- The bounded channel shows the last lines of the other one, which has no bound: as many as its
    capacity allows at most, and all of them if it has none. -/
structure Trails (bounded full : Channel) : Prop where
  unbounded : full.capacity = 0
  lines : bounded.lines <:+ full.lines
  size : 0 < bounded.capacity → bounded.size ≤ bounded.capacity
  whole : bounded.capacity = 0 → bounded.lines = full.lines

namespace Trails

variable {bounded full : Channel}

theorem emit (h : Trails bounded full) (line : Line) : Trails (bounded.emit line) (full.emit line) where
  unbounded := h.unbounded
  lines := by
    have hsame : bounded.lines ++ [line] <:+ full.lines ++ [line] := by
      obtain ⟨lost, hlost⟩ := h.lines
      exact ⟨lost, by rw [← hlost, List.append_assoc]⟩
    rw [lines_emit, lines_emit, h.unbounded, retain_zero]
    exact (retain_suffix _ _).trans hsame
  size hcapacity := length_retain_le hcapacity _
  whole hcapacity := by
    rw [capacity_emit] at hcapacity
    rw [lines_emit, lines_emit, h.unbounded, hcapacity, h.whole hcapacity]

/-- Taken from the back, a line comes from both channels, or the bounded one has run out. -/
theorem popLast (h : Trails bounded full) : Trails bounded.popLast?.2 full.popLast?.2 where
  unbounded := h.unbounded
  lines := by
    show bounded.lines.dropLast <:+ full.lines.dropLast
    obtain ⟨lost, hlost⟩ := h.lines
    rw [← hlost]
    cases hlines : bounded.lines with
    | nil => exact List.nil_suffix
    | cons line lines =>
        rw [List.dropLast_append_cons]
        exact List.suffix_append _ _
  size hcapacity := by
    have hsize := h.size hcapacity
    show bounded.lines.dropLast.length ≤ bounded.capacity
    rw [List.length_dropLast]
    simp only [Channel.size] at hsize
    omega
  whole hcapacity := congrArg List.dropLast (h.whole hcapacity)

theorem drain (h : Trails bounded full) : Trails bounded.drain.2 full.drain.2 where
  unbounded := h.unbounded
  lines := List.suffix_rfl
  size _ := Nat.zero_le _
  whole _ := rfl

theorem apply (h : Trails bounded full) (op : Operation) : Trails (bounded.apply op) (full.apply op) := by
  cases op with
  | emit line => exact h.emit line
  | popLast => exact h.popLast
  | drain => exact h.drain

theorem after (h : Trails bounded full) (ops : List Operation) :
    Trails (bounded.after ops) (full.after ops) := by
  unfold Channel.after
  induction ops generalizing bounded full with
  | nil => exact h
  | cons op ops ih => exact ih (h.apply op)

/-- Two new channels. -/
theorem start (capacity : Nat) : Trails { capacity } {} where
  unbounded := rfl
  lines := List.suffix_rfl
  size _ := Nat.zero_le _
  whole _ := rfl

end Trails

/-- Whatever is done to a channel of some capacity and to one without, in step, the first one shows the
    last lines of the second: no more than its capacity, or all of them if that is zero. Both have counted
    every line that was written, and when one has just been written it is the last of both. -/
theorem bounded_trails_unbounded (capacity : Nat) (ops : List Operation) :
    let bounded := ({ capacity } : Channel).after ops
    let unbounded := ({} : Channel).after ops
    bounded.lines <:+ unbounded.lines ∧
      (if capacity = 0 then bounded.lines = unbounded.lines else bounded.size ≤ capacity) ∧
      (bounded.emitted = Operation.writes ops ∧ unbounded.emitted = Operation.writes ops) ∧
      ∀ before line, ops = before ++ [.emit line] →
        bounded.lines.getLast? = some line ∧ unbounded.lines.getLast? = some line := by
  intro bounded unbounded
  have htrails : Trails bounded unbounded := (Trails.start capacity).after ops
  have hcapacity : bounded.capacity = capacity := capacity_after _ _
  refine ⟨htrails.lines, ?_, ⟨?_, ?_⟩, ?_⟩
  · split
    · next hzero => exact htrails.whole (hcapacity.trans hzero)
    · next hne =>
      have hsize := htrails.size (by omega)
      rwa [hcapacity] at hsize
  · exact (emitted_after _ _).trans (Nat.zero_add _)
  · exact (emitted_after _ _).trans (Nat.zero_add _)
  · rintro before line rfl
    simp only [bounded, unbounded, after_concat]
    exact ⟨getLast?_emit _ _, getLast?_emit _ _⟩

end Channel
end CommandShell
