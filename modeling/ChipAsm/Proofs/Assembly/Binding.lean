/-
# The first pass

Both passes do the same with a statement: they place its instruction, if it has one,
on their own sink. What else the first pass does, binding labels, neither moves its
counter nor depends on more than its offset.

So the offsets of the first pass never decrease and never leave the address space, and
the pass over a list of statements went through each of its beginnings.
-/

import ChipAsm.Assembly
import ChipAsm.Proofs.Placement.Movement

namespace ChipAsm

open Outcome

namespace Statement

variable {σ : Type} [Sink σ]

/-- Places the instruction of a statement; a label alone places nothing. -/
def perform (statement : Statement) (sink : σ) : Outcome (Halt Diagnostic) σ :=
  match statement with
  | .label _ => .done sink
  | .instruction _ body => body.perform sink

/-- A statement never moves a sink backwards. -/
theorem position_le_of_perform [LawfulSink σ] {statement : Statement} {sink last : σ}
    (through : statement.perform sink = done last) :
    Sink.position sink ≤ Sink.position last := by
  cases statement with
  | label mark => exact Nat.le_of_eq (congrArg Sink.position (done_inj.mp through))
  | instruction mark body => exact Instruction.position_le_of_perform through

/-- A statement leaves the output inside the address space if it was there. -/
theorem position_le_imageLimit {statement : Statement} {sink last : σ}
    (inside : Sink.position sink ≤ imageLimit)
    (through : statement.perform sink = done last) : Sink.position last ≤ imageLimit := by
  cases statement with
  | label mark => exact done_inj.mp through ▸ inside
  | instruction mark body => exact Instruction.position_le_imageLimit through

end Statement

namespace Binder

/-- Binding a label leaves the counter alone. -/
theorem counter_of_bind {binder next : Binder} {label : Label}
    (through : binder.bind label = done next) : next.counter = binder.counter := by
  unfold bind at through
  split at through
  · exact done_inj.mp through ▸ rfl
  · exact absurd through (stopped_ne_done _ _ _)

/-- The counter of the first pass goes as the statement is placed. -/
theorem counter_of_step {binder next : Binder} {statement : Statement}
    (through : binder.step statement = done next) :
    statement.perform binder.counter = done next.counter := by
  have counted : ∀ {binder : Binder} {body : Instruction}, binder.count body = done next →
      body.perform binder.counter = done next.counter := by
    intro binder body placed
    obtain ⟨counter, performed, rfl⟩ := map_eq_done_iff.mp placed
    exact performed
  match statement with
  | .label mark => exact done_inj.mpr (counter_of_bind through).symm
  | .instruction none body => exact counted through
  | .instruction (some mark) body =>
      obtain ⟨bound, binding, placed⟩ := andThen_eq_done_iff.mp through
      rw [Statement.perform, ← counter_of_bind binding]
      exact counted placed

end Binder

/-- The first pass over a list went through each beginning of it, and the offset has
only grown since. -/
theorem bindSymbols_append_eq_done {before after : List Statement} {binder : Binder}
    (bound : bindSymbols (before ++ after) = done binder) :
    ∃ earlier, bindSymbols before = done earlier ∧
      earlier.counter.offset ≤ binder.counter.offset := by
  obtain ⟨earlier, through, rest⟩ := run_append_eq_done bound
  refine ⟨earlier, through, ?_⟩
  refine run_invariant (fun _ binder => earlier.counter.offset ≤ binder.counter.offset)
    (Nat.le_refl _) ?_ rest
  intro _ statement _ binder next _ _ grown stepped
  exact Nat.le_trans grown (Statement.position_le_of_perform (Binder.counter_of_step stepped))

/-- The first pass over one more statement. -/
theorem bindSymbols_concat_eq_done {before : List Statement} {statement : Statement}
    {binder : Binder} (bound : bindSymbols (before ++ [statement]) = done binder) :
    ∃ earlier, bindSymbols before = done earlier ∧
      statement.perform earlier.counter = done binder.counter := by
  rw [bindSymbols, run_concat] at bound
  obtain ⟨earlier, through, stepped⟩ := andThen_eq_done_iff.mp bound
  exact ⟨earlier, through, Binder.counter_of_step stepped⟩

/-- The first pass ends inside the address space. -/
theorem offset_le_imageLimit {statements : List Statement} {binder : Binder}
    (bound : bindSymbols statements = done binder) : binder.counter.offset ≤ imageLimit :=
  run_invariant (fun _ binder => binder.counter.offset ≤ imageLimit) (Nat.zero_le _)
    (fun _ _ _ _ _ _ _ inside stepped =>
      Statement.position_le_imageLimit inside (Binder.counter_of_step stepped)) bound

end ChipAsm
