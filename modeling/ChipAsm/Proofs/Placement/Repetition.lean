/-
# Repetition

A `DUP` stops repeating after the first repetition that leaves the sink where it was.
This module shows that the shortcut cannot be observed: a `DUP` has the same outcome,
state and fault alike, as its instruction written out as often as the count says.

The reason is that a sink which was not moved has nothing left to gain. If an
instruction goes through without moving a steady sink, then placing it again changes
nothing at all. Only the movement of the sink is looked at in the shortcut, so the law
has to be about the whole state; it is proved along the tower of repetitions, where
forward movement rules out that an inner repetition moved the sink away and back.

The offset at the beginning has to lie inside the address space: a count of zero still
checks the limit, while nothing at all checks nothing.
-/

import ChipAsm.Proofs.Output.Writing

namespace ChipAsm

open Outcome

/-- A sink on which an accepted effect that does not move it has no second effect. -/
class SteadySink (σ : Type) [Sink σ] : Prop extends LawfulSink σ where
  seek_position (sink : σ) : Sink.seek sink (Sink.position sink) = sink
  emit_again {sink next : σ} {bytes : List UInt8} : Sink.emit sink bytes = done next →
    Sink.position next = Sink.position sink → Sink.emit next bytes = done next

instance : SteadySink Counter where
  seek_position _ := rfl
  emit_again {sink next bytes} accepted still := by
    have same : next = sink := congrArg Counter.mk still
    rwa [← same] at accepted

/-- The image accepts an empty piece again and again; the start of what the statement
wrote is marked by the first. -/
instance : SteadySink Output where
  seek_position _ := rfl
  emit_again {sink next bytes} accepted still := by
    obtain ⟨fits, rfl⟩ := Output.emit_eq_done_iff.mp accepted
    have empty : bytes = [] := by
      apply List.eq_nil_of_length_eq_zero
      exact Nat.add_left_cancel still
    subst empty
    refine Output.emit_eq_done_iff.mpr ⟨fits, ?_⟩
    simp [Output.written, writeAt]

namespace Instruction

variable {σ : Type} [Sink σ] [SteadySink σ]

/-- An action that does not move the sink can be taken again without any effect. -/
theorem act_again {instruction : Instruction} {sink next : σ}
    (action : instruction.act sink = done next)
    (still : Sink.position next = Sink.position sink) : instruction.act next = done next := by
  rcases act_cases action with ⟨-, accepted⟩ | ⟨directive, target, named, near, -, rfl⟩ |
    ⟨kind, directive, bytes, data, accepted⟩
  · rw [LawfulSink.position_instruction accepted, wordSize] at still
    omega
  · simp only [act, directive]
    rw [LawfulSink.position_seek] at still
    subst still
    rw [SteadySink.seek_position]
    exact Placement.seek_eq_done_iff.mpr
      ⟨_, named, near, Nat.le_refl _, SteadySink.seek_position sink⟩
  · simp only [act, directive]
    exact Placement.insert_eq_done_iff.mpr ⟨bytes, data, SteadySink.emit_again accepted still⟩

/-- An instruction that does not move the sink can be placed again without any effect. -/
theorem perform_again {instruction : Instruction} {sink last : σ}
    (through : instruction.perform sink = done last)
    (still : Sink.position last = Sink.position sink) : instruction.perform last = done last := by
  induction instruction using tower_induction generalizing sink last with
  | single instruction single =>
      rw [perform_of_single single] at through ⊢
      obtain ⟨middle, action, checked⟩ := andThen_eq_done_iff.mp through
      obtain ⟨rfl, -⟩ := Placement.checkLimit_eq_done_iff.mp checked
      rw [act_again action still, done_andThen, checked]
  | nested instruction count inner nested ih =>
      rw [perform_of_repeats nested] at through ⊢
      obtain ⟨middle, repeated, checked⟩ := andThen_eq_done_iff.mp through
      obtain ⟨rfl, -⟩ := Placement.checkLimit_eq_done_iff.mp checked
      match count with
      | 0 => rw [Placement.repeatMoving_zero, done_andThen, checked]
      | count + 1 =>
          rw [Placement.repeatMoving_succ] at repeated ⊢
          obtain ⟨next, first, rest⟩ := andThen_eq_done_iff.mp repeated
          -- The first repetition cannot have moved: the others would have to move back.
          have resting : Sink.position next = Sink.position sink := by
            by_cases moved : Sink.position next = Sink.position sink
            · exact moved
            · rw [if_neg moved] at rest
              have ahead := position_le_of_perform first
              have further := Placement.position_le_of_repeatMoving rest
              omega
          rw [if_pos resting, done_inj] at rest
          subst rest
          rw [ih first resting, done_andThen, if_pos rfl, done_andThen, checked]

/-- Repeating until the sink rests is repeating to the end. -/
theorem repeatMoving_eq_performAll (instruction : Instruction) (count : Nat) (sink : σ) :
    Placement.repeatMoving instruction.perform count sink =
      performAll sink (List.replicate count instruction) := by
  -- A sink on which the instruction has no effect is not changed by any number of them.
  have idle : ∀ (count : Nat) (sink : σ), instruction.perform sink = done sink →
      performAll sink (List.replicate count instruction) = done sink := by
    intro count sink inert
    induction count with
    | zero => rfl
    | succ count ih =>
        rw [List.replicate_succ, performAll, run_cons, inert, done_andThen]
        exact ih
  induction count generalizing sink with
  | zero => rfl
  | succ count ih =>
      rw [Placement.repeatMoving_succ, List.replicate_succ, performAll, run_cons]
      cases stepped : instruction.perform sink with
      | stopped last diagnostic => rfl
      | done next =>
          rw [done_andThen, done_andThen]
          by_cases still : Sink.position next = Sink.position sink
          · rw [if_pos still]
            exact (idle count next (perform_again stepped still)).symm
          · rw [if_neg still]
            exact ih next

omit [SteadySink σ] in
/-- Instructions that were placed from inside the address space end inside it. -/
theorem position_le_of_performAll {instructions : List Instruction} {sink last : σ}
    (inside : Sink.position sink ≤ imageLimit)
    (through : performAll sink instructions = done last) : Sink.position last ≤ imageLimit :=
  run_invariant (fun _ sink => Sink.position sink ≤ imageLimit) inside
    (fun _ _ _ _ _ _ _ _ placed => position_le_imageLimit placed) through

/-- From inside the address space, a repetition is its instruction written out. -/
theorem perform_eq_performAll {instruction inner : Instruction} {count : Nat}
    (nested : instruction.repeats? = some (count, inner)) {sink : σ}
    (inside : Sink.position sink ≤ imageLimit) :
    instruction.perform sink = performAll sink (List.replicate count inner) := by
  rw [perform_of_repeats nested, repeatMoving_eq_performAll]
  cases outcome : performAll sink (List.replicate count inner) with
  | stopped last diagnostic => rfl
  | done last =>
      rw [done_andThen]
      exact Placement.checkLimit_of_le (position_le_of_performAll inside outcome)

end Instruction

/-- For the sinks of both passes, from any state inside the address space, a `DUP` is
its instruction placed as often as the count says: it reaches the same state and stops
with the same diagnostic, or goes through like the written-out form does. -/
theorem perform_dup_eq_performAll (source : Place) (times inner : String)
    (arguments : List String) (count : Nat)
    (counted : Text.number? times = some (count : Int)) :
    let dup : Instruction :=
      { mnemonic := "DUP", arguments := times :: inner :: arguments, place := source }
    let written := List.replicate count (dup.repeated inner arguments)
    (∀ counter : Counter, counter.offset ≤ imageLimit →
      dup.perform counter = performAll counter written) ∧
    (∀ output : Output, output.cursor ≤ imageLimit →
      dup.perform output = performAll output written) := by
  intro dup written
  have natural : Text.natural? times = some count := by
    rw [Text.natural?, counted, Option.bind_some]
    rfl
  have directive : Directive.ofMnemonic? "DUP" = some .repetition := by decide
  have nested : dup.repeats? = some (count, dup.repeated inner arguments) := by
    simp only [Instruction.repeats?, directive, dup, natural, Option.map_some]
  exact ⟨fun _ inside => Instruction.perform_eq_performAll nested inside,
    fun _ inside => Instruction.perform_eq_performAll nested inside⟩

/-- The law at the largest count, around an inner repetition that moves the sink once
and then rests. -/
theorem perform_dup_dup_seek_eq_performAll :
    Text.number? "9223372036854775807" = some ((9223372036854775807 : Nat) : Int) ∧
    (let dup : Instruction :=
      { mnemonic := "DUP", arguments := ["9223372036854775807", "dup", "2", "seek", "6"],
        place := default }
    let written := List.replicate 9223372036854775807 (dup.repeated "dup" ["2", "seek", "6"])
    dup.perform (Counter.mk 4) = performAll (Counter.mk 4) written ∧
    dup.perform (Output.ofSize default {} 8) =
      performAll (Output.ofSize default {} 8) written) := by
  have counted : Text.number? "9223372036854775807" =
      some ((9223372036854775807 : Nat) : Int) := by decide +kernel
  obtain ⟨counting, writing⟩ := perform_dup_eq_performAll default "9223372036854775807" "dup"
    ["2", "seek", "6"] 9223372036854775807 counted
  exact ⟨counted, counting (Counter.mk 4) (by decide),
    writing (Output.ofSize default {} 8) (by decide)⟩

end ChipAsm
