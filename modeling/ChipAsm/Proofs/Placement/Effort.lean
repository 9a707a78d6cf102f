/-
# The effort of repetitions

Counts may be as large as numerals go, and repetitions nest, so the product of the counts of a
tower says nothing about the work that placing it takes. What bounds the work is the address
space: a repetition goes on only as long as it moves, and it moves forward.

The work is measured in calls of the sink, by a counter that keeps a record of them. At each
level of a tower, a repetition that moves pays for one more call with the offsets that it leaves
behind, and only the last one may have to be paid for apart. So a tower that reaches some
offset has made at most as many calls as it has levels for each offset on the way, and one
more. A tower that stops has made no more than one that reaches the first offset past the
address space.
-/

import ChipAsm.Proofs.Placement.Movement

namespace ChipAsm

open Outcome

/-! ## Two sinks that are one -/

/-- The view shows one sink as another: they stand at the same offset, and do the same when they
are asked to. -/
structure Shows {σ τ : Type} [Sink σ] [Sink τ] (view : σ → τ) : Prop where
  position (sink : σ) : Sink.position (view sink) = Sink.position sink
  seek (sink : σ) (target : Nat) : view (Sink.seek sink target) = Sink.seek (view sink) target
  emit (sink : σ) (bytes : List UInt8) :
    (Sink.emit sink bytes).map view = Sink.emit (view sink) bytes
  instruction (sink : σ) (instruction : Instruction) :
    (Sink.instruction sink instruction).map view = Sink.instruction (view sink) instruction

namespace Shows

variable {σ τ : Type} [Sink σ] [Sink τ] {view : σ → τ}

theorem map_seek (shown : Shows view) (instruction : Instruction) (sink : σ) :
    (Placement.seek instruction sink).map view = Placement.seek instruction (view sink) := by
  unfold Placement.seek
  split
  · split
    · rfl
    · simp only [shown.position]
      split
      · rfl
      · split
        · rfl
        · exact congrArg done (shown.seek sink _)
  · rfl

theorem map_insert (shown : Shows view) (instruction : Instruction) (kind : DataKind) (sink : σ) :
    (Placement.insert instruction kind sink).map view =
      Placement.insert instruction kind (view sink) := by
  unfold Placement.insert
  split
  · rfl
  · rw [← shown.emit]
    rfl

theorem map_act (shown : Shows view) (instruction : Instruction) (sink : σ) :
    (instruction.act sink).map view = instruction.act (view sink) := by
  unfold Instruction.act
  split
  · exact shown.instruction sink instruction
  · exact shown.map_seek instruction sink
  · exact shown.map_insert instruction _ sink
  · split <;> rfl

theorem map_checkLimit (shown : Shows view) (instruction : Instruction) (sink : σ) :
    (Placement.checkLimit instruction sink).map view =
      Placement.checkLimit instruction (view sink) := by
  unfold Placement.checkLimit
  simp only [shown.position]
  split <;> rfl

theorem map_repeatMoving (shown : Shows view) {step : σ → Outcome (Halt Diagnostic) σ}
    {other : τ → Outcome (Halt Diagnostic) τ}
    (same : ∀ sink, (step sink).map view = other (view sink))
    (count : Nat) (sink : σ) :
    (Placement.repeatMoving step count sink).map view =
      Placement.repeatMoving other count (view sink) := by
  induction count generalizing sink with
  | zero => rfl
  | succ count ih =>
      rw [Placement.repeatMoving_succ, Placement.repeatMoving_succ, ← same]
      apply map_andThen
      intro next
      simp only [shown.position]
      split
      · rfl
      · exact ih next

/-- An instruction does the same to a sink and to what is shown of it. -/
theorem map_perform (shown : Shows view) (instruction : Instruction) (sink : σ) :
    (instruction.perform sink).map view = instruction.perform (view sink) := by
  induction instruction using Instruction.tower_induction generalizing sink with
  | single instruction single =>
      rw [Instruction.perform_of_single single, Instruction.perform_of_single single,
        ← shown.map_act]
      exact map_andThen (shown.map_checkLimit instruction)
  | nested instruction count inner nested ih =>
      rw [Instruction.perform_of_repeats nested, Instruction.perform_of_repeats nested,
        ← shown.map_repeatMoving ih]
      exact map_andThen (shown.map_checkLimit instruction)

/-- A sink moves as what is shown of it moves. -/
theorem lawfulSink [LawfulSink τ] (shown : Shows view) : LawfulSink σ where
  position_seek sink target := by
    rw [← shown.position, shown.seek, LawfulSink.position_seek]
  position_emit {sink next bytes} accepted := by
    have counted : Sink.emit (view sink) bytes = done (view next) := by
      rw [← shown.emit, accepted, map_done]
    rw [← shown.position, ← shown.position, LawfulSink.position_emit counted]
  position_instruction {sink next instruction} accepted := by
    have counted : Sink.instruction (view sink) instruction = done (view next) := by
      rw [← shown.instruction, accepted, map_done]
    rw [← shown.position, ← shown.position, LawfulSink.position_instruction counted]

end Shows

/-! ## A record of calls -/

/-- What a sink is asked to do. -/
inductive Call
  | seek (target : Nat)
  | emit (bytes : List UInt8)
  | instruction (instruction : Instruction)
  deriving DecidableEq, Repr

/-- A counter with a record of the calls it has received. -/
structure Recorder where
  counter : Counter
  calls : List Call
  deriving DecidableEq, Repr

namespace Recorder

/-- The recorder after one more call. -/
def record (recorder : Recorder) (call : Call) (counter : Counter) : Recorder :=
  { counter, calls := recorder.calls ++ [call] }

instance : Sink Recorder where
  position recorder := Sink.position recorder.counter
  seek recorder target :=
    recorder.record (.seek target) (Sink.seek recorder.counter target)
  emit recorder bytes := (Sink.emit recorder.counter bytes).map (recorder.record (.emit bytes))
  instruction recorder instruction :=
    (Sink.instruction recorder.counter instruction).map
      (recorder.record (.instruction instruction))

/-- Apart from the record, the recorder is its counter. -/
theorem shows_counter : Shows counter where
  position _ := rfl
  seek _ _ := rfl
  emit _ _ := rfl
  instruction _ _ := rfl

instance : LawfulSink Recorder :=
  shows_counter.lawfulSink

theorem length_calls_record (recorder : Recorder) (call : Call) (counter : Counter) :
    (recorder.record call counter).calls.length = recorder.calls.length + 1 := by
  rw [record, List.length_append, List.length_singleton]

/-- An instruction that repeats nothing calls the sink at most once, whether or not it goes
through. -/
theorem length_calls_act_le (instruction : Instruction) (recorder : Recorder) :
    (instruction.act recorder).state.calls.length ≤ recorder.calls.length + 1 := by
  have uncalled := Nat.le_succ recorder.calls.length
  unfold Instruction.act
  split
  · exact Nat.le_of_eq (recorder.length_calls_record _ _)
  · unfold Placement.seek
    split
    · split
      · exact uncalled
      · dsimp only
        split
        · exact uncalled
        · split
          · exact uncalled
          · exact Nat.le_of_eq (recorder.length_calls_record _ _)
    · exact uncalled
  · unfold Placement.insert
    split
    · exact uncalled
    · exact Nat.le_of_eq (recorder.length_calls_record _ _)
  · split <;> exact uncalled

/-! ## Calls and offsets -/

/-- The offset that an outcome is charged for: the one it reached, or the first past the address
space if it stopped. -/
def charged (outcome : Outcome (Halt Diagnostic) Recorder) : Nat :=
  if outcome.fault.isNone then outcome.state.counter.offset else imageLimit + 1

/-- The calls of an outcome are paid for: there are at most as many of them as levels for each
offset from the start to the one that is charged, and one more. -/
def PaidFor (levels : Nat) (start : Recorder) (outcome : Outcome (Halt Diagnostic) Recorder) :
    Prop :=
  outcome.state.calls.length ≤
    start.calls.length + levels * (charged outcome - start.counter.offset) + 1

/-- A single call is always paid for. -/
theorem paidFor_of_le {levels : Nat} {start : Recorder}
    {outcome : Outcome (Halt Diagnostic) Recorder}
    (single : outcome.state.calls.length ≤ start.calls.length + 1) :
    PaidFor levels start outcome := by
  unfold PaidFor
  omega

/-- More levels pay for more. -/
theorem PaidFor.succ {levels : Nat} {start : Recorder}
    {outcome : Outcome (Halt Diagnostic) Recorder}
    (paid : PaidFor levels start outcome) : PaidFor (levels + 1) start outcome := by
  unfold PaidFor at paid ⊢
  rw [Nat.succ_mul]
  omega

/-- After a step that moves, the offsets left behind pay for its last call too, on one more
level. -/
theorem PaidFor.trans {levels : Nat} {start next : Recorder}
    {outcome : Outcome (Halt Diagnostic) Recorder} (first : PaidFor levels start (done next))
    (moved : start.counter.offset < next.counter.offset)
    (ahead : next.counter.offset ≤ charged outcome)
    (rest : PaidFor (levels + 1) next outcome) : PaidFor (levels + 1) start outcome := by
  have reached : charged (done next) = next.counter.offset := rfl
  unfold PaidFor at first rest ⊢
  rw [reached, state_done] at first
  have distance : charged outcome - start.counter.offset =
      (charged outcome - next.counter.offset) +
        (next.counter.offset - start.counter.offset) := by omega
  have step : levels * (next.counter.offset - start.counter.offset) + 1 ≤
      (levels + 1) * (next.counter.offset - start.counter.offset) := by
    rw [Nat.succ_mul]
    omega
  rw [distance, Nat.mul_add]
  omega

end Recorder

open Recorder

/-- Repetitions of what ends inside the address space end inside it. -/
theorem Placement.position_le_imageLimit_of_repeatMoving {σ : Type} [Sink σ]
    {instruction : Instruction} {count : Nat} {sink last : σ}
    (inside : Sink.position sink ≤ imageLimit)
    (through : repeatMoving instruction.perform count sink = done last) :
    Sink.position last ≤ imageLimit :=
  repeatMoving_induction
    (fun sink next => Sink.position sink ≤ imageLimit → Sink.position next ≤ imageLimit)
    (fun _ => id) (fun _ _ _ first second => second ∘ first)
    (fun _ _ placed _ => Instruction.position_le_imageLimit placed) through inside

/-- The offset that repetitions are charged for is not behind their start. -/
theorem Placement.le_charged_repeatMoving {instruction : Instruction} {count : Nat}
    {recorder : Recorder} (inside : recorder.counter.offset ≤ imageLimit) :
    recorder.counter.offset ≤ charged (repeatMoving instruction.perform count recorder) := by
  cases outcome : repeatMoving instruction.perform count recorder with
  | done last => exact position_le_of_repeatMoving outcome
  | stopped last diagnostic => exact Nat.le_succ_of_le inside

/-- Repetitions of an instruction whose calls are paid for are paid for with one more level. -/
theorem Placement.paidFor_repeatMoving {instruction : Instruction} {levels : Nat}
    (paid : ∀ recorder : Recorder, recorder.counter.offset ≤ imageLimit →
      PaidFor levels recorder (instruction.perform recorder))
    (count : Nat) (recorder : Recorder) (inside : recorder.counter.offset ≤ imageLimit) :
    PaidFor (levels + 1) recorder (repeatMoving instruction.perform count recorder) := by
  induction count generalizing recorder with
  | zero => exact paidFor_of_le (Nat.le_succ _)
  | succ count ih =>
      have first := paid recorder inside
      rw [repeatMoving_succ]
      cases placed : instruction.perform recorder with
      | stopped last diagnostic =>
          rw [placed] at first
          exact first.succ
      | done next =>
          rw [placed] at first
          rw [done_andThen]
          by_cases still : Sink.position next = Sink.position recorder
          · rw [if_pos still]
            exact first.succ
          · rw [if_neg still]
            have within : next.counter.offset ≤ imageLimit :=
              Instruction.position_le_imageLimit placed
            have forward := Instruction.position_le_of_perform placed
            have moved : recorder.counter.offset < next.counter.offset :=
              Nat.lt_of_le_of_ne forward (Ne.symm still)
            exact first.trans moved (le_charged_repeatMoving within) (ih next within)

/-! ## Nested repetitions -/

/-- An instruction under so many nested `DUP`s. The instruction at the bottom repeats nothing,
well formed or not, and the counts of the `DUP`s may be any text. -/
inductive Nested : (levels : Nat) → Instruction → Prop
  | leaf {instruction : Instruction} (single : instruction.repeats? = none) :
      Nested 0 instruction
  | dup {levels : Nat} {times inner : String} {arguments : List String} {source : Place}
      (below : Nested levels ⟨Text.upper inner, arguments, source⟩) :
      Nested (levels + 1) ⟨"DUP", times :: inner :: arguments, source⟩

/-- The limit check changes no sink. -/
theorem Placement.state_andThen_checkLimit {σ : Type} [Sink σ] (instruction : Instruction)
    (outcome : Outcome (Halt Diagnostic) σ) :
    (outcome.andThen (checkLimit instruction)).state = outcome.state := by
  cases outcome with
  | stopped last diagnostic => rfl
  | done last =>
      rw [done_andThen, checkLimit]
      split <;> rfl

/-- An instruction that repeats nothing is paid for. -/
theorem Instruction.paidFor_perform_of_single {instruction : Instruction}
    (single : instruction.repeats? = none) (levels : Nat) (recorder : Recorder) :
    PaidFor levels recorder (instruction.perform recorder) := by
  apply paidFor_of_le
  rw [perform_of_single single, Placement.state_andThen_checkLimit]
  exact length_calls_act_le instruction recorder

/-- Nested repetitions are paid for by their levels. -/
theorem Nested.paidFor_perform {levels : Nat} {instruction : Instruction}
    (nested : Nested levels instruction) (recorder : Recorder)
    (inside : recorder.counter.offset ≤ imageLimit) :
    PaidFor levels recorder (instruction.perform recorder) := by
  induction nested generalizing recorder with
  | leaf single => exact Instruction.paidFor_perform_of_single single 0 recorder
  | @dup levels times inner arguments source below ih =>
      cases counted : Text.natural? times with
      | none =>
          apply Instruction.paidFor_perform_of_single
          simp [Instruction.repeats?, Directive.ofMnemonic?, counted]
      | some count =>
          have shape : (Instruction.mk "DUP" (times :: inner :: arguments) source).repeats? =
              some (count, ⟨Text.upper inner, arguments, source⟩) := by
            simp [Instruction.repeats?, Directive.ofMnemonic?, counted, Instruction.repeated]
          have paid := Placement.paidFor_repeatMoving ih count recorder inside
          rw [Instruction.perform_of_repeats shape]
          cases outcome : Placement.repeatMoving
              (Instruction.mk (Text.upper inner) arguments source).perform count recorder with
          | stopped last diagnostic =>
              rw [outcome] at paid
              exact paid
          | done last =>
              have within := Placement.position_le_imageLimit_of_repeatMoving inside outcome
              rw [outcome] at paid
              rw [done_andThen, Placement.checkLimit_of_le within]
              exact paid

/-- What placing an instruction is charged for is at most the first offset past the address
space. -/
theorem charged_perform_le (instruction : Instruction) (recorder : Recorder) :
    charged (instruction.perform recorder) ≤ imageLimit + 1 := by
  cases placed : instruction.perform recorder with
  | done last => exact Nat.le_succ_of_le (Instruction.position_le_imageLimit placed)
  | stopped last diagnostic => exact Nat.le_refl _

/-- The work on nested repetitions is bounded by the address space. Whatever their counts are,
and whether or not they go through, so many nested `DUP`s around any instruction call a counter
at most as often as they have levels for each offset from where they begin to the first past
the address space, and once more. Keeping the record of the calls changes nothing else. -/
theorem repetition_effort_bounded (levels : Nat) (instruction : Instruction)
    (nested : Nested levels instruction) (start : Nat) (inside : start ≤ imageLimit) :
    let outcome := instruction.perform (Recorder.mk ⟨start⟩ [])
    outcome.map Recorder.counter = instruction.perform (Counter.mk start) ∧
    outcome.state.calls.length ≤ levels * (imageLimit + 1 - start) + 1 := by
  intro outcome
  refine ⟨shows_counter.map_perform instruction ⟨⟨start⟩, []⟩, ?_⟩
  have paid : PaidFor levels ⟨⟨start⟩, []⟩ outcome := nested.paidFor_perform ⟨⟨start⟩, []⟩ inside
  calc outcome.state.calls.length
    _ ≤ 0 + levels * (charged outcome - start) + 1 := paid
    _ ≤ levels * (imageLimit + 1 - start) + 1 := by
        rw [Nat.zero_add]
        have far : charged outcome ≤ imageLimit + 1 := charged_perform_le instruction _
        exact Nat.succ_le_succ (Nat.mul_le_mul_left levels (Nat.sub_le_sub_right far start))

/-- Two of the largest counts around a `SEEK` that moves only once, and the same around a `DUP`
whose count cannot be read. -/
theorem repetition_effort_bounded_at_largest_counts :
    let largest := "9223372036854775807"
    let resting : Instruction := ⟨"DUP", [largest, "dup", largest, "seek", "6"], default⟩
    let malformed : Instruction := ⟨"DUP", [largest, "dup", "many", "nop"], default⟩
    (Nested 2 resting ∧ Nested 2 malformed ∧ 4 ≤ imageLimit) ∧
    (resting.perform (Recorder.mk ⟨4⟩ [])).state.calls.length ≤ 131067 ∧
    (malformed.perform (Recorder.mk ⟨4⟩ [])).state.calls.length ≤ 131067 := by
  intro largest resting malformed
  have dup : Text.upper "dup" = "DUP" := by decide +kernel
  have seek : (Instruction.mk (Text.upper "seek") ["6"] default).repeats? = none := by
    decide +kernel
  have nop : (Instruction.mk (Text.upper "nop") [] default).repeats? = none := by
    decide +kernel
  have within : 4 ≤ imageLimit := by decide
  have first : Nested 2 resting := by
    apply Nested.dup
    rw [dup]
    exact .dup (.leaf seek)
  have second : Nested 2 malformed := by
    apply Nested.dup
    rw [dup]
    exact .dup (.leaf nop)
  exact ⟨⟨first, second, within⟩, (repetition_effort_bounded 2 resting first 4 within).2,
    (repetition_effort_bounded 2 malformed second 4 within).2⟩

end ChipAsm
