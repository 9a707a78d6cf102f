/-
# The assertions of the assembler

The assembler asserts that a word which it has composed has the fixed bits of its opcode, and
that its second pass ends where the first did. An assertion that does not hold is no fault of
the source, and nothing is reported for it; the program just ends.

Of all that is done to a sink, only encoding can fail an assertion, and the first pass encodes
nothing. The passes agree, so the assertion about them holds. A failed assertion thus leads
back to one instruction, and there is none for a table whose words all have their fixed bits.
-/

import ChipAsm.Proofs.Assembly.Agreement

namespace ChipAsm

open Outcome

/-- No assertion has failed. -/
def Outcome.Sound {ε σ : Type} (outcome : Outcome (Halt ε) σ) : Prop :=
  outcome.fault ≠ some .assertion

namespace Outcome

variable {ε δ σ τ α : Type}

theorem sound_done (state : σ) : (done state : Outcome (Halt ε) σ).Sound := by
  rintro ⟨⟩

theorem sound_stopped (state : σ) (fault : ε) :
    (stopped state (.fault fault) : Outcome (Halt ε) σ).Sound := by
  rintro ⟨⟩

theorem sound_explain (reason : δ → ε) (outcome : Outcome δ σ) :
    (outcome.explain fun fault => Halt.fault (reason fault)).Sound := by
  cases outcome with
  | done state => exact sound_done state
  | stopped state fault => exact sound_stopped state (reason fault)

theorem Sound.map {outcome : Outcome (Halt ε) σ} (sound : outcome.Sound) (view : σ → τ) :
    (outcome.map view).Sound :=
  sound

theorem Sound.andThen {outcome : Outcome (Halt ε) σ} {next : σ → Outcome (Halt ε) σ}
    (first : outcome.Sound) (second : ∀ state, (next state).Sound) :
    (outcome.andThen next).Sound := by
  cases outcome with
  | done state => exact second state
  | stopped state fault => exact first

/-- A run is sound if its steps are. -/
theorem sound_run {step : σ → α → Outcome (Halt ε) σ}
    (each : ∀ state item, (step state item).Sound) (state : σ) (items : List α) :
    (run step state items).Sound := by
  induction items generalizing state with
  | nil => exact sound_done state
  | cons item rest ih =>
      rw [run_cons]
      exact (each state item).andThen ih

end Outcome

/-! ## Placing -/

section

variable {σ : Type} [Sink σ] {instruction : Instruction}

namespace Placement

theorem sound_seek (instruction : Instruction) (sink : σ) : (seek instruction sink).Sound := by
  unfold seek
  split
  · split
    · exact sound_stopped _ _
    · dsimp only
      split
      · exact sound_stopped _ _
      · split
        · exact sound_stopped _ _
        · exact sound_done _
  · exact sound_stopped _ _

theorem sound_insert (instruction : Instruction) (kind : DataKind) (sink : σ) :
    (insert instruction kind sink).Sound := by
  unfold insert
  split
  · exact sound_stopped _ _
  · exact sound_explain _ _

theorem sound_checkLimit (instruction : Instruction) (sink : σ) :
    (checkLimit instruction sink).Sound := by
  unfold checkLimit
  dsimp only
  split
  · exact sound_stopped _ _
  · exact sound_done _

theorem sound_repeatMoving {step : σ → Outcome (Halt Diagnostic) σ}
    (each : ∀ sink, (step sink).Sound) (count : Nat) (sink : σ) :
    (repeatMoving step count sink).Sound := by
  induction count generalizing sink with
  | zero => exact sound_done sink
  | succ count ih =>
      rw [repeatMoving_succ]
      refine (each sink).andThen fun next => ?_
      split
      · exact sound_done next
      · exact ih next

end Placement

namespace Instruction

/-- An action is sound unless it is a machine instruction and encoding it is not. -/
theorem sound_act (encodes : ∀ sink : σ, (Sink.instruction sink instruction).Sound) (sink : σ) :
    (instruction.act sink).Sound := by
  unfold act
  split
  · exact encodes sink
  · exact Placement.sound_seek instruction sink
  · exact Placement.sound_insert instruction _ sink
  · split <;> exact sound_stopped _ _

/-- Placing an instruction is sound if encoding its innermost instruction is. -/
theorem sound_perform (instruction : Instruction)
    (encodes : ∀ sink : σ, (Sink.instruction sink instruction.innermost).Sound) (sink : σ) :
    (instruction.perform sink).Sound := by
  induction instruction using tower_induction generalizing sink with
  | single instruction single =>
      rw [innermost_of_single single] at encodes
      rw [perform_of_single single]
      exact (sound_act encodes sink).andThen (Placement.sound_checkLimit instruction)
  | nested instruction count inner nested ih =>
      rw [innermost_of_repeats nested] at encodes
      rw [perform_of_repeats nested]
      exact (Placement.sound_repeatMoving (ih encodes) count sink).andThen
        (Placement.sound_checkLimit instruction)

end Instruction

end

/-! ## The passes -/

namespace Binder

theorem sound_bind (binder : Binder) (label : Label) : (binder.bind label).Sound := by
  unfold bind
  split
  · exact sound_done _
  · exact sound_stopped _ _

theorem sound_count (binder : Binder) (instruction : Instruction) :
    (binder.count instruction).Sound :=
  (instruction.sound_perform (fun _ => sound_done _) binder.counter).map _

theorem sound_step (binder : Binder) (statement : Statement) : (binder.step statement).Sound := by
  match statement with
  | .label mark => exact binder.sound_bind mark
  | .instruction none body => exact binder.sound_count body
  | .instruction (some mark) body =>
      exact (binder.sound_bind mark).andThen fun bound => bound.sound_count body

end Binder

variable {table : OpcodeTable} {statements : List Statement}

/-- The first pass asserts nothing. -/
theorem sound_bindSymbols (statements : List Statement) : (bindSymbols statements).Sound :=
  sound_run Binder.sound_step {} statements

/-- The only assertion that can fail is that of the encoder, for the innermost instruction of a
statement. -/
theorem exists_encode_eq_assertion (failed : assemble table statements = .error .assertion) :
    ∃ binder mark body, bindSymbols statements = done binder ∧
      .instruction mark body ∈ statements ∧
      table.encode binder.symbols body.innermost = .error .assertion := by
  rw [assemble, Passes.run] at failed
  cases bound : bindSymbols statements with
  | stopped binder halt =>
      have sound := sound_bindSymbols statements
      rw [bound] at failed sound
      obtain rfl : halt = .assertion := Except.error.inj failed
      exact absurd rfl sound
  | done binder =>
      rw [bound] at failed
      cases written : writeImage table binder.symbols binder.counter.offset statements with
      | stopped writer halt =>
          simp only [done, written, stopped, Passes.result, Except.error.injEq] at failed
          subst failed
          obtain ⟨before, statement, after, -, split, -, mark, body, rfl, -, reason, encoded,
            same⟩ := writeImage_stops bound written
          cases reason with
          | fault fault => cases same
          | assertion =>
              exact ⟨binder, mark, body, rfl, by simp [split], encoded⟩
      | done writer =>
          simp [done, written, Passes.result, cursor_eq_of_writeImage bound written] at failed

/-- A table whose words all have their fixed bits assembles without a failed assertion. -/
theorem assemble_ne_assertion
    (asserted : ∀ symbols instruction, table.encode symbols instruction ≠ .error .assertion) :
    assemble table statements ≠ .error .assertion := by
  intro failed
  obtain ⟨binder, mark, body, -, -, encoded⟩ := exists_encode_eq_assertion failed
  exact asserted binder.symbols body.innermost encoded

end ChipAsm
