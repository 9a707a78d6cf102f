/-
# Movement of sinks

A sink is free in what it remembers, but not in how it moves: it goes where it is
sent, and whatever it accepts advances it by the length of what was inserted. Under
these laws placing an instruction never moves a sink backwards. The two sinks of the
assembler obey them; nothing is said about a step that stops.

The second part compares two sinks that are driven by the same instruction. It is
enough that they stay in step for one action of the innermost instruction, and the
comparison only has to be made for actions that end below a bound which the finished
placement respects, because no action in between can have gone further. The second
sink may stop where the first goes on, provided that it has an excuse.
-/

import ChipAsm.Proofs.Placement.Nesting

namespace ChipAsm

open Outcome

/-- The laws of movement that a sink obeys when it accepts what it is given. -/
class LawfulSink (σ : Type) [Sink σ] : Prop where
  position_seek (sink : σ) (target : Nat) : Sink.position (Sink.seek sink target) = target
  position_emit {sink next : σ} {bytes : List UInt8} : Sink.emit sink bytes = done next →
    Sink.position next = Sink.position sink + bytes.length
  position_instruction {sink next : σ} {instruction : Instruction} :
    Sink.instruction sink instruction = done next →
    Sink.position next = Sink.position sink + wordSize

instance : LawfulSink Counter where
  position_seek _ _ := rfl
  position_emit accepted := by
    rw [← done_inj.mp accepted]
    rfl
  position_instruction accepted := by
    rw [← done_inj.mp accepted]
    rfl

/-- The target that a `SEEK` names. -/
def Instruction.target? (instruction : Instruction) : Option Nat :=
  match instruction.arguments with
  | [argument] => Text.natural? argument
  | _ => none

namespace Placement

variable {σ : Type} [Sink σ]

/-- A `SEEK` that goes through sends the sink to its target, which lies neither behind
the sink nor past the address space. -/
theorem seek_eq_done_iff {instruction : Instruction} {sink last : σ} :
    seek instruction sink = done last ↔
      ∃ target, instruction.target? = some target ∧ target ≤ imageLimit ∧
        Sink.position sink ≤ target ∧ Sink.seek sink target = last := by
  obtain ⟨mnemonic, arguments, source⟩ := instruction
  match arguments with
  | [] => simp [seek, Instruction.target?]
  | _ :: _ :: _ => simp [seek, Instruction.target?]
  | [argument] =>
      cases natural : Text.natural? argument with
      | none => simp [seek, Instruction.target?, natural]
      | some target =>
          by_cases far : imageLimit < target
          · simp [seek, Instruction.target?, natural, far, Nat.not_le.mpr far]
          · by_cases behind : target < Sink.position sink
            · simp [seek, Instruction.target?, natural, far, behind, Nat.not_le.mpr behind]
            · simp [seek, Instruction.target?, natural, far, behind, Nat.not_lt.mp far,
                Nat.not_lt.mp behind]

/-- A data directive that goes through has bytes, and the sink accepts them. -/
theorem insert_eq_done_iff {instruction : Instruction} {kind : DataKind} {sink last : σ} :
    insert instruction kind sink = done last ↔
      ∃ bytes, instruction.bytesOf kind = .ok bytes ∧ Sink.emit sink bytes = done last := by
  unfold insert
  cases instruction.bytesOf kind with
  | error diagnostic => simp
  | ok bytes => simp [explain_eq_done_iff]

end Placement

namespace Instruction

/-- Everything that an instruction which repeats nothing can do to a sink. -/
theorem act_cases {σ : Type} [Sink σ] {instruction : Instruction} {sink next : σ}
    (action : instruction.act sink = done next) :
    (Directive.ofMnemonic? instruction.mnemonic = none ∧
      Sink.instruction sink instruction = done next) ∨
    (Directive.ofMnemonic? instruction.mnemonic = some .seek ∧
      ∃ target, instruction.target? = some target ∧ target ≤ imageLimit ∧
        Sink.position sink ≤ target ∧ Sink.seek sink target = next) ∨
    (∃ kind, Directive.ofMnemonic? instruction.mnemonic = some (.data kind) ∧
      ∃ bytes, instruction.bytesOf kind = .ok bytes ∧ Sink.emit sink bytes = done next) := by
  unfold act at action
  split at action
  · next directive => exact .inl ⟨directive, action⟩
  · next directive => exact .inr (.inl ⟨directive, Placement.seek_eq_done_iff.mp action⟩)
  · next kind directive =>
      exact .inr (.inr ⟨kind, directive, Placement.insert_eq_done_iff.mp action⟩)
  · split at action <;> exact absurd action (stopped_ne_done _ _ _)

variable {σ : Type} [Sink σ] [LawfulSink σ]

/-- An action never moves a sink backwards. -/
theorem position_le_of_act {instruction : Instruction} {sink next : σ}
    (action : instruction.act sink = done next) : Sink.position sink ≤ Sink.position next := by
  rcases act_cases action with ⟨-, accepted⟩ | ⟨-, target, -, -, ahead, rfl⟩ |
    ⟨kind, -, bytes, -, accepted⟩
  · rw [LawfulSink.position_instruction accepted]
    exact Nat.le_add_right _ _
  · rwa [LawfulSink.position_seek]
  · rw [LawfulSink.position_emit accepted]
    exact Nat.le_add_right _ _

/-- Placing an instruction never moves a sink backwards. -/
theorem position_le_of_perform {instruction : Instruction} {sink last : σ}
    (through : instruction.perform sink = done last) :
    Sink.position sink ≤ Sink.position last :=
  perform_induction (fun sink next => Sink.position sink ≤ Sink.position next)
    (fun _ => Nat.le_refl _) (fun _ _ _ => Nat.le_trans) instruction
    (fun _ _ action _ => position_le_of_act action) through

end Instruction

/-- Repetitions never move a sink backwards. -/
theorem Placement.position_le_of_repeatMoving {σ : Type} [Sink σ] [LawfulSink σ]
    {instruction : Instruction} {count : Nat} {sink last : σ}
    (through : repeatMoving instruction.perform count sink = done last) :
    Sink.position sink ≤ Sink.position last :=
  repeatMoving_induction (fun sink next => Sink.position sink ≤ Sink.position next)
    (fun _ => Nat.le_refl _) (fun _ _ _ => Nat.le_trans)
    (fun _ _ => Instruction.position_le_of_perform) through

/-! ## Two sinks in step -/

/-- The outcome of a second sink, compared with the state that a first sink reached: it
went through to a related state, or it stopped with an excuse. -/
def Follows {σ τ : Type} (related : σ → τ → Prop) (excuse : Halt Diagnostic → Prop) (reached : σ)
    (outcome : Outcome (Halt Diagnostic) τ) : Prop :=
  (∃ other, outcome = done other ∧ related reached other) ∨
    ∃ other diagnostic, outcome = stopped other diagnostic ∧ excuse diagnostic

section Simulation

variable {σ τ : Type} [Sink σ] [Sink τ] [LawfulSink σ] {related : σ → τ → Prop}
  {excuse : Halt Diagnostic → Prop} {bound : Nat}

/-- Repetitions keep two sinks in step if the repeated step does. -/
theorem Placement.repeatMoving_follows {instruction : Instruction}
    (aligned : ∀ sink other, related sink other → Sink.position sink = Sink.position other)
    (followed : ∀ {sink next : σ} {other : τ}, related sink other →
      instruction.perform sink = done next → Sink.position next ≤ bound →
      Follows related excuse next (instruction.perform other))
    {count : Nat} {sink last : σ} {other : τ} (start : related sink other)
    (through : repeatMoving instruction.perform count sink = done last)
    (fits : Sink.position last ≤ bound) :
    Follows related excuse last (repeatMoving instruction.perform count other) := by
  induction count generalizing sink other with
  | zero =>
      rw [repeatMoving_zero, done_inj] at through
      exact .inl ⟨other, rfl, through ▸ start⟩
  | succ count ih =>
      rw [repeatMoving_succ] at through
      obtain ⟨next, first, rest⟩ := andThen_eq_done_iff.mp through
      -- The bound is known at the end; forward movement carries it back to this step.
      have nextFits : Sink.position next ≤ bound := by
        refine Nat.le_trans ?_ fits
        by_cases still : Sink.position next = Sink.position sink
        · rw [if_pos still, done_inj] at rest
          exact Nat.le_of_eq (congrArg Sink.position rest)
        · rw [if_neg still] at rest
          exact position_le_of_repeatMoving rest
      rw [repeatMoving_succ]
      rcases followed start first nextFits with ⟨second, stepped, kept⟩ |
        ⟨second, diagnostic, halted, excused⟩
      · rw [stepped, done_andThen, ← aligned next second kept, ← aligned sink other start]
        by_cases still : Sink.position next = Sink.position sink
        · rw [if_pos still, done_inj] at rest
          rw [if_pos still]
          exact .inl ⟨second, rfl, rest ▸ kept⟩
        · rw [if_neg still] at rest
          rw [if_neg still]
          exact ih kept rest
      · rw [halted, stopped_andThen]
        exact .inr ⟨second, diagnostic, rfl, excused⟩

omit [LawfulSink σ] in
/-- Sinks in step pass the limit check alike, since they stand at the same offset. -/
theorem Follows.checkLimit
    (aligned : ∀ sink other, related sink other → Sink.position sink = Sink.position other)
    {instruction : Instruction} {middle last : σ} {outcome : Outcome (Halt Diagnostic) τ}
    (followed : Follows related excuse middle outcome)
    (checked : Placement.checkLimit instruction middle = done last) :
    Follows related excuse last (outcome.andThen (Placement.checkLimit instruction)) := by
  obtain ⟨rfl, inside⟩ := Placement.checkLimit_eq_done_iff.mp checked
  rcases followed with ⟨other, rfl, kept⟩ | ⟨other, diagnostic, rfl, excused⟩
  · rw [done_andThen, Placement.checkLimit_of_le (aligned middle other kept ▸ inside)]
    exact .inl ⟨other, rfl, kept⟩
  · exact .inr ⟨other, diagnostic, rfl, excused⟩

/-- A sink follows another through the placement of an instruction if it follows it
through every action of the innermost instruction. -/
theorem Instruction.perform_follows (instruction : Instruction)
    (aligned : ∀ sink other, related sink other → Sink.position sink = Sink.position other)
    (acted : ∀ sink next other, related sink other → instruction.innermost.act sink = done next →
      Sink.position next ≤ bound → Follows related excuse next (instruction.innermost.act other))
    {sink last : σ} {other : τ} (start : related sink other)
    (through : instruction.perform sink = done last) (fits : Sink.position last ≤ bound) :
    Follows related excuse last (instruction.perform other) := by
  induction instruction using tower_induction generalizing sink last other with
  | single instruction single =>
      rw [innermost_of_single single] at acted
      rw [perform_of_single single] at through ⊢
      obtain ⟨middle, action, checked⟩ := andThen_eq_done_iff.mp through
      have same := (Placement.checkLimit_eq_done_iff.mp checked).1
      exact (acted sink middle other start action (same ▸ fits)).checkLimit aligned checked
  | nested instruction count inner nested ih =>
      rw [innermost_of_repeats nested] at acted
      rw [perform_of_repeats nested] at through ⊢
      obtain ⟨middle, repeated, checked⟩ := andThen_eq_done_iff.mp through
      have same := (Placement.checkLimit_eq_done_iff.mp checked).1
      have followed := Placement.repeatMoving_follows aligned (ih acted) start repeated
        (same ▸ fits)
      exact followed.checkLimit aligned checked

end Simulation

end ChipAsm
