/-
# The nesting of repetitions

A `DUP` repeats an instruction that may itself be a `DUP`, so an instruction is a
tower of repetitions around one innermost instruction that acts on the sink. This
module gives the tower its own vocabulary: what an instruction repeats, what it does
when it repeats nothing, and the single equation by which placing an instruction
follows that structure. Statements about all instructions are then proved along the
tower, and nothing after this module looks into the arguments of a `DUP` again.

A malformed `DUP` repeats nothing; it acts by stopping.
-/

import ChipAsm.Placement
import ChipAsm.Proofs.Outcome

namespace ChipAsm

open Outcome

variable {σ : Type} [Sink σ]

namespace Instruction

/-- The instruction that a repetition spells out in its arguments. It is blamed at the
place of the repetition. -/
def repeated (outer : Instruction) (mnemonic : String) (arguments : List String) : Instruction :=
  { mnemonic := Text.upper mnemonic, arguments, place := outer.place }

/-- How often a well-formed repetition repeats, and what. -/
def repeats? (instruction : Instruction) : Option (Nat × Instruction) :=
  match Directive.ofMnemonic? instruction.mnemonic, instruction.arguments with
  | some .repetition, times :: inner :: rest =>
      (Text.natural? times).map fun count => (count, instruction.repeated inner rest)
  | _, _ => none

/-- What an instruction that repeats nothing does to a sink, before the limit of the
address space is checked. -/
def act (instruction : Instruction) (sink : σ) : Outcome (Halt Diagnostic) σ :=
  match Directive.ofMnemonic? instruction.mnemonic with
  | none => Sink.instruction sink instruction
  | some .seek => Placement.seek instruction sink
  | some (.data kind) => Placement.insert instruction kind sink
  | some .repetition =>
      match instruction.arguments with
      | _ :: _ :: _ => .stopped sink (.fault (instruction.malformed .timesNotNatural))
      | _ => .stopped sink (.fault (instruction.malformed .nothingToRepeat))

/-- The instruction at the bottom of a tower that is given by its parts. -/
def bottom (source : Place) (mnemonic : String) (arguments : List String) : Instruction :=
  match arguments with
  | times :: inner :: rest =>
      if Directive.ofMnemonic? mnemonic = some .repetition ∧ (Text.natural? times).isSome then
        bottom source (Text.upper inner) rest
      else { mnemonic, arguments := times :: inner :: rest, place := source }
  | short => { mnemonic, arguments := short, place := source }

/-- The instruction at the bottom of a tower of repetitions, which is the instruction
itself if it repeats nothing. -/
def innermost (instruction : Instruction) : Instruction :=
  bottom instruction.place instruction.mnemonic instruction.arguments

/-- What is repeated has fewer arguments than the repetition. -/
theorem arguments_length_lt_of_repeats {instruction inner : Instruction} {count : Nat}
    (nested : instruction.repeats? = some (count, inner)) :
    inner.arguments.length < instruction.arguments.length := by
  unfold repeats? at nested
  split at nested
  · next times mnemonic rest _ spelled =>
      obtain ⟨value, _, pair⟩ := Option.map_eq_some_iff.mp nested
      rw [← (Prod.mk.inj pair).2, spelled]
      simp only [repeated, List.length_cons]
      omega
  · contradiction

/-- Induction along a tower of repetitions. -/
@[elab_as_elim]
theorem tower_induction {motive : Instruction → Prop}
    (single : ∀ instruction, instruction.repeats? = none → motive instruction)
    (nested : ∀ instruction count inner, instruction.repeats? = some (count, inner) →
      motive inner → motive instruction)
    (instruction : Instruction) : motive instruction := by
  generalize size : instruction.arguments.length = length
  induction length using Nat.strongRecOn generalizing instruction with
  | ind length ih =>
      cases shape : instruction.repeats? with
      | none => exact single instruction shape
      | some pair =>
          obtain ⟨count, inner⟩ := pair
          have smaller := arguments_length_lt_of_repeats shape
          exact nested instruction count inner shape
            (ih inner.arguments.length (size ▸ smaller) inner rfl)

theorem innermost_of_repeats {instruction inner : Instruction} {count : Nat}
    (nested : instruction.repeats? = some (count, inner)) :
    instruction.innermost = inner.innermost := by
  obtain ⟨mnemonic, arguments, source⟩ := instruction
  unfold repeats? at nested
  split at nested
  · next times first rest directive spelled =>
      obtain ⟨value, natural, pair⟩ := Option.map_eq_some_iff.mp nested
      rw [← (Prod.mk.inj pair).2]
      simp only at directive spelled
      subst spelled
      simp only [innermost, bottom, repeated, directive, natural, Option.isSome_some, and_self,
        if_true]
  · contradiction

theorem innermost_of_single {instruction : Instruction}
    (single : instruction.repeats? = none) : instruction.innermost = instruction := by
  obtain ⟨mnemonic, arguments, source⟩ := instruction
  match arguments with
  | [] => rfl
  | [_] => rfl
  | times :: first :: rest =>
      simp only [innermost, bottom]
      rw [if_neg]
      rintro ⟨directive, natural⟩
      obtain ⟨value, natural⟩ := Option.isSome_iff_exists.mp natural
      simp [repeats?, directive, natural] at single

/-- Placing an instruction follows its structure: it repeats what it repeats or acts by
itself, and then has to be inside the address space. -/
theorem perform_eq (instruction : Instruction) (sink : σ) :
    instruction.perform sink =
      (match instruction.repeats? with
        | some (count, inner) => Placement.repeatMoving inner.perform count sink
        | none => instruction.act sink).andThen (Placement.checkLimit instruction) := by
  obtain ⟨mnemonic, arguments, source⟩ := instruction
  rw [perform, Placement.place.eq_def]
  cases directive : Directive.ofMnemonic? mnemonic with
  | none => simp only [repeats?, act, directive]
  | some kind =>
      cases kind with
      | seek => simp only [repeats?, act, directive]
      | data kind => simp only [repeats?, act, directive]
      | repetition =>
          match arguments with
          | [] => simp only [repeats?, act, directive]
          | [_] => simp only [repeats?, act, directive]
          | times :: first :: rest =>
              cases natural : Text.natural? times with
              | none => simp only [repeats?, act, directive, natural, Option.map_none]
              | some count =>
                  simp only [repeats?, directive, natural, Option.map_some]
                  rfl

theorem perform_of_repeats {instruction inner : Instruction} {count : Nat}
    (nested : instruction.repeats? = some (count, inner)) (sink : σ) :
    instruction.perform sink =
      (Placement.repeatMoving inner.perform count sink).andThen
        (Placement.checkLimit instruction) := by
  rw [perform_eq, nested]

theorem perform_of_single {instruction : Instruction} (single : instruction.repeats? = none)
    (sink : σ) :
    instruction.perform sink =
      (instruction.act sink).andThen (Placement.checkLimit instruction) := by
  rw [perform_eq, single]

end Instruction

/-- Places instructions one after the other, up to the first that stops. -/
def performAll (sink : σ) (instructions : List Instruction) : Outcome (Halt Diagnostic) σ :=
  Outcome.run (fun sink instruction => instruction.perform sink) sink instructions

namespace Placement

/-- The limit check changes nothing; it only stops output that has left the address
space. -/
theorem checkLimit_eq_done_iff {instruction : Instruction} {sink last : σ} :
    checkLimit instruction sink = done last ↔ sink = last ∧ Sink.position sink ≤ imageLimit := by
  unfold checkLimit
  by_cases outside : imageLimit < Sink.position sink
  · rw [if_pos outside]
    simp only [stopped_ne_done, false_iff]
    rintro ⟨-, inside⟩
    exact absurd inside (Nat.not_le.mpr outside)
  · rw [if_neg outside, done_inj]
    exact ⟨fun same => ⟨same, Nat.not_lt.mp outside⟩, And.left⟩

theorem checkLimit_of_le {instruction : Instruction} {sink : σ}
    (inside : Sink.position sink ≤ imageLimit) : checkLimit instruction sink = done sink :=
  checkLimit_eq_done_iff.mpr ⟨rfl, inside⟩

variable {step : σ → Outcome (Halt Diagnostic) σ}

@[simp]
theorem repeatMoving_zero (sink : σ) : repeatMoving step 0 sink = done sink := rfl

/-- One more repetition: the step has to go through, and unless it moves the sink it is
the last. -/
theorem repeatMoving_succ (count : Nat) (sink : σ) :
    repeatMoving step (count + 1) sink =
      (step sink).andThen fun next =>
        if Sink.position next = Sink.position sink then done next
        else repeatMoving step count next := by
  rw [repeatMoving]
  cases step sink with
  | done next => rfl
  | stopped last diagnostic => rfl

/-- Every relation that holds of one step and can be chained holds of all repetitions
together. -/
theorem repeatMoving_induction (related : σ → σ → Prop) (refl : ∀ sink, related sink sink)
    (trans : ∀ first second third, related first second → related second third →
      related first third)
    (stepped : ∀ sink next, step sink = done next → related sink next)
    {count : Nat} {sink last : σ} (through : repeatMoving step count sink = done last) :
    related sink last := by
  induction count generalizing sink with
  | zero =>
      rw [repeatMoving_zero, done_inj] at through
      exact through ▸ refl sink
  | succ count ih =>
      rw [repeatMoving_succ] at through
      obtain ⟨next, first, rest⟩ := andThen_eq_done_iff.mp through
      by_cases still : Sink.position next = Sink.position sink
      · rw [if_pos still, done_inj] at rest
        exact rest ▸ stepped sink next first
      · rw [if_neg still] at rest
        exact trans sink next last (stepped sink next first) (ih rest)

end Placement

namespace Instruction

/-- Placing an instruction is a chain of actions of its innermost instruction. So every
relation that holds of one such action and can be chained holds of the whole. -/
theorem perform_induction (related : σ → σ → Prop) (refl : ∀ sink, related sink sink)
    (trans : ∀ first second third, related first second → related second third →
      related first third) (instruction : Instruction)
    (acted : ∀ sink next, instruction.innermost.act sink = done next →
      Sink.position next ≤ imageLimit → related sink next)
    {sink last : σ} (through : instruction.perform sink = done last) : related sink last := by
  induction instruction using tower_induction generalizing sink last with
  | single instruction single =>
      rw [innermost_of_single single] at acted
      rw [perform_of_single single] at through
      obtain ⟨middle, action, checked⟩ := andThen_eq_done_iff.mp through
      obtain ⟨rfl, inside⟩ := Placement.checkLimit_eq_done_iff.mp checked
      exact acted sink middle action inside
  | nested instruction count inner nested ih =>
      rw [innermost_of_repeats nested] at acted
      rw [perform_of_repeats nested] at through
      obtain ⟨middle, repeated, checked⟩ := andThen_eq_done_iff.mp through
      obtain ⟨rfl, -⟩ := Placement.checkLimit_eq_done_iff.mp checked
      exact Placement.repeatMoving_induction related refl trans
        (fun _ _ stepped => ih acted stepped) repeated

/-- Output that was placed ends inside the address space. -/
theorem position_le_imageLimit {instruction : Instruction} {sink last : σ}
    (through : instruction.perform sink = done last) : Sink.position last ≤ imageLimit := by
  rw [perform_eq] at through
  obtain ⟨middle, -, checked⟩ := andThen_eq_done_iff.mp through
  obtain ⟨rfl, inside⟩ := Placement.checkLimit_eq_done_iff.mp checked
  exact inside

end Instruction

end ChipAsm
