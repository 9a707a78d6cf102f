/-
# Corresponding instructions

Two instructions correspond if they repeat alike, down to innermost instructions that are
alike in some given sense. If alike instructions act alike on related sinks, placing
corresponding instructions keeps the sinks related. The comparison goes one way: nothing is
said about what the second instruction does where the first one stops.

Every instruction corresponds to itself, so the same lemma compares two sinks that are
driven by one instruction. It also corresponds to the instruction that has an argument at
the bottom of its tower replaced.
-/

import ChipAsm.Proofs.Placement.Nesting

namespace ChipAsm

open Outcome

/-- The instructions repeat equally often at every level of their towers, and at the bottom
they are alike. -/
inductive Corresponds (alike : Instruction → Instruction → Prop) :
    Instruction → Instruction → Prop
  | single {first second : Instruction} (firstSingle : first.repeats? = none)
      (secondSingle : second.repeats? = none) (same : alike first second) :
      Corresponds alike first second
  | nested {first second firstInner secondInner : Instruction} {count : Nat}
      (firstNested : first.repeats? = some (count, firstInner))
      (secondNested : second.repeats? = some (count, secondInner))
      (inside : Corresponds alike firstInner secondInner) : Corresponds alike first second

/-- An instruction corresponds to itself if its innermost instruction is alike to itself. -/
theorem Corresponds.refl {alike : Instruction → Instruction → Prop} (instruction : Instruction)
    (same : alike instruction.innermost instruction.innermost) :
    Corresponds alike instruction instruction := by
  induction instruction using Instruction.tower_induction with
  | single instruction single =>
      rw [Instruction.innermost_of_single single] at same
      exact .single single single same
  | nested instruction count inner nested ih =>
      rw [Instruction.innermost_of_repeats nested] at same
      exact .nested nested nested (ih same)

section

variable {σ τ : Type} [Sink σ] [Sink τ]

/-- Repetitions of steps that keep two sinks related keep them related. -/
theorem Placement.repeatMoving_related {related : σ → τ → Prop}
    {first : σ → Outcome (Halt Diagnostic) σ} {second : τ → Outcome (Halt Diagnostic) τ}
    (aligned : ∀ sink other, related sink other → Sink.position sink = Sink.position other)
    (stepped : ∀ sink next other, related sink other → first sink = done next →
      ∃ following, second other = done following ∧ related next following)
    {count : Nat} {sink last : σ} {other : τ} (start : related sink other)
    (through : repeatMoving first count sink = done last) :
    ∃ final, repeatMoving second count other = done final ∧ related last final := by
  induction count generalizing sink other with
  | zero =>
      rw [repeatMoving_zero, done_inj] at through
      exact ⟨other, rfl, through ▸ start⟩
  | succ count ih =>
      rw [repeatMoving_succ] at through
      obtain ⟨next, moved, rest⟩ := andThen_eq_done_iff.mp through
      obtain ⟨following, followed, kept⟩ := stepped sink next other start moved
      rw [repeatMoving_succ, followed, done_andThen, ← aligned next following kept,
        ← aligned sink other start]
      by_cases still : Sink.position next = Sink.position sink
      · rw [if_pos still, done_inj] at rest
        rw [if_pos still]
        exact ⟨following, rfl, rest ▸ kept⟩
      · rw [if_neg still] at rest
        rw [if_neg still]
        exact ih kept rest

/-- Placing corresponding instructions keeps two sinks related if acts of alike
instructions do. -/
theorem Corresponds.perform_related {alike : Instruction → Instruction → Prop}
    {first second : Instruction} (corresponds : Corresponds alike first second)
    (related : σ → τ → Prop)
    (aligned : ∀ sink other, related sink other → Sink.position sink = Sink.position other)
    (acted : ∀ first second, alike first second → ∀ (sink next : σ) (other : τ),
      related sink other → first.act sink = done next →
      ∃ following, second.act other = done following ∧ related next following)
    {sink last : σ} {other : τ} (start : related sink other)
    (through : first.perform sink = done last) :
    ∃ final, second.perform other = done final ∧ related last final := by
  induction corresponds generalizing sink last other with
  | @single first second firstSingle secondSingle same =>
      rw [Instruction.perform_of_single firstSingle] at through
      obtain ⟨middle, action, checked⟩ := andThen_eq_done_iff.mp through
      obtain ⟨rfl, inside⟩ := Placement.checkLimit_eq_done_iff.mp checked
      obtain ⟨final, followed, kept⟩ := acted first second same sink middle other start action
      refine ⟨final, ?_, kept⟩
      rw [Instruction.perform_of_single secondSingle, followed, done_andThen]
      exact Placement.checkLimit_of_le (aligned middle final kept ▸ inside)
  | @nested first second firstInner secondInner count firstNested secondNested _ ih =>
      rw [Instruction.perform_of_repeats firstNested] at through
      obtain ⟨middle, repeated, checked⟩ := andThen_eq_done_iff.mp through
      obtain ⟨rfl, inside⟩ := Placement.checkLimit_eq_done_iff.mp checked
      obtain ⟨final, followed, kept⟩ := Placement.repeatMoving_related aligned
        (fun _ _ _ => ih) start repeated
      refine ⟨final, ?_, kept⟩
      rw [Instruction.perform_of_repeats secondNested, followed, done_andThen]
      exact Placement.checkLimit_of_le (aligned middle final kept ▸ inside)

end

namespace Instruction

/-- The instruction with one argument replaced. -/
def replaceArgument (instruction : Instruction) (index : Nat) (argument : String) : Instruction :=
  { instruction with arguments := instruction.arguments.set index argument }

/-- The arguments of a tower that is given by its parts, with one argument of the
instruction at the bottom replaced. -/
def replaceBottom (mnemonic : String) (arguments : List String) (index : Nat)
    (argument : String) : List String :=
  match arguments with
  | times :: inner :: rest =>
      if Directive.ofMnemonic? mnemonic = some .repetition ∧ (Text.natural? times).isSome then
        times :: inner :: replaceBottom (Text.upper inner) rest index argument
      else (times :: inner :: rest).set index argument
  | short => short.set index argument

/-- The instruction with one argument of its innermost instruction replaced. -/
def replaceInnermost (instruction : Instruction) (index : Nat) (argument : String) :
    Instruction :=
  { instruction with
    arguments := replaceBottom instruction.mnemonic instruction.arguments index argument }

theorem replaceInnermost_of_single {instruction : Instruction}
    (single : instruction.repeats? = none) (index : Nat) (argument : String) :
    instruction.replaceInnermost index argument = instruction.replaceArgument index argument := by
  obtain ⟨mnemonic, arguments, source⟩ := instruction
  match arguments with
  | [] => rfl
  | [_] => rfl
  | times :: first :: rest =>
      simp only [replaceInnermost, replaceArgument, replaceBottom]
      rw [if_neg]
      rintro ⟨directive, natural⟩
      obtain ⟨value, natural⟩ := Option.isSome_iff_exists.mp natural
      simp [repeats?, directive, natural] at single

/-- A replacement at the bottom of a tower leaves the repetitions alone. -/
theorem repeats?_replaceInnermost {instruction inner : Instruction} {count : Nat}
    (nested : instruction.repeats? = some (count, inner)) (index : Nat) (argument : String) :
    (instruction.replaceInnermost index argument).repeats? =
      some (count, inner.replaceInnermost index argument) := by
  obtain ⟨mnemonic, arguments, source⟩ := instruction
  unfold repeats? at nested
  split at nested
  · next times first rest directive spelled =>
      obtain ⟨value, natural, pair⟩ := Option.map_eq_some_iff.mp nested
      obtain ⟨rfl, rfl⟩ := Prod.mk.inj pair
      simp only at directive spelled
      subst spelled
      simp only [replaceInnermost, replaceBottom, repeated, repeats?, directive, natural,
        Option.isSome_some, and_self, if_true, Option.map_some]
  · contradiction

/-- An instruction corresponds to itself with an argument at the bottom of its tower
replaced, provided that the bottom is a machine instruction. -/
theorem corresponds_replaceInnermost {alike : Instruction → Instruction → Prop}
    (instruction : Instruction) {index : Nat} {argument : String}
    (ordinary : Directive.ofMnemonic? instruction.innermost.mnemonic = none)
    (same : alike instruction.innermost (instruction.innermost.replaceArgument index argument)) :
    Corresponds alike instruction (instruction.replaceInnermost index argument) := by
  induction instruction using tower_induction with
  | single instruction single =>
      rw [innermost_of_single single] at ordinary same
      rw [replaceInnermost_of_single single]
      refine .single single ?_ same
      simp [repeats?, replaceArgument, ordinary]
  | nested instruction count inner nested ih =>
      rw [innermost_of_repeats nested] at ordinary same
      exact .nested nested (repeats?_replaceInnermost nested index argument) (ih ordinary same)

end Instruction

end ChipAsm
