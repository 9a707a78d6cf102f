/-
# Substitution of instructions

A machine instruction may be replaced by another one that has the same word, also inside
repetitions, and the assembly stays the same but for the text of its listing. The first
pass does not look at machine instructions at all, so it binds the same labels; the second
pass writes the same words.

The replacement needs to have the word only with the labels of the finished assembly, and
only if the original has one.
-/

import ChipAsm.Proofs.Assembly.Agreement
import ChipAsm.Proofs.Placement.Correspondence

namespace ChipAsm

open Outcome

/-- The second instruction can stand for the first: it is the same, or both are machine
instructions and the second has the word of the first. -/
def Instruction.StandsFor (table : OpcodeTable) (symbols : SymbolTable)
    (first second : Instruction) : Prop :=
  first = second ∨
    (Directive.ofMnemonic? first.mnemonic = none ∧ Directive.ofMnemonic? second.mnemonic = none ∧
      ∀ word, table.encode symbols first = .ok word → table.encode symbols second = .ok word)

/-- Statements with the same label and corresponding instructions. -/
inductive Statement.Corresponds (alike : Instruction → Instruction → Prop) :
    Statement → Statement → Prop
  | label (mark : Label) : Corresponds alike (.label mark) (.label mark)
  | instruction (mark : Option Label) {body other : Instruction}
      (bodies : ChipAsm.Corresponds alike body other) :
      Corresponds alike (.instruction mark body) (.instruction mark other)

theorem Statement.Corresponds.refl {alike : Instruction → Instruction → Prop}
    (same : ∀ instruction, alike instruction instruction) (statement : Statement) :
    statement.Corresponds alike statement := by
  cases statement with
  | label mark => exact .label mark
  | instruction mark body => exact .instruction mark (.refl body (same _))

section

variable {table : OpcodeTable} {symbols : SymbolTable}

/-- The counter counts a word for every machine instruction. -/
theorem Instruction.StandsFor.act_counter {first second : Instruction}
    (stands : first.StandsFor table symbols second) {counter next : Counter}
    (action : first.act counter = done next) : second.act counter = done next := by
  rcases stands with rfl | ⟨ordinary, otherOrdinary, -⟩
  · exact action
  · simp only [act, ordinary] at action
    simp only [act, otherOrdinary]
    exact action

/-- The first pass takes a step alike for corresponding statements. -/
theorem Binder.step_of_corresponds {statement other : Statement}
    (corresponds : statement.Corresponds (Instruction.StandsFor table symbols) other)
    {binder next : Binder} (stepped : binder.step statement = done next) :
    binder.step other = done next := by
  cases corresponds with
  | label mark => exact stepped
  | @instruction mark body other bodies =>
      have counted : ∀ {binder next : Binder}, binder.count body = done next →
          binder.count other = done next := by
        intro binder next placed
        obtain ⟨counter, performed, rfl⟩ := map_eq_done_iff.mp placed
        have acted : ∀ first second, Instruction.StandsFor table symbols first second →
            ∀ sink next counter : Counter, sink = counter → first.act sink = done next →
            ∃ following, second.act counter = done following ∧ next = following := by
          intro first second stands sink next counter same action
          exact ⟨next, same ▸ stands.act_counter action, rfl⟩
        obtain ⟨_, again, rfl⟩ := bodies.perform_related Eq (fun _ _ => congrArg Sink.position)
          acted rfl performed
        exact map_eq_done_iff.mpr ⟨counter, again, rfl⟩
      cases mark with
      | none => exact counted stepped
      | some label =>
          obtain ⟨bound, binding, placed⟩ := andThen_eq_done_iff.mp stepped
          exact andThen_eq_done_iff.mpr ⟨bound, binding, counted placed⟩

/-- The second output is the first one, up to the record of words. Both encode with the given
labels. -/
structure Output.Matches (table : OpcodeTable) (symbols : SymbolTable) (output other : Output) :
    Prop where
  table : output.table = table
  symbols : output.symbols = symbols
  same : ∃ words, other = { output with words }

theorem Output.Matches.position {output other : Output}
    (matching : output.Matches table symbols other) :
    Sink.position output = Sink.position other := by
  obtain ⟨words, rfl⟩ := matching.same
  rfl

/-- Instructions that stand for each other act alike on matching outputs. -/
theorem Instruction.StandsFor.act_output {first second : Instruction}
    (stands : first.StandsFor table symbols second) {output next other : Output}
    (matching : output.Matches table symbols other) (action : first.act output = done next) :
    ∃ following, second.act other = done following ∧ next.Matches table symbols following := by
  obtain ⟨knownTable, knownSymbols, words, rfl⟩ := matching
  rcases act_cases action with ⟨ordinary, accepted⟩ | ⟨directive, target, named, near, ahead, rfl⟩ |
    ⟨kind, directive, bytes, data, accepted⟩
  · obtain ⟨word, encoded, fits, rfl⟩ := Output.instruction_eq_done_iff.mp accepted
    have both : Directive.ofMnemonic? second.mnemonic = none ∧
        output.table.encode output.symbols second = .ok word := by
      rcases stands with rfl | ⟨-, otherOrdinary, keeps⟩
      · exact ⟨ordinary, encoded⟩
      · rw [knownTable, knownSymbols] at encoded ⊢
        exact ⟨otherOrdinary, keeps word encoded⟩
    simp only [act, both.1]
    exact ⟨_, Output.instruction_eq_done_iff.mpr ⟨word, both.2, fits, rfl⟩,
      knownTable, knownSymbols, _, rfl⟩
  · rcases stands with rfl | ⟨ordinary, -⟩
    · simp only [act, directive]
      exact ⟨_, Placement.seek_eq_done_iff.mpr ⟨target, named, near, ahead, rfl⟩,
        knownTable, knownSymbols, words, rfl⟩
    · exact absurd (ordinary.symm.trans directive) (by simp)
  · rcases stands with rfl | ⟨ordinary, -⟩
    · obtain ⟨fits, rfl⟩ := Output.emit_eq_done_iff.mp accepted
      simp only [act, directive]
      exact ⟨_, Placement.insert_eq_done_iff.mpr
        ⟨bytes, data, Output.emit_eq_done_iff.mpr ⟨fits, rfl⟩⟩,
        knownTable, knownSymbols, words, rfl⟩
    · exact absurd (ordinary.symm.trans directive) (by simp)

/-- Corresponding statements are placed alike on matching outputs. -/
theorem Statement.Corresponds.perform_output {statement other : Statement}
    (corresponds : statement.Corresponds (Instruction.StandsFor table symbols) other)
    {output last counterpart : Output} (matching : output.Matches table symbols counterpart)
    (through : statement.perform output = done last) :
    ∃ final, other.perform counterpart = done final ∧ last.Matches table symbols final := by
  cases corresponds with
  | label mark => exact ⟨counterpart, rfl, done_inj.mp through ▸ matching⟩
  | instruction mark bodies =>
      exact bodies.perform_related (Output.Matches table symbols)
        (fun _ _ => Output.Matches.position) (fun _ _ stands _ _ _ => stands.act_output)
        matching through

end

/-- Where an entry stands and what it shows, apart from the text of the statement. -/
def ListingEntry.content (entry : ListingEntry) : Nat × Array UInt8 :=
  (entry.address, entry.bytes)

/-- The second writer is at the same point as the first, up to the record of words and the
texts of the listing. -/
structure Writer.Matches (table : OpcodeTable) (symbols : SymbolTable) (writer other : Writer) :
    Prop where
  output : writer.output.Matches table symbols other.output
  listing : writer.listing.map ListingEntry.content = other.listing.map ListingEntry.content

section

variable {table : OpcodeTable} {symbols : SymbolTable}

/-- The second pass takes a step alike for corresponding statements. -/
theorem Writer.Matches.step {statement counterpart : Statement}
    (corresponds : statement.Corresponds (Instruction.StandsFor table symbols) counterpart)
    {writer next other : Writer} (matching : writer.Matches table symbols other)
    (stepped : writer.step statement = done next) :
    ∃ following, other.step counterpart = done following ∧
      next.Matches table symbols following := by
  rw [step_eq] at stepped
  obtain ⟨middle, placed, listed⟩ := andThen_eq_done_iff.mp stepped
  obtain ⟨last, performed, rfl⟩ := map_eq_done_iff.mp placed
  obtain rfl := done_inj.mp listed
  have begun : writer.output.begin.Matches table symbols other.output.begin := by
    obtain ⟨knownTable, knownSymbols, words, same⟩ := matching.output
    exact ⟨knownTable, knownSymbols, words, by rw [same]; rfl⟩
  obtain ⟨final, followed, knownTable, knownSymbols, words, rfl⟩ :=
    corresponds.perform_output begun performed
  refine ⟨_, by rw [step_eq, followed, map_done, done_andThen],
    ⟨knownTable, knownSymbols, words, rfl⟩, ?_⟩
  simp only [Writer.list, Output.record, Array.map_push, matching.listing]
  rfl

/-- Statements that correspond to those of an assembly assemble to the same image, with the
same labels and the same addresses and bytes in the listing. -/
theorem assemble_of_corresponds {statements others : List Statement} {assembly : Assembly}
    (assembled : assemble table statements = .ok assembly)
    (corresponds : List.Forall₂
      (Statement.Corresponds (Instruction.StandsFor table assembly.symbols)) statements others) :
    ∃ other, assemble table others = .ok other ∧ other.image = assembly.image ∧
      other.symbols = assembly.symbols ∧
      other.listing.map ListingEntry.content = assembly.listing.map ListingEntry.content := by
  obtain ⟨binder, writer, bound, written, rfl⟩ := assemble_eq_ok_iff.mp assembled
  have rebound : bindSymbols others = done binder := by
    have stepped : ∀ (state next counterpart : Binder) (item partner : Statement),
        state = counterpart →
        item.Corresponds (Instruction.StandsFor table binder.symbols) partner →
        state.step item = done next →
        ∃ following, counterpart.step partner = done following ∧ next = following := by
      intro state next counterpart item partner same paired moved
      exact ⟨next, same ▸ Binder.step_of_corresponds paired moved, rfl⟩
    obtain ⟨_, through, rfl⟩ := run_related Eq stepped corresponds rfl bound
    exact through
  have start (size : Nat) : Writer.Matches table binder.symbols
      { output := Output.ofSize table binder.symbols size }
      { output := Output.ofSize table binder.symbols size } := ⟨⟨rfl, rfl, #[], rfl⟩, rfl⟩
  have stepped : ∀ (state next counterpart : Writer) (item partner : Statement),
      state.Matches table binder.symbols counterpart →
      item.Corresponds (Instruction.StandsFor table binder.symbols) partner →
      state.step item = done next →
      ∃ following, counterpart.step partner = done following ∧
        next.Matches table binder.symbols following :=
    fun _ _ _ _ _ matching paired => matching.step paired
  obtain ⟨final, rewritten, matching⟩ := run_related (Writer.Matches table binder.symbols) stepped
    corresponds (start _) written
  refine ⟨_, assemble_eq_ok_iff.mpr ⟨binder, final, rebound, rewritten, rfl⟩, ?_, rfl, ?_⟩
  · obtain ⟨words, same⟩ := matching.output.same
    rw [same]
  · have listed := congrArg Array.toList matching.listing
    rw [Array.toList_map, Array.toList_map] at listed
    exact listed.symm

end

end ChipAsm
