/-
# The words of the instruction set

The opcodes of the machine can be read, and no two of them share a word. So the word of
an instruction determines the opcode and what the arguments mean.
-/

import ChipAsm.InstructionSet
import ChipAsm.Proofs.Assembly.Assertion
import ChipAsm.Proofs.Encoding.Reading

namespace ChipAsm.InstructionSet

/-- The definitions of the machine make a table, and the table is legible. -/
theorem any_legible :
    InstructionSet.table.toOption.any (fun table => decide table.Legible) = true := by
  decide +kernel

/-- The definitions of the machine are well formed. -/
theorem exists_table : ∃ table, InstructionSet.table = .ok table := by
  obtain ⟨table, given, -⟩ := (Option.any_eq_true _ _).mp any_legible
  exact ⟨table, toOption_eq_some_iff.mp given⟩

/-- The table of the machine is legible. -/
theorem legible_of_table {table : OpcodeTable} (built : InstructionSet.table = .ok table) :
    table.Legible := by
  have checked := any_legible
  rw [built] at checked
  exact of_decide_eq_true checked

/-- Assembling for the machine never fails an assertion. -/
theorem assemble_ne_assertion {table : OpcodeTable} (built : InstructionSet.table = .ok table)
    (statements : List Statement) : assemble table statements ≠ .error .assertion :=
  ChipAsm.assemble_ne_assertion (legible_of_table built).encode_ne_assertion

/-- The words of the machine never fail the assertion of the encoder. The word of an
instruction matches exactly one opcode of the machine, the one that accepted the instruction,
and the nibbles of the word have for each operand what its argument means. So instructions
with the same word have the same opcode, and their arguments mean the same. -/
theorem word_tells_instruction (table : OpcodeTable) (built : InstructionSet.table = .ok table)
    (symbols : SymbolTable) (instruction : Instruction) :
    table.encode symbols instruction ≠ .error .assertion ∧
    ∀ word, table.encode symbols instruction = .ok word →
      ∃ opcode, table.find? instruction = some opcode ∧
        table.opcodes.filter (·.matchesWord word) = [opcode] ∧
        opcode.meanings symbols instruction =
          opcode.operands.map (fun operand => some (opcode.valuesIn word operand)) ∧
        ∀ otherSymbols other, table.encode otherSymbols other = .ok word →
          table.find? other = some opcode ∧
            opcode.meanings otherSymbols other = opcode.meanings symbols instruction := by
  have legible := legible_of_table built
  refine ⟨legible.encode_ne_assertion symbols instruction, ?_⟩
  intro word encoded
  obtain ⟨opcode, found, unique, told⟩ := legible.reads_back encoded
  refine ⟨opcode, found, unique, told, ?_⟩
  intro otherSymbols other encodedOther
  obtain ⟨otherOpcode, foundOther, uniqueOther, toldOther⟩ := legible.reads_back encodedOther
  obtain rfl : otherOpcode = opcode := List.singleton_inj.mp (uniqueOther.symm.trans unique)
  exact ⟨foundOther, toldOther.trans told.symm⟩

/-- An addition of a negative byte in its short form, and of the same byte written unsigned
with all three arguments. -/
theorem word_tells_short_addition :
    let short : Instruction := ⟨"ADD", ["N1", "-1"], default⟩
    let long : Instruction := ⟨"ADD", ["N1", "N1", "0xFF"], default⟩
    ∃ table opcode, InstructionSet.table = .ok table ∧
      table.encode {} short = .ok 0x3011FF#32 ∧ table.encode {} long = .ok 0x3011FF#32 ∧
      table.opcodes.filter (·.matchesWord 0x3011FF#32) = [opcode] ∧
      table.find? long = some opcode ∧
      opcode.meanings {} long = [some [1], some [1], some [255]] := by
  intro short long
  have facts : InstructionSet.table.toOption.any (fun table =>
      decide ((table.encode {} short).toOption = some 0x3011FF#32) &&
      (decide ((table.encode {} long).toOption = some 0x3011FF#32) &&
      (table.find? short).any fun opcode =>
        decide (opcode.meanings {} short = [some [1], some [1], some [255]]))) = true := by
    decide +kernel
  obtain ⟨table, given, holds⟩ := (Option.any_eq_true _ _).mp facts
  obtain ⟨encodedShort, more⟩ := Bool.and_eq_true_iff.mp holds
  obtain ⟨encodedLong, accepted⟩ := Bool.and_eq_true_iff.mp more
  obtain ⟨opcode, found, means⟩ := (Option.any_eq_true _ _).mp accepted
  have built := toOption_eq_some_iff.mp given
  have ofShort := toOption_eq_some_iff.mp (of_decide_eq_true encodedShort)
  have ofLong := toOption_eq_some_iff.mp (of_decide_eq_true encodedLong)
  obtain ⟨same, foundShort, unique, -, others⟩ :=
    (word_tells_instruction table built {} short).2 0x3011FF#32 ofShort
  obtain rfl : same = opcode := Option.some.inj (foundShort.symm.trans found)
  obtain ⟨foundLong, sameMeaning⟩ := others {} long ofLong
  exact ⟨table, same, built, ofShort, ofLong, unique, foundLong,
    sameMeaning.trans (of_decide_eq_true means)⟩

end ChipAsm.InstructionSet
