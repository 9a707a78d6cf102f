/-
# References to labels

Writing the address of a label in place of the label changes nothing about an assembly but
the text of its listing. The addresses are those of the finished assembly, so it does not
matter whether the label comes before or after the reference.

This needs a table in which the numeral cannot be mistaken for something else. The
instruction set of the machine is such a table.
-/

import ChipAsm.InstructionSet
import ChipAsm.Proofs.Assembly.Substitution
import ChipAsm.Proofs.Encoding.Reference

namespace ChipAsm

/-- In an unconfused table, a machine instruction that refers to a label can be replaced by
one with the numeral of its address. -/
theorem Instruction.standsFor_replaceArgument {table : OpcodeTable} {symbols : SymbolTable}
    {instruction : Instruction} {opcode : Opcode} {index : Nat} {operand : Operand}
    {text argument numeral : String} {address : UInt16} (unconfused : table.Unconfused)
    (ordinary : Directive.ofMnemonic? instruction.mnemonic = none)
    (found : table.find? instruction = some opcode)
    (taken : opcode.operands[index]? = some operand)
    (given : instruction.arguments[index]? = some argument)
    (spelled : operand.spellAddress? text = some argument)
    (noNumber : Text.number? text = none) (resolves : symbols.resolve? text = some address)
    (counted : operand.spellAddress? (toString address.toNat) = some numeral) :
    instruction.StandsFor table symbols (instruction.replaceArgument index numeral) := by
  refine .inr ⟨ordinary, ordinary, ?_⟩
  intro word encoded
  exact OpcodeTable.encode_replaceArgument unconfused found taken given spelled counted noNumber
    resolves encoded

namespace InstructionSet

/-- No opcode of the machine mistakes a numeral for an immediate where another takes an
address. -/
theorem unconfused_of_table {table : OpcodeTable} (built : InstructionSet.table = .ok table) :
    table.Unconfused := by
  have checked :
      InstructionSet.table.toOption.any (fun table => decide table.Unconfused) = true := by
    decide +kernel
  rw [built] at checked
  exact of_decide_eq_true checked

/-- A reference to a label means its address. If statements assemble, and one of them is a
machine instruction, alone or at the bottom of repetitions, with a label where its opcode
takes an address or the content of one, then the statements with the decimal numeral of the
label's address in its place assemble too. Image, symbols, and the addresses and bytes of the
listing are the same. -/
theorem numeral_stands_for_label (table : OpcodeTable) (built : InstructionSet.table = .ok table)
    (before after : List Statement) (mark : Option Label) (body : Instruction)
    (assembly : Assembly)
    (assembled : assemble table (before ++ .instruction mark body :: after) = .ok assembly)
    (ordinary : Directive.ofMnemonic? body.innermost.mnemonic = none)
    (opcode : Opcode) (found : table.find? body.innermost = some opcode)
    (index : Nat) (operand : Operand) (taken : opcode.operands[index]? = some operand)
    (text argument numeral : String)
    (given : body.innermost.arguments[index]? = some argument)
    (spelled : operand.spellAddress? text = some argument)
    (noNumber : Text.number? text = none)
    (address : UInt16) (resolves : assembly.symbols.resolve? text = some address)
    (counted : operand.spellAddress? (toString address.toNat) = some numeral) :
    ∃ other,
      assemble table (before ++ .instruction mark (body.replaceInnermost index numeral) :: after) =
        .ok other ∧
      other.image = assembly.image ∧ other.symbols = assembly.symbols ∧
      other.listing.map (fun entry => (entry.address, entry.bytes)) =
        assembly.listing.map (fun entry => (entry.address, entry.bytes)) := by
  have stands := Instruction.standsFor_replaceArgument (unconfused_of_table built) ordinary found
    taken given spelled noNumber resolves counted
  have same : ∀ statements : List Statement, List.Forall₂
      (Statement.Corresponds (Instruction.StandsFor table assembly.symbols))
      statements statements :=
    fun statements => List.forall₂_same.mpr fun statement _ =>
      .refl (fun _ => .inl rfl) statement
  have replaced : Statement.Corresponds (Instruction.StandsFor table assembly.symbols)
      (.instruction mark body) (.instruction mark (body.replaceInnermost index numeral)) :=
    .instruction mark (body.corresponds_replaceInnermost ordinary stands)
  exact assemble_of_corresponds assembled
    (List.rel_append (same before) (.cons replaced (same after)))

/-- A jump to a label that comes later, inside two repetitions, and the same jump to the
address of the label. -/
theorem numeral_stands_for_label_in_repetition :
    let jump : Instruction := ⟨"DUP", ["2", "dup", "3", "jmp", "end"], default⟩
    let numbered : Instruction := ⟨"DUP", ["2", "dup", "3", "jmp", "18"], default⟩
    let last : Statement := .label ⟨"end", default⟩
    ∃ table assembly other, InstructionSet.table = .ok table ∧
      assemble table [.instruction none jump, last] = .ok assembly ∧
      assembly.symbols.resolve? "end" = some 18 ∧
      assemble table [.instruction none numbered, last] = .ok other ∧
      other.image = assembly.image ∧ other.symbols = assembly.symbols := by
  intro jump numbered last
  have facts : InstructionSet.table.toOption.any (fun table =>
      (assemble table [.instruction none jump, last]).toOption.any (fun assembly =>
        decide (assembly.symbols.resolve? "end" = some 18)) &&
      (table.find? jump.innermost).any fun opcode =>
        decide (opcode.operands[0]? = some .address)) = true := by
    decide +kernel
  obtain ⟨table, given, holds⟩ := (Option.any_eq_true _ _).mp facts
  obtain ⟨assembles, accepts⟩ := Bool.and_eq_true_iff.mp holds
  obtain ⟨assembly, made, resolves⟩ := (Option.any_eq_true _ _).mp assembles
  obtain ⟨opcode, found, taken⟩ := (Option.any_eq_true _ _).mp accepts
  have built := toOption_eq_some_iff.mp given
  have assembled := toOption_eq_some_iff.mp made
  have resolves := of_decide_eq_true resolves
  obtain ⟨other, reassembled, image, symbols, -⟩ := numeral_stands_for_label table built [] [last]
    none jump assembly assembled (by decide) opcode found 0 .address (of_decide_eq_true taken)
    "end" "end" "18" (by decide) rfl (by decide) 18 resolves (by decide)
  have replaced : jump.replaceInnermost 0 "18" = numbered := by decide
  rw [replaced] at reassembled
  exact ⟨table, assembly, other, built, assembled, resolves, reassembled, image, symbols⟩

end InstructionSet

end ChipAsm
