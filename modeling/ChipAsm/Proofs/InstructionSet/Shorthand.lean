/-
# Two arguments for three operands

An opcode of three operands takes two arguments as three, of which the first two are the
same. What has to be shown is that the short spelling and the long one find the same opcode:
opcodes of two operands can accept the short one only.

If the short spelling finds an opcode of three operands, then so does the long one, since it
has fewer opcodes to find. The converse depends on the table. In that of the machine,
opcodes with different numbers of operands accept nothing in common.
-/

import ChipAsm.Proofs.Encoding.Reference
import ChipAsm.Proofs.InstructionSet.Ambiguity

namespace ChipAsm

/-- How an accepted argument is read does not depend on the fault for those that are not. -/
theorem Operand.evaluate_eq_of_accepts {operand : Operand} {argument : String}
    (accepted : operand.kind.accepts argument = true) (symbols : SymbolTable)
    (mismatch other : Fault) :
    operand.evaluate symbols mismatch argument = operand.evaluate symbols other argument := by
  cases outcome : operand.evaluate symbols mismatch argument with
  | ok pieces => exact (evaluate_eq_ok_congr outcome).symm
  | error fault =>
      have refuses := (evaluate_eq_error_iff accepted).mp outcome
      exact ((evaluate_eq_error_iff accepted).mpr refuses).symm

namespace Opcode

variable {opcode : Opcode}

/-- Instructions with the same arguments, as the opcode counts them, have the same word or stop
for the same reason once they are accepted. -/
theorem encode_eq_of_normalize {instruction other : Instruction}
    (accepted : opcode.accepts instruction = true)
    (same : opcode.normalize instruction.arguments = opcode.normalize other.arguments)
    (symbols : SymbolTable) :
    opcode.encode symbols instruction = opcode.encode symbols other := by
  obtain ⟨-, count, each⟩ := accepts_iff.mp accepted
  have read : opcode.evaluate symbols instruction = opcode.evaluate symbols other := by
    unfold evaluate
    rw [← same]
    exact mapM_congr fun pair member =>
      Operand.evaluate_eq_of_accepts (each pair member) symbols _ _
  have composed : opcode.compose symbols instruction = opcode.compose symbols other := by
    rw [compose_eq, compose_eq, ← same, if_neg (not_not_intro count),
      if_neg (not_not_intro count), read]
  rw [encode, encode, composed]

variable {mnemonic first second : String} {place otherPlace : Place}

/-- Three operands count the two arguments of the short spelling as the three of the long one. -/
theorem normalize_short (three : opcode.operands.length = 3) :
    opcode.normalize [first, second] = opcode.normalize [first, first, second] :=
  if_pos three

/-- Three operands accept both spellings or none. -/
theorem accepts_short (three : opcode.operands.length = 3) :
    opcode.accepts ⟨mnemonic, [first, second], place⟩ =
      opcode.accepts ⟨mnemonic, [first, first, second], otherPlace⟩ := by
  unfold accepts
  rw [normalize_short three]

/-- Only three operands accept the long spelling. -/
theorem length_operands_of_accepts_long
    (accepted : opcode.accepts ⟨mnemonic, [first, first, second], place⟩ = true) :
    opcode.operands.length = 3 :=
  (accepts_iff.mp accepted).2.1.symm

end Opcode

namespace OpcodeTable

variable {table : OpcodeTable} {opcode : Opcode} {mnemonic first second : String}
  {place otherPlace : Place}

/-- What is found for one instruction is found for another that it accepts, if everything
tried before it accepts the other only with the first. -/
theorem find?_of_find? {instruction other : Instruction}
    (found : table.find? instruction = some opcode) (accepted : opcode.accepts other = true)
    (fewer : ∀ before after, table.opcodes = before ++ opcode :: after → ∀ earlier ∈ before,
      earlier.accepts other = true → earlier.accepts instruction = true) :
    table.find? other = some opcode := by
  obtain ⟨-, before, after, split, refused⟩ := List.find?_eq_some_iff_append.mp found
  refine List.find?_eq_some_iff_append.mpr ⟨accepted, before, after, split, ?_⟩
  intro earlier member
  have refusedFirst := refused earlier member
  cases outcome : earlier.accepts other with
  | false => rfl
  | true =>
      rw [fewer before after split earlier member outcome] at refusedFirst
      cases refusedFirst

/-- The long spelling finds what the short one finds, if that has three operands. -/
theorem find?_long (three : opcode.operands.length = 3)
    (found : table.find? ⟨mnemonic, [first, second], place⟩ = some opcode) :
    table.find? ⟨mnemonic, [first, first, second], otherPlace⟩ = some opcode := by
  refine find?_of_find? found ?_ fun _ _ _ earlier _ long => ?_
  · rw [← Opcode.accepts_short three]
    exact accepts_of_find? found
  · rwa [Opcode.accepts_short (Opcode.length_operands_of_accepts_long long)]

/-- The short spelling finds what the long one finds, if different numbers of operands never
accept the same. -/
theorem CoveredBy.find?_short {overlaps : List Overlap} (covered : table.CoveredBy overlaps)
    (found : table.find? ⟨mnemonic, [first, first, second], otherPlace⟩ = some opcode) :
    table.find? ⟨mnemonic, [first, second], place⟩ = some opcode := by
  have long := accepts_of_find? found
  have three := Opcode.length_operands_of_accepts_long long
  have accepted : opcode.accepts ⟨mnemonic, [first, second], place⟩ = true := by
    rwa [Opcode.accepts_short three]
  refine find?_of_find? found accepted fun before after split earlier member short => ?_
  -- Both accept the short spelling, so the earlier opcode has three operands as well.
  have apart := covered.exists_covers ⟨mnemonic, [first, second], place⟩
  rw [split, List.pairwise_append] at apart
  have same := (apart.2.2 earlier member opcode (List.mem_cons_self ..) short accepted).1
  rwa [← Opcode.accepts_short (same.trans three)]

end OpcodeTable

namespace InstructionSet

/-- Two arguments for three operands mean three arguments. If an opcode of three operands is
found for two arguments, then it is found for the three as well, and both spellings have the
same word or stop for the same reason. For the machine, what is found for the three arguments is
also found for the two, so no opcode of two operands comes in between. -/
theorem short_spelling_means_long_spelling (mnemonic first second : String)
    (place otherPlace : Place) :
    let short : Instruction := ⟨mnemonic, [first, second], place⟩
    let long : Instruction := ⟨mnemonic, [first, first, second], otherPlace⟩
    (∀ (table : OpcodeTable) (opcode : Opcode), table.find? short = some opcode →
      opcode.operands.length = 3 →
      table.find? long = some opcode ∧
        ∀ symbols, table.encode symbols short = table.encode symbols long) ∧
    (∀ (table : OpcodeTable) (opcode : Opcode), InstructionSet.table = .ok table →
      table.find? long = some opcode →
      opcode.operands.length = 3 ∧ table.find? short = some opcode) := by
  intro short long
  constructor
  · intro table opcode found three
    have also : table.find? long = some opcode := OpcodeTable.find?_long three found
    refine ⟨also, fun symbols => ?_⟩
    rw [OpcodeTable.encode_of_find? found, OpcodeTable.encode_of_find? also]
    exact Opcode.encode_eq_of_normalize (OpcodeTable.accepts_of_find? found)
      (Opcode.normalize_short three) symbols
  · intro table opcode built found
    exact ⟨Opcode.length_operands_of_accepts_long (OpcodeTable.accepts_of_find? found),
      (coveredBy_of_table built).find?_short found⟩

/-- An addition of pairs. The machine has opcodes of two operands with this mnemonic, and none
of them takes the short spelling. -/
theorem short_addition_means_long_addition :
    let short : Instruction := ⟨"ADD", ["B1", "B2"], default⟩
    let long : Instruction := ⟨"ADD", ["B1", "B1", "B2"], default⟩
    ∃ table opcode, InstructionSet.table = .ok table ∧ opcode.operands.length = 3 ∧
      table.find? long = some opcode ∧ table.find? short = some opcode ∧
      ∀ symbols, table.encode symbols short = table.encode symbols long := by
  intro short long
  have facts : InstructionSet.table.toOption.any (fun table => (table.find? long).isSome) =
      true := by
    decide +kernel
  obtain ⟨table, given, some⟩ := (Option.any_eq_true _ _).mp facts
  obtain ⟨opcode, found⟩ := Option.isSome_iff_exists.mp some
  have built := toOption_eq_some_iff.mp given
  obtain ⟨forth, back⟩ := short_spelling_means_long_spelling "ADD" "B1" "B2" default default
  obtain ⟨three, foundShort⟩ := back table opcode built found
  exact ⟨table, opcode, built, three, found, foundShort, (forth table opcode foundShort three).2⟩

end InstructionSet

end ChipAsm
