/-
# Labels and their addresses

An address can be written as a label or as a number. Here an argument that names a label
is replaced by the decimal numeral of its address, and the word stays the same.

The numeral stands for the same number, so what has to be shown is that the instruction
keeps its opcode. An operand that takes the numeral also takes the label, unless it takes
immediates. A table is unconfused if this exception does no harm: where one opcode takes an
immediate and another of the same mnemonic an address, some register tells them apart.
-/

import ChipAsm.Proofs.Encoding.Acceptance
import ChipAsm.Proofs.Operand.Spelling
import ChipAsm.Proofs.Placement.Correspondence

namespace ChipAsm

namespace Operand

variable {operand : Operand} {text argument : String}

/-- The encoder reads the spelling of an address as it reads the address. -/
theorem evaluate_spelled (spelled : operand.spellAddress? text = some argument)
    (nonempty : text ≠ "") (symbols : SymbolTable) (mismatch : Fault) :
    operand.evaluate symbols mismatch argument =
      (Argument.addressValue symbols text >>= fun value => .ok [(.address, value)]) := by
  cases operand with
  | address =>
      cases spelled
      rfl
  | indirectAddress =>
      cases spelled
      rw [evaluate, Argument.bracketed?_enclosed nonempty, demand, ok_bind]
      rfl
  | _ => cases spelled

/-- Whether an argument is read does not depend on the fault for those that are not. -/
theorem evaluate_eq_ok_congr {symbols : SymbolTable} {mismatch other : Fault}
    {pieces : List (Slot × Int)}
    (read : operand.evaluate symbols mismatch argument = .ok pieces) :
    operand.evaluate symbols other argument = .ok pieces := by
  cases operand <;>
    simp only [evaluate, bind_eq_ok_iff, demand_eq_ok_iff] at read ⊢ <;> exact read

end Operand

/-- A label and the numeral of its address stand for the same number. -/
theorem Argument.addressValue_numeral {symbols : SymbolTable} {text : String} {address : UInt16}
    (noNumber : Text.number? text = none) (resolves : symbols.resolve? text = some address) :
    addressValue symbols (toString address.toNat) = addressValue symbols text := by
  have small : address.toNat ≤ Text.maxMagnitude :=
    Nat.le_trans (Nat.le_of_lt address.toNat_lt) (by decide)
  rw [addressValue_eq, addressValue_eq, address?, address?, Text.number?_toString small, noNumber,
    resolves, Option.map_some]

/-- An operand reads the numeral of an address as it reads the label. -/
theorem Operand.evaluate_numeral {operand : Operand} {text argument numeral : String}
    {symbols : SymbolTable} {address : UInt16}
    (spelled : operand.spellAddress? text = some argument)
    (counted : operand.spellAddress? (toString address.toNat) = some numeral)
    (accepted : operand.kind.accepts argument = true)
    (noNumber : Text.number? text = none) (resolves : symbols.resolve? text = some address)
    (mismatch : Fault) :
    operand.evaluate symbols mismatch numeral = operand.evaluate symbols mismatch argument := by
  rw [accepts_spelled spelled] at accepted
  have nonempty : toString address.toNat ≠ "" := Nat.repr_ne_empty
  rw [evaluate_spelled spelled (Argument.ne_empty_of_isAddress accepted),
    evaluate_spelled counted nonempty, Argument.addressValue_numeral noNumber resolves]

namespace Opcode

variable {opcode : Opcode} {instruction : Instruction}

/-- Only opcodes of three operands count an argument twice. -/
theorem normalize_of_length_ne (plain : opcode.operands.length ≠ 3) (arguments : List String) :
    opcode.normalize arguments = arguments := by
  unfold normalize
  split
  · exact if_neg plain
  · rfl

/-- Acceptance by an opcode that counts no argument twice, position by position. -/
theorem accepts_iff_getElem? (plain : opcode.operands.length ≠ 3) :
    opcode.accepts instruction = true ↔
      instruction.mnemonic = opcode.mnemonic ∧
      instruction.arguments.length = opcode.operands.length ∧
      ∀ (index : Nat) (operand : Operand) (argument : String),
        opcode.operands[index]? = some operand → instruction.arguments[index]? = some argument →
        operand.kind.accepts argument = true := by
  rw [accepts_iff, pairs, normalize_of_length_ne plain]
  refine and_congr_right fun _ => and_congr_right fun _ => ?_
  constructor
  · intro each index operand argument taken given
    exact each (operand, argument)
      (List.mem_iff_getElem?.mpr ⟨index, List.getElem?_zip_eq_some.mpr ⟨taken, given⟩⟩)
  · intro each pair member
    obtain ⟨index, found⟩ := List.mem_iff_getElem?.mp member
    obtain ⟨taken, given⟩ := List.getElem?_zip_eq_some.mp found
    exact each index pair.1 pair.2 taken given

/-- The first opcode takes an immediate where the second takes an address. -/
def MistakesAddress (first second : Opcode) : Prop :=
  ∃ pair ∈ first.operands.zip second.operands, pair.1.kind = .immediate ∧ pair.2 = .address

/-- The opcodes take registers of different banks at some position. -/
def DiffersInBank (first second : Opcode) : Prop :=
  ∃ pair ∈ first.operands.zip second.operands, pair.1.kind.isApart pair.2.kind = true

instance (first second : Opcode) : Decidable (first.MistakesAddress second) :=
  inferInstanceAs (Decidable (∃ pair ∈ first.operands.zip second.operands, _))

instance (first second : Opcode) : Decidable (first.DiffersInBank second) :=
  inferInstanceAs (Decidable (∃ pair ∈ first.operands.zip second.operands, _))

/-- Whether the opcode takes an address. -/
def TakesAddress (opcode : Opcode) : Prop :=
  .address ∈ opcode.operands ∨ .indirectAddress ∈ opcode.operands

instance (opcode : Opcode) : Decidable opcode.TakesAddress :=
  inferInstanceAs (Decidable (_ ∨ _))

end Opcode

/-- Wherever an address is taken, a numeral in its place is not mistaken for an immediate by
an opcode of the same mnemonic that could otherwise accept the instruction. -/
def OpcodeTable.Unconfused (table : OpcodeTable) : Prop :=
  ∀ opcode ∈ table.opcodes, opcode.TakesAddress → ∀ other ∈ table.opcodes,
    other.mnemonic = opcode.mnemonic →
      other.operands.length ≠ 3 ∧ (other.MistakesAddress opcode → other.DiffersInBank opcode)

instance (table : OpcodeTable) : Decidable table.Unconfused :=
  inferInstanceAs (Decidable (∀ opcode ∈ table.opcodes, _))

section

variable {opcode : Opcode} {instruction : Instruction} {index : Nat} {operand : Operand}
  {text argument : String}

theorem Opcode.takesAddress_of_spelled (taken : opcode.operands[index]? = some operand)
    (spelled : operand.spellAddress? text = some argument) : opcode.TakesAddress := by
  have member := List.mem_of_getElem? taken
  cases operand with
  | address => exact .inl member
  | indirectAddress => exact .inr member
  | _ => cases spelled

/-- If one opcode mistakes the address of another for an immediate, but both differ in a bank
of registers, then they do not accept the instruction with and without the numeral. -/
theorem Opcode.not_accepts_of_differsInBank {other : Opcode}
    (plain : opcode.operands.length ≠ 3) (otherPlain : other.operands.length ≠ 3)
    (accepted : opcode.accepts instruction = true)
    (taken : opcode.operands[index]? = some operand)
    (spelled : operand.spellAddress? text = some argument)
    (differs : other.DiffersInBank opcode) (numeral : String) :
    other.accepts (instruction.replaceArgument index numeral) = false := by
  by_contra both
  rw [Bool.not_eq_false] at both
  obtain ⟨-, count, each⟩ := (accepts_iff_getElem? plain).mp accepted
  obtain ⟨-, -, eachOther⟩ := (accepts_iff_getElem? otherPlain).mp both
  obtain ⟨pair, member, apart⟩ := differs
  obtain ⟨position, found⟩ := List.mem_iff_getElem?.mp member
  obtain ⟨otherTaken, here⟩ := List.getElem?_zip_eq_some.mp found
  -- Registers are told apart, so this is not the position of the address.
  have elsewhere : index ≠ position := by
    rintro rfl
    obtain rfl := Option.some.inj (taken.symm.trans here)
    exact Bool.noConfusion ((Operand.isApart_of_spelled spelled _).symm.trans apart)
  have inside : position < instruction.arguments.length := by
    rw [count]
    exact (List.getElem?_eq_some_iff.mp here).1
  have given := List.getElem?_eq_getElem inside
  have kept : (instruction.replaceArgument index numeral).arguments[position]? =
      some instruction.arguments[position] := by
    rw [Instruction.replaceArgument, List.getElem?_set_ne elsewhere, given]
  have acceptedHere := each position _ _ here given
  have acceptedOther := eachOther position _ _ otherTaken kept
  exact Bool.noConfusion
    ((OperandKind.not_accepts_of_isApart apart acceptedOther).symm.trans acceptedHere)

end

namespace OpcodeTable

variable {table : OpcodeTable} {opcode : Opcode} {instruction : Instruction} {index : Nat}
  {operand : Operand} {text argument numeral : String} {address : UInt16}

section

variable (unconfused : table.Unconfused) (found : table.find? instruction = some opcode)
  (taken : opcode.operands[index]? = some operand)
  (given : instruction.arguments[index]? = some argument)
  (spelled : operand.spellAddress? text = some argument)
  (counted : operand.spellAddress? (toString address.toNat) = some numeral)

include unconfused found taken spelled

/-- The opcode of an instruction with an address counts no argument twice. -/
theorem length_operands_ne_of_spelled : opcode.operands.length ≠ 3 := by
  have member : opcode ∈ table.opcodes := List.mem_of_find?_eq_some found
  have takes := Opcode.takesAddress_of_spelled taken spelled
  exact (unconfused opcode member takes opcode member rfl).1

include given counted

/-- With the numeral, the instruction is accepted by no opcode that did not accept it
before. -/
theorem accepts_of_accepts_replaceArgument {other : Opcode} (among : other ∈ table.opcodes)
    (acceptedNumeral : other.accepts (instruction.replaceArgument index numeral) = true) :
    other.accepts instruction = true := by
  have plain := length_operands_ne_of_spelled unconfused found taken spelled
  have accepted := accepts_of_find? found
  have member : opcode ∈ table.opcodes := List.mem_of_find?_eq_some found
  have takes := Opcode.takesAddress_of_spelled taken spelled
  obtain ⟨mnemonic, count, each⟩ := (Opcode.accepts_iff_getElem? plain).mp accepted
  have sameMnemonic : other.mnemonic = opcode.mnemonic := by
    rw [← mnemonic]
    exact (Opcode.accepts_iff.mp acceptedNumeral).1.symm
  obtain ⟨otherPlain, separated⟩ := unconfused opcode member takes other among sameMnemonic
  obtain ⟨-, otherCount, otherEach⟩ := (Opcode.accepts_iff_getElem? otherPlain).mp acceptedNumeral
  rw [Instruction.replaceArgument, List.length_set] at otherCount
  refine (Opcode.accepts_iff_getElem? otherPlain).mpr
    ⟨mnemonic.trans sameMnemonic.symm, otherCount, ?_⟩
  intro position otherOperand otherArgument otherTaken otherGiven
  by_cases here : index = position
  · subst here
    obtain rfl := Option.some.inj (given.symm.trans otherGiven)
    have inside := (List.getElem?_eq_some_iff.mp given).1
    have replaced : (instruction.replaceArgument index numeral).arguments[index]? =
        some numeral := by
      rw [Instruction.replaceArgument, List.getElem?_set_self inside]
    have acceptedHere := each index operand argument taken given
    rcases Operand.accepts_of_accepts_numeral spelled acceptedHere counted
      (otherEach index otherOperand numeral otherTaken replaced) with kept | ⟨immediate, rfl⟩
    · exact kept
    · -- An immediate in place of the address: the other opcode differs in a register.
      have mistaken : other.MistakesAddress opcode :=
        ⟨(otherOperand, .address), List.mem_iff_getElem?.mpr
          ⟨index, List.getElem?_zip_eq_some.mpr ⟨otherTaken, taken⟩⟩, immediate, rfl⟩
      have refused := Opcode.not_accepts_of_differsInBank plain otherPlain accepted taken spelled
        (separated mistaken) numeral
      exact Bool.noConfusion (refused.symm.trans acceptedNumeral)
  · refine otherEach position otherOperand otherArgument otherTaken ?_
    rw [Instruction.replaceArgument, List.getElem?_set_ne here, otherGiven]

/-- With the numeral, the instruction is still accepted by its opcode. -/
theorem accepts_replaceArgument :
    opcode.accepts (instruction.replaceArgument index numeral) = true := by
  have plain := length_operands_ne_of_spelled unconfused found taken spelled
  obtain ⟨mnemonic, count, each⟩ := (Opcode.accepts_iff_getElem? plain).mp (accepts_of_find? found)
  have small : address.toNat ≤ Text.maxMagnitude :=
    Nat.le_trans (Nat.le_of_lt address.toNat_lt) (by decide)
  refine (Opcode.accepts_iff_getElem? plain).mpr ⟨mnemonic, ?_, ?_⟩
  · rw [Instruction.replaceArgument, List.length_set, count]
  · intro position positionOperand positionArgument positionTaken positionGiven
    rw [Instruction.replaceArgument] at positionGiven
    by_cases here : index = position
    · subst here
      obtain rfl := Option.some.inj (taken.symm.trans positionTaken)
      rw [List.getElem?_set_self (List.getElem?_eq_some_iff.mp given).1] at positionGiven
      obtain rfl := Option.some.inj positionGiven
      rw [Operand.accepts_spelled counted, Argument.isAddress, Text.isNumber,
        Text.number?_toString small]
      rfl
    · rw [List.getElem?_set_ne here] at positionGiven
      exact each position _ _ positionTaken positionGiven

/-- With the numeral, the instruction keeps its opcode. -/
theorem find?_replaceArgument :
    table.find? (instruction.replaceArgument index numeral) = some opcode := by
  have kept := accepts_replaceArgument unconfused found taken given spelled counted
  obtain ⟨-, before, after, split, refused⟩ := List.find?_eq_some_iff_append.mp found
  refine List.find?_eq_some_iff_append.mpr ⟨kept, before, after, split, ?_⟩
  intro earlier member
  have among : earlier ∈ table.opcodes := by
    rw [split]
    exact List.mem_append_left _ member
  have refusedBefore := refused earlier member
  cases outcome : earlier.accepts (instruction.replaceArgument index numeral) with
  | false => rfl
  | true =>
      rw [accepts_of_accepts_replaceArgument unconfused found taken given spelled counted among
        outcome] at refusedBefore
      cases refusedBefore

/-- With the numeral of its address in place of a label, an instruction has the same word. -/
theorem encode_replaceArgument {symbols : SymbolTable} {word : Word}
    (noNumber : Text.number? text = none) (resolves : symbols.resolve? text = some address)
    (encoded : table.encode symbols instruction = .ok word) :
    table.encode symbols (instruction.replaceArgument index numeral) = .ok word := by
  have plain := length_operands_ne_of_spelled unconfused found taken spelled
  rw [encode_of_find? found] at encoded
  rw [encode_of_find? (find?_replaceArgument unconfused found taken given spelled counted)]
  obtain ⟨composed, kept⟩ := Opcode.encode_eq_ok_iff.mp encoded
  obtain ⟨count, pieces, evaluated, rfl⟩ := Opcode.compose_eq_ok_iff.mp composed
  rw [Opcode.normalize_of_length_ne plain] at count
  rw [Opcode.evaluate, Opcode.normalize_of_length_ne plain, mapM_eq_ok_iff,
    List.forall₂_iff_get] at evaluated
  refine Opcode.encode_eq_ok_iff.mpr ⟨Opcode.compose_eq_ok_iff.mpr ⟨?_, pieces, ?_, rfl⟩, kept⟩
  · rw [Opcode.normalize_of_length_ne plain, Instruction.replaceArgument, List.length_set, count]
  rw [Opcode.evaluate, Opcode.normalize_of_length_ne plain, mapM_eq_ok_iff, List.forall₂_iff_get]
  obtain ⟨lengths, each⟩ := evaluated
  simp only [List.length_zip, Instruction.replaceArgument, List.length_set] at lengths each ⊢
  refine ⟨lengths, ?_⟩
  intro position inPairs inPieces
  have read := each position inPairs inPieces
  simp only [List.get_eq_getElem, List.getElem_zip] at read ⊢
  by_cases here : index = position
  · subst here
    have accepted := ((Opcode.accepts_iff_getElem? plain).mp (accepts_of_find? found)).2.2
      index operand argument taken given
    rw [(List.getElem?_eq_some_iff.mp taken).2, (List.getElem?_eq_some_iff.mp given).2] at read
    rw [(List.getElem?_eq_some_iff.mp taken).2, List.getElem_set_self,
      Operand.evaluate_numeral spelled counted accepted noNumber resolves]
    exact Operand.evaluate_eq_ok_congr read
  · rw [List.getElem_set_ne here]
    exact Operand.evaluate_eq_ok_congr read

end

end OpcodeTable

end ChipAsm
