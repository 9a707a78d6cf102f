/-
# What encoding is refused for

An instruction that has no word is refused for its encoding: no opcode accepts it, a
label is not bound, an offset is not a number, or a number does not fit its place. The
faults of placing, such as a malformed directive or output past the image, do not arise
here, so the two kinds of fault tell which part of the assembler stopped.
-/

import ChipAsm.Proofs.Encoding.Pieces

namespace ChipAsm

/-- Whether a fault is about the encoding of an instruction. -/
def Fault.isEncoding : Fault → Bool
  | undefinedLabel _ => true
  | invalidOffset _ => true
  | unrecognized _ => true
  | outOfRange .immediate _ _ _ => true
  | outOfRange .address _ _ _ => true
  | outOfRange .offset _ _ _ => true
  | _ => false

/-- Every fault for which the computation can stop is about encoding. -/
def FailsInEncoding {α : Type} (computation : Except Fault α) : Prop :=
  ∀ fault, computation = .error fault → fault.isEncoding = true

namespace FailsInEncoding

variable {α β : Type}

theorem pure (value : α) : FailsInEncoding (pure value) := by
  intro fault refused
  cases refused

theorem error {fault : Fault} (encoding : fault.isEncoding = true) :
    FailsInEncoding (.error fault : Except Fault α) := by
  intro other refused
  cases refused
  exact encoding

theorem bind {computation : Except Fault α} {next : α → Except Fault β}
    (first : FailsInEncoding computation) (second : ∀ value, FailsInEncoding (next value)) :
    FailsInEncoding (computation >>= next) := by
  intro fault refused
  cases outcome : computation with
  | error reason =>
      rw [outcome] at refused
      cases refused
      exact first _ outcome
  | ok value =>
      rw [outcome] at refused
      exact second value fault refused

theorem map {computation : Except Fault α} {view : α → β}
    (fails : FailsInEncoding computation) : FailsInEncoding (view <$> computation) := by
  rw [map_eq_pure_bind]
  exact bind fails fun _ => pure _

theorem demand {mismatch : Fault} (encoding : mismatch.isEncoding = true) (value : Option α) :
    FailsInEncoding (demand mismatch value) := by
  cases value with
  | none => exact error encoding
  | some value => exact pure value

theorem inRange {quantity : Quantity} {low high value : Int}
    (encoding : (Fault.outOfRange quantity value low high).isEncoding = true) :
    FailsInEncoding (inRange quantity low high value) := by
  unfold ChipAsm.inRange
  split
  · exact pure value
  · exact error encoding

theorem addressValue (symbols : SymbolTable) (argument : String) :
    FailsInEncoding (Argument.addressValue symbols argument) := by
  rw [Argument.addressValue_eq]
  split
  · exact inRange rfl
  · exact error rfl

theorem offsetValue (low high : Int) (text : Option String) :
    FailsInEncoding (Argument.offsetValue low high text) := by
  unfold Argument.offsetValue
  split
  · exact pure 0
  · split
    · exact inRange rfl
    · exact error rfl

/-- An argument that cannot be read is refused for its encoding. -/
theorem evaluate (symbols : SymbolTable) {mismatch : Fault}
    (encoding : mismatch.isEncoding = true) (operand : Operand) (argument : String) :
    FailsInEncoding (operand.evaluate symbols mismatch argument) := by
  have needed : ∀ {α : Type} (value : Option α), FailsInEncoding (ChipAsm.demand mismatch value) :=
    demand encoding
  cases operand with
  | immediate letter =>
      exact bind (needed _) fun _ => bind (inRange rfl) fun _ => pure _
  | address => exact bind (addressValue _ _) fun _ => pure _
  | indirectAddress => exact bind (needed _) fun _ => bind (addressValue _ _) fun _ => pure _
  | register bank letter => exact bind (needed _) fun _ => pure _
  | selected bank letter => exact bind (needed _) fun _ => pure _
  | stackPointer => exact pure _
  | soundTimer => exact pure _
  | delayTimer => exact pure _
  | indexed letter => exact bind (needed _) fun _ => pure _
  | indexedOffset letter =>
      exact bind (needed _) fun _ => bind (offsetValue _ _ _) fun _ => pure _
  | indexedSum letter addendLetter =>
      exact bind (needed _) fun _ => bind (needed _) fun _ => bind (offsetValue _ _ _) fun _ =>
        pure _

/-- Reading a list of arguments is refused for what one of them is refused. -/
theorem mapM {reading : α → Except Fault β} {items : List α}
    (each : ∀ item, FailsInEncoding (reading item)) : FailsInEncoding (items.mapM reading) := by
  induction items with
  | nil => exact pure _
  | cons item rest ih =>
      rw [List.mapM_cons]
      exact bind (each item) fun _ => bind ih fun _ => pure _

end FailsInEncoding

/-- An instruction that an opcode does not encode is refused for its encoding. -/
theorem Opcode.failsInEncoding_compose (opcode : Opcode) (symbols : SymbolTable)
    (instruction : Instruction) : FailsInEncoding (opcode.compose symbols instruction) := by
  rw [compose_eq]
  split
  · exact .error rfl
  · exact .map (.mapM fun pair => .evaluate symbols rfl pair.1 pair.2)

/-- The faults for which a table encodes no word are about encoding. -/
theorem OpcodeTable.isEncoding_of_encode {table : OpcodeTable} {symbols : SymbolTable}
    {instruction : Instruction} {fault : Fault}
    (refused : table.encode symbols instruction = .error (.fault fault)) :
    fault.isEncoding = true := by
  unfold encode at refused
  split at refused
  · next opcode _ =>
      exact opcode.failsInEncoding_compose symbols instruction fault
        (Opcode.encode_eq_fault_iff.mp refused)
  · cases refused
    rfl

end ChipAsm
