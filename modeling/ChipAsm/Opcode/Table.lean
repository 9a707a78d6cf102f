/-
# Opcode tables

A table lists opcodes in the order in which they are tried. Two opcodes of a table
never have the same fixed bits.
-/

import ChipAsm.Opcode.Definition

namespace ChipAsm

/-- Opcodes in the order in which they are tried. -/
structure OpcodeTable where
  opcodes : List Opcode
  deriving Repr, Inhabited

/-- Whether two opcodes fix the same nibbles to the same digits. -/
def Opcode.sameFixedBits (first second : Opcode) : Bool :=
  second.mask == first.mask && second.base == first.base

namespace OpcodeTable

/-- The first opcode that has the same fixed bits as a later one, and the first
such later one. -/
def conflict? : List Opcode → Option (Opcode × Opcode)
  | [] => none
  | first :: rest =>
      match rest.find? first.sameFixedBits with
      | some second => some (first, second)
      | none => conflict? rest

/-- The table of the opcodes defined by pairs of a pattern and a format. -/
def ofDefinitions (definitions : List (String × String)) : Except DefinitionFault OpcodeTable := do
  let opcodes ← definitions.mapM fun (pattern, format) => Opcode.define pattern format
  match conflict? opcodes with
  | some (first, second) => throw (.ambiguous first.describe second.describe)
  | none => return { opcodes }

end OpcodeTable

end ChipAsm
