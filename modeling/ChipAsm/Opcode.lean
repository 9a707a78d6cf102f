/-
# Opcodes

An opcode fixes some nibbles of a 24-bit machine word and leaves others to fields,
each named by a letter. Words are kept in 32 bits.
-/

import ChipAsm.Operand

namespace ChipAsm

/-- A machine word; its low 24 bits are in use. -/
abbrev Word := BitVec 32

/-- The nibbles of a word in which the value of a letter is stored. -/
structure Field where
  letter : Letter
  /-- The index of the most significant nibble, five being the top of the word. -/
  offset : Nat
  /-- The number of nibbles. -/
  nibbles : Nat
  /-- The width of the values that the field takes. -/
  bits : Nat
  deriving DecidableEq, Repr

namespace Field

/-- The number of bits of a value that reach the word. -/
def width (field : Field) : Nat :=
  min (min field.bits 32) (4 * field.nibbles)

/-- The value in its place: reduced to the width of the field, negative values in
two's complement, and moved to the nibbles of the field. -/
def pack (field : Field) (value : Int) : Word :=
  let kept := (value % (1 <<< field.width : Nat)).toNat
  BitVec.ofNat 32 (kept <<< (4 * (field.offset + 1 - field.nibbles)))

end Field

/-- An opcode: its definition as it was written and what follows from it. -/
structure Opcode where
  pattern : String
  format : String
  mnemonic : String
  operands : List Operand
  /-- The fixed nibbles, zero elsewhere. -/
  base : Word
  /-- Ones in the fixed nibbles, zero elsewhere. -/
  mask : Word
  fields : List Field
  deriving DecidableEq, Repr

namespace Opcode

/-- The definition as it was written. -/
def describe (opcode : Opcode) : String :=
  opcode.pattern ++ " " ++ opcode.format

/-- The field of a letter. -/
def field? (opcode : Opcode) (letter : Letter) : Option Field :=
  opcode.fields.find? (·.letter = letter)

/-- Whether the word has the fixed nibbles of the opcode. -/
def matchesWord (opcode : Opcode) (word : Word) : Bool :=
  word &&& opcode.mask == opcode.base

end Opcode

end ChipAsm
