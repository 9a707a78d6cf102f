/-
# Data directives

`DB`, `DW` and `DD` insert numbers of one, two and four bytes, the least
significant byte first; `DS` inserts the bytes of one string literal. A number may
be given as unsigned or as signed.
-/

import ChipAsm.Statement
import ChipAsm.Text.Name
import ChipAsm.Text.Numeral

namespace ChipAsm

/-- What a data directive inserts. -/
inductive DataKind
  | bytes
  | words
  | doubles
  | text
  deriving DecidableEq, Repr

/-- The data directive with this mnemonic. -/
def DataKind.ofMnemonic? : String → Option DataKind
  | "DB" => some .bytes
  | "DW" => some .words
  | "DD" => some .doubles
  | "DS" => some .text
  | _ => none

namespace Data

/-- The lowest `size` bytes of a number in two's complement, the least significant
first. -/
def littleEndian : (size : Nat) → (value : Int) → List UInt8
  | 0, _ => []
  | size + 1, value => UInt8.ofNat (value % 256).toNat :: littleEndian size (value / 256)

/-- The least number of so many bytes. -/
def low (size : Nat) : Int := -((1 <<< (8 * size - 1) : Nat) : Int)

/-- The greatest number of so many bytes. -/
def high (size : Nat) : Int := ((1 <<< (8 * size) : Nat) : Int) - 1

end Data

namespace Instruction

/-- The diagnostic for malformed arguments of a directive. -/
def malformed (instruction : Instruction) (reason : DirectiveFault) : Diagnostic :=
  instruction.diagnostic (.malformedDirective instruction.mnemonic reason)

/-- The bytes of the argument with this index, a number of `size` bytes. -/
def numberBytes (instruction : Instruction) (size : Nat) (argument : String) (index : Nat) :
    Except Diagnostic (List UInt8) :=
  match Text.number? argument with
  | none => .error (instruction.malformed (.notNumber index))
  | some value =>
      if Data.low size ≤ value ∧ value ≤ Data.high size then .ok (Data.littleEndian size value)
      else .error (instruction.diagnostic
        (.outOfRange (.dataValue instruction.mnemonic) value (Data.low size) (Data.high size)))

/-- The bytes of all arguments, numbers of `size` bytes. -/
def numbersBytes (instruction : Instruction) (size : Nat) : Except Diagnostic (List UInt8) := do
  let items ← instruction.arguments.zipIdx.mapM fun (argument, index) =>
    instruction.numberBytes size argument index
  return items.flatten

/-- The bytes of the one string literal among the arguments. -/
def stringBytes (instruction : Instruction) : Except Diagnostic (List UInt8) :=
  match instruction.arguments with
  | [literal] =>
      if Text.isQuoted literal then .ok (Text.unquoted literal).toUTF8.toList
      else .error (instruction.malformed .notOneString)
  | _ => .error (instruction.malformed .notOneString)

/-- The bytes that a data directive of the given kind inserts. -/
def bytesOf (instruction : Instruction) : DataKind → Except Diagnostic (List UInt8)
  | .bytes => instruction.numbersBytes 1
  | .words => instruction.numbersBytes 2
  | .doubles => instruction.numbersBytes 4
  | .text => instruction.stringBytes

/-- The bytes that the instruction inserts, if it is a data directive. -/
def dataBytes (instruction : Instruction) : Except Diagnostic (List UInt8) :=
  match DataKind.ofMnemonic? instruction.mnemonic with
  | some kind => instruction.bytesOf kind
  | none => .error (instruction.malformed .notData)

end Instruction

end ChipAsm
