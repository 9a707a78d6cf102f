/-
# Arguments

How an argument of an instruction is read for each kind of operand. A register is
its bank and one hexadecimal digit. Acceptance is a matter of spelling; values are
held to a range here only for immediates, those of addresses and offsets when the
instruction is encoded.
-/

import ChipAsm.Operand
import ChipAsm.Text.Name
import ChipAsm.Text.Numeral

namespace ChipAsm.Argument

/-- The least immediate: unsigned bytes with a small signed allowance. -/
def immediateLow : Int := -127

/-- The greatest immediate. -/
def immediateHigh : Int := 255

/-- Whether the argument can be an address: a number or a name. -/
def isAddress (argument : String) : Bool :=
  Text.isNumber argument || Text.isName argument

/-- The nonempty text between square brackets. -/
def bracketedText? : List Char → Option (List Char)
  | '[' :: rest =>
      if rest.getLast? = some ']' ∧ rest.dropLast ≠ [] then some rest.dropLast else none
  | _ => none

/-- The nonempty text between square brackets. -/
def bracketed? (argument : String) : Option String :=
  (bracketedText? argument.toList).map String.ofList

/-- The digit of a register of the bank, such as `N3`. -/
def registerDigit? (bank : Bank) (argument : String) : Option (Fin 16) :=
  match argument.toList with
  | [initial, digit] => if initial = bank.char then Text.hexDigit? digit else none
  | _ => none

/-- The digit of the register that selects one of the bank, such as `B(N3)`. -/
def selectedDigit? (bank : Bank) (argument : String) : Option (Fin 16) :=
  match argument.toList with
  | [initial, '(', 'N', digit, ')'] => if initial = bank.char then Text.hexDigit? digit else none
  | _ => none

/-- An argument of the form `[I…]`: the digit of its index register, that of the
`B` register added to it, and the text of its offset. -/
structure Indexed where
  index : Fin 16
  addend : Option (Fin 16)
  offset : Option String
  deriving DecidableEq, Repr

/-- The `B` register at the beginning of what is added to an index, and the text
of the offset after it. -/
def addend? : List Char → Option (Fin 16 × Option (List Char))
  | ['B', digit] => (Text.hexDigit? digit).map fun value => (value, none)
  | 'B' :: digit :: '+' :: offset =>
      (Text.hexDigit? digit).map fun value => (value, some offset)
  | _ => none

/-- What is added to an index, given with its plus sign: a register, an offset or
both. Text that does not read as a register is taken for an offset, and an offset
is never empty. -/
def added? : List Char → Option (Option (Fin 16) × Option (List Char))
  | [] => some (none, none)
  | '+' :: rest =>
      match addend? rest with
      | some (_, some []) => none
      | some (addend, offset) => some (some addend, offset)
      | none => if rest = [] then none else some (none, some rest)
  | _ => none

/-- The parts of an argument of the form `[I…]`. -/
def indexed? (argument : String) : Option Indexed :=
  match bracketedText? argument.toList with
  | some ('I' :: digit :: rest) =>
      match Text.hexDigit? digit, added? rest with
      | some index, some (addend, offset) =>
          some { index, addend, offset := offset.map String.ofList }
      | _, _ => none
  | _ => none

end ChipAsm.Argument

namespace ChipAsm.OperandKind

/-- Whether an operand of this kind takes the argument. -/
def accepts (kind : OperandKind) (argument : String) : Bool :=
  match kind with
  | immediate =>
      match Text.number? argument with
      | some value => Argument.immediateLow ≤ value && value ≤ Argument.immediateHigh
      | none => false
  | address => Argument.isAddress argument
  | indirectAddress => (Argument.bracketed? argument).any Argument.isAddress
  | register bank => (Argument.registerDigit? bank argument).isSome
  | selected bank => (Argument.selectedDigit? bank argument).isSome
  | stackPointer => argument == "SP"
  | soundTimer => argument == "ST"
  | delayTimer => argument == "DT"
  | indexed => (Argument.indexed? argument).any fun parts =>
      parts.addend.isNone && parts.offset.isNone
  | indexedOffset => (Argument.indexed? argument).any (·.addend.isNone)
  | indexedSum => (Argument.indexed? argument).any (·.addend.isSome)

end ChipAsm.OperandKind
