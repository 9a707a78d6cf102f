/-
# Operands of a format

A format such as `LD Nx, [Iy+n]` lists the operands that an instruction takes.
Letters stand for the values that the arguments supply, and the pattern of the
opcode says where in the machine word each letter goes.
-/

import ChipAsm.DefinitionFault

namespace ChipAsm

/-- The three banks of registers: `N` holds bytes, `B` pairs of bytes and `I`
indices. -/
inductive Bank
  | n
  | b
  | i
  deriving DecidableEq, Repr

namespace Bank

/-- The character in front of the digit of a register. -/
def char : Bank → Char
  | n => 'N'
  | b => 'B'
  | i => 'I'

/-- The bank that the character announces. -/
def ofChar? : Char → Option Bank
  | 'N' => some n
  | 'B' => some b
  | 'I' => some i
  | _ => none

end Bank

/-- What an operand accepts, whatever letters it binds. A selected register is
one of its bank whose number is the content of an `N` register. -/
inductive OperandKind
  | immediate
  | address
  | indirectAddress
  | register (bank : Bank)
  | selected (bank : Bank)
  | stackPointer
  | indexed
  | indexedOffset
  | indexedSum
  | soundTimer
  | delayTimer
  deriving DecidableEq, Repr

/-- An operand of a format with the letters it binds. The offset of the last two
indexed forms is always bound to the letter `n`. -/
inductive Operand
  /-- A byte, such as `n`. -/
  | immediate (value : Letter)
  /-- A number or a label, `addr`. -/
  | address
  /-- The content of an address, `[addr]`. -/
  | indirectAddress
  /-- A register, such as `Nx`. -/
  | register (bank : Bank) (digit : Letter)
  /-- A selected register, such as `B(Nx)`. -/
  | selected (bank : Bank) (digit : Letter)
  /-- The stack pointer, `SP`. -/
  | stackPointer
  /-- The content at an index, such as `[Iy]`. -/
  | indexed (index : Letter)
  /-- The content at an index and an offset, such as `[Iy+n]`. -/
  | indexedOffset (index : Letter)
  /-- The content at a sum of registers and an offset, such as `[Iy+Bz+n]`. -/
  | indexedSum (index addend : Letter)
  /-- The sound timer, `ST`. -/
  | soundTimer
  /-- The delay timer, `DT`. -/
  | delayTimer
  deriving DecidableEq, Repr

namespace Operand

/-- What the operand accepts. -/
def kind : Operand → OperandKind
  | immediate _ => .immediate
  | address => .address
  | indirectAddress => .indirectAddress
  | register bank _ => .register bank
  | selected bank _ => .selected bank
  | stackPointer => .stackPointer
  | indexed _ => .indexed
  | indexedOffset _ => .indexedOffset
  | indexedSum _ _ => .indexedSum
  | soundTimer => .soundTimer
  | delayTimer => .delayTimer

/-- The letter of the value or of the first register. -/
def mainLetter? : Operand → Option Letter
  | immediate letter => some letter
  | register _ letter => some letter
  | selected _ letter => some letter
  | indexed letter => some letter
  | indexedOffset letter => some letter
  | indexedSum letter _ => some letter
  | _ => none

/-- The letter of the second register. -/
def addendLetter? : Operand → Option Letter
  | indexedSum _ letter => some letter
  | _ => none

/-- The letter of the offset. -/
def offsetLetter? : Operand → Option Letter
  | indexedOffset _ => some .n
  | indexedSum _ _ => some .n
  | _ => none

/-- Every letter that the operand needs in the pattern. -/
def letters (operand : Operand) : List Letter :=
  operand.mainLetter?.toList ++ operand.addendLetter?.toList ++ operand.offsetLetter?.toList

/-- The operands that bind no letter, by their spelling. -/
def plainOperands : List (String × Operand) :=
  [("addr", address), ("[addr]", indirectAddress), ("ST", soundTimer), ("DT", delayTimer),
    ("SP", stackPointer)]

/-- The operand with this letter for its index register, given the rest of its brackets. -/
def ofIndexed? (index : Letter) : List Char → Option Operand
  | [']'] => some (indexed index)
  | ['+', 'n', ']'] => some (indexedOffset index)
  | ['+', 'B', addend, '+', 'n', ']'] => (Letter.ofChar? addend).map (indexedSum index)
  | _ => none

/-- The operand with letters that is spelled so. -/
def ofLettered? : List Char → Option Operand
  | [value] => (Letter.ofChar? value).map immediate
  | [bank, digit] => do some (register (← Bank.ofChar? bank) (← Letter.ofChar? digit))
  | ['B', '(', 'N', digit, ')'] => (Letter.ofChar? digit).map (selected .b)
  | ['I', '(', 'N', digit, ')'] => (Letter.ofChar? digit).map (selected .i)
  | '[' :: 'I' :: index :: rest => do ofIndexed? (← Letter.ofChar? index) rest
  | _ => none

/-- The operand that is spelled so. -/
def ofText? (text : String) : Option Operand :=
  match plainOperands.lookup text with
  | some operand => some operand
  | none => ofLettered? text.toList

/-- Whether brackets and parentheses are opened as often as they are closed. -/
def isBalanced (text : String) : Bool :=
  text.toList.count '[' == text.toList.count ']' && text.toList.count '(' == text.toList.count ')'

/-- The operand that is spelled so, or what is wrong with the spelling. -/
def classify (text : String) : Except DefinitionFault Operand :=
  if !isBalanced text then .error (.unbalanced text)
  else match ofText? text with
    | some operand => .ok operand
    | none => .error (.unknownOperand text)

end Operand

end ChipAsm
