/-
# Encoding instructions

An opcode accepts an instruction with its mnemonic whose arguments suit its
operands one by one; an opcode of three operands also takes two arguments, of
which the first then counts twice. The word of an accepted instruction is the base
of the opcode with every operand's value in its field and addresses in the low 16
bits. It is asserted that the word then still has the fixed nibbles of the opcode.
-/

import ChipAsm.Opcode.Table
import ChipAsm.Operand.Argument
import ChipAsm.Outcome
import ChipAsm.Symbol

namespace ChipAsm

/-- The value, or the fault if there is none. -/
def demand {α : Type} (fault : Fault) : Option α → Except Fault α
  | some value => .ok value
  | none => .error fault

/-- The value, if it lies between the bounds. -/
def inRange (quantity : Quantity) (low high value : Int) : Except Fault Int :=
  if low ≤ value ∧ value ≤ high then .ok value
  else .error (.outOfRange quantity value low high)

namespace Argument

/-- The address that an argument stands for: its number, or that of its label. -/
def addressValue (symbols : SymbolTable) (argument : String) : Except Fault Int := do
  let value ← match Text.number? argument with
    | some value => pure value
    | none =>
        match symbols.resolve? argument with
        | some address => pure (address.toNat : Int)
        | none => throw (.undefinedLabel argument)
  inRange .address 0 0xFFFF value

/-- The value of the offset of an indexed argument, zero if it has none. -/
def offsetValue (low high : Int) : Option String → Except Fault Int
  | none => .ok 0
  | some text =>
      match Text.number? text with
      | some value => inRange .offset low high value
      | none => .error (.invalidOffset text)

end Argument

namespace Opcode

/-- The arguments of an instruction as the opcode counts them. -/
def normalize (opcode : Opcode) (arguments : List String) : List String :=
  match arguments with
  | [first, second] =>
      if opcode.operands.length = 3 then [first, first, second] else arguments
  | _ => arguments

/-- Whether the opcode accepts the instruction. -/
def accepts (opcode : Opcode) (instruction : Instruction) : Bool :=
  let arguments := opcode.normalize instruction.arguments
  instruction.mnemonic == opcode.mnemonic && arguments.length == opcode.operands.length &&
    (opcode.operands.zip arguments).all fun (operand, argument) => operand.kind.accepts argument

/-- The value in the field of the letter. -/
def put (opcode : Opcode) (letter : Letter) (value : Int) : Word :=
  match opcode.field? letter with
  | some field => field.pack value
  | none => 0

/-- The digit in the field of the letter. -/
def putDigit (opcode : Opcode) (letter : Letter) (digit : Fin 16) : Word :=
  opcode.put letter digit.val

/-- The bits that an argument contributes to the word, where `mismatch` is the
fault of an argument that the operand cannot read. -/
def operandBits (opcode : Opcode) (symbols : SymbolTable) (mismatch : Fault)
    (operand : Operand) (argument : String) : Except Fault Word :=
  match operand with
  | .immediate letter => do
      let value ← demand mismatch (Text.number? argument)
      let value ← inRange .immediate Argument.immediateLow Argument.immediateHigh value
      return opcode.put letter value
  | .address => do
      let value ← Argument.addressValue symbols argument
      return BitVec.ofInt 32 value
  | .indirectAddress => do
      let inner ← demand mismatch (Argument.bracketed? argument)
      let value ← Argument.addressValue symbols inner
      return BitVec.ofInt 32 value
  | .register bank letter => do
      let digit ← demand mismatch (Argument.registerDigit? bank argument)
      return opcode.putDigit letter digit
  | .selected bank letter => do
      let digit ← demand mismatch (Argument.selectedDigit? bank argument)
      return opcode.putDigit letter digit
  | .stackPointer => return 0
  | .soundTimer => return 0
  | .delayTimer => return 0
  | .indexed letter => do
      let parts ← demand mismatch (Argument.indexed? argument)
      return opcode.putDigit letter parts.index
  | .indexedOffset letter => do
      let parts ← demand mismatch (Argument.indexed? argument)
      let offset ← Argument.offsetValue (-128) 127 parts.offset
      return opcode.putDigit letter parts.index ||| opcode.put .n offset
  | .indexedSum letter addendLetter => do
      let parts ← demand mismatch (Argument.indexed? argument)
      let addend ← demand mismatch parts.addend
      let offset ← Argument.offsetValue 0 15 parts.offset
      return opcode.putDigit letter parts.index ||| opcode.putDigit addendLetter addend |||
        opcode.put .n offset

/-- The base of the opcode with the bits of all arguments. Instructions that the opcode
does not accept are mostly refused, but fixed operands such as `SP` are not looked at
again. -/
def compose (opcode : Opcode) (symbols : SymbolTable) (instruction : Instruction) :
    Except Fault Word :=
  let mismatch := Fault.unrecognized instruction.render
  let arguments := opcode.normalize instruction.arguments
  if arguments.length ≠ opcode.operands.length then .error mismatch
  else (opcode.operands.zip arguments).foldlM (fun word (operand, argument) => do
    return word ||| (← opcode.operandBits symbols mismatch operand argument)) opcode.base

/-- The word of the instruction, asserted to have the fixed nibbles of the opcode. -/
def encode (opcode : Opcode) (symbols : SymbolTable) (instruction : Instruction) :
    Except (Halt Fault) Word :=
  match opcode.compose symbols instruction with
  | .error fault => .error (.fault fault)
  | .ok word => if opcode.matchesWord word then .ok word else .error .assertion

end Opcode

namespace OpcodeTable

/-- The first opcode that accepts the instruction. -/
def find? (table : OpcodeTable) (instruction : Instruction) : Option Opcode :=
  table.opcodes.find? (·.accepts instruction)

/-- The word of the instruction by the first opcode that accepts it. -/
def encode (table : OpcodeTable) (symbols : SymbolTable) (instruction : Instruction) :
    Except (Halt Fault) Word :=
  match table.find? instruction with
  | some opcode => opcode.encode symbols instruction
  | none => .error (.fault (.unrecognized instruction.render))

end OpcodeTable

end ChipAsm
