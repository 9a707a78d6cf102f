/-
# Encoding in pieces

Encoding does two things to an argument: it reads numbers from the text, and it puts
each number into its place in the word. Here the two are separated. `Operand.evaluate`
reads the numbers, paired with the slots they are meant for, and knows nothing of any
word; `Opcode.combine` puts such pieces into a word, and knows nothing of any text. The
word that is composed is the composition of the two (`Opcode.compose_eq`), and the encoder
only adds its assertion about it.

What an argument can be refused for is thereby a matter of `evaluate` alone.
-/

import ChipAsm.Encoding
import ChipAsm.Proofs.Except

namespace ChipAsm

/-- Where in a word a number of an argument goes. -/
inductive Slot
  /-- The field of a letter. -/
  | field (letter : Letter)
  /-- The low 16 bits. -/
  | address
  deriving DecidableEq, Repr

namespace Argument

/-- The number that an address stands for, whether or not it is in range: that of a
numeral, or else that of a label. -/
def address? (symbols : SymbolTable) (text : String) : Option Int :=
  match Text.number? text with
  | some value => some value
  | none => (symbols.resolve? text).map fun address => (address.toNat : Int)

theorem addressValue_eq (symbols : SymbolTable) (text : String) :
    addressValue symbols text =
      match address? symbols text with
      | some value => inRange .address 0 0xFFFF value
      | none => .error (.undefinedLabel text) := by
  unfold addressValue address?
  cases Text.number? text with
  | some value => rfl
  | none =>
      cases symbols.resolve? text with
      | some address => rfl
      | none => rfl

end Argument

namespace Operand

/-- The places of the numbers that an argument for the operand supplies. -/
def slots : Operand → List Slot
  | address => [.address]
  | indirectAddress => [.address]
  | operand => operand.letters.map .field

/-- The numbers that an argument supplies, each with its place, where `mismatch` is the
fault of an argument that the operand cannot read. -/
def evaluate (symbols : SymbolTable) (mismatch : Fault) (operand : Operand) (argument : String) :
    Except Fault (List (Slot × Int)) :=
  match operand with
  | immediate letter => do
      let value ← demand mismatch (Text.number? argument)
      let value ← inRange .immediate Argument.immediateLow Argument.immediateHigh value
      return [(.field letter, value)]
  | address => do
      let value ← Argument.addressValue symbols argument
      return [(.address, value)]
  | indirectAddress => do
      let inner ← demand mismatch (Argument.bracketed? argument)
      let value ← Argument.addressValue symbols inner
      return [(.address, value)]
  | register bank letter => do
      let digit ← demand mismatch (Argument.registerDigit? bank argument)
      return [(.field letter, digit.val)]
  | selected bank letter => do
      let digit ← demand mismatch (Argument.selectedDigit? bank argument)
      return [(.field letter, digit.val)]
  | stackPointer => return []
  | soundTimer => return []
  | delayTimer => return []
  | indexed letter => do
      let parts ← demand mismatch (Argument.indexed? argument)
      return [(.field letter, parts.index.val)]
  | indexedOffset letter => do
      let parts ← demand mismatch (Argument.indexed? argument)
      let offset ← Argument.offsetValue (-128) 127 parts.offset
      return [(.field letter, parts.index.val), (.field .n, offset)]
  | indexedSum letter addendLetter => do
      let parts ← demand mismatch (Argument.indexed? argument)
      let addend ← demand mismatch parts.addend
      let offset ← Argument.offsetValue 0 15 parts.offset
      return [(.field letter, parts.index.val), (.field addendLetter, addend.val),
        (.field .n, offset)]

end Operand

namespace Opcode

/-- A number in its place. -/
def putIn (opcode : Opcode) : Slot → Int → Word
  | .field letter, value => opcode.put letter value
  | .address, value => BitVec.ofInt 32 value

/-- The word with further numbers in their places. -/
def combine (opcode : Opcode) (word : Word) (pieces : List (Slot × Int)) : Word :=
  pieces.foldl (fun word piece => word ||| opcode.putIn piece.1 piece.2) word

@[simp]
theorem combine_nil (opcode : Opcode) (word : Word) : opcode.combine word [] = word := rfl

@[simp]
theorem combine_cons (opcode : Opcode) (word : Word) (piece : Slot × Int)
    (pieces : List (Slot × Int)) :
    opcode.combine word (piece :: pieces) =
      opcode.combine (word ||| opcode.putIn piece.1 piece.2) pieces := rfl

theorem combine_append (opcode : Opcode) (word : Word) (first second : List (Slot × Int)) :
    opcode.combine word (first ++ second) = opcode.combine (opcode.combine word first) second :=
  List.foldl_append

/-- Pieces can be collected first and added to a word later. -/
theorem or_combine (opcode : Opcode) (word other : Word) (pieces : List (Slot × Int)) :
    word ||| opcode.combine other pieces = opcode.combine (word ||| other) pieces := by
  induction pieces generalizing other with
  | nil => rfl
  | cons piece rest ih => rw [combine_cons, combine_cons, ih, BitVec.or_assoc]

/-- The bits of an argument are its numbers in their places. -/
theorem operandBits_eq (opcode : Opcode) (symbols : SymbolTable) (mismatch : Fault)
    (operand : Operand) (argument : String) :
    opcode.operandBits symbols mismatch operand argument =
      opcode.combine 0#32 <$> operand.evaluate symbols mismatch argument := by
  cases operand <;>
    simp [operandBits, Operand.evaluate, putIn, putDigit]

/-- Adding the bits of one argument after the other is reading all arguments, up to the
first that is refused, and then adding all their numbers. -/
theorem foldlM_operandBits_eq (opcode : Opcode) (symbols : SymbolTable) (mismatch : Fault)
    (word : Word) (pairs : List (Operand × String)) :
    pairs.foldlM (fun word (operand, argument) => do
        return word ||| (← opcode.operandBits symbols mismatch operand argument)) word =
      (fun pieces => opcode.combine word pieces.flatten) <$>
        pairs.mapM fun pair => pair.1.evaluate symbols mismatch pair.2 := by
  induction pairs generalizing word with
  | nil => rfl
  | cons pair rest ih =>
      simp only [operandBits_eq] at ih
      simp only [List.foldlM_cons, List.mapM_cons, operandBits_eq]
      cases pair.1.evaluate symbols mismatch pair.2 with
      | error fault => rfl
      | ok pieces =>
          have added : word ||| opcode.combine 0#32 pieces = opcode.combine word pieces := by
            rw [or_combine, BitVec.or_zero]
          calc
            _ = (fun pieces => opcode.combine (word ||| opcode.combine 0#32 _) pieces.flatten) <$>
                rest.mapM fun pair => pair.1.evaluate symbols mismatch pair.2 := ih _
            _ = _ := by
              rw [added]
              cases rest.mapM fun pair => pair.1.evaluate symbols mismatch pair.2 with
              | error fault => rfl
              | ok others =>
                  exact congrArg Except.ok (opcode.combine_append word pieces others.flatten).symm

/-- The numbers of all arguments of an instruction, argument by argument. -/
def evaluate (opcode : Opcode) (symbols : SymbolTable) (instruction : Instruction) :
    Except Fault (List (List (Slot × Int))) :=
  (opcode.operands.zip (opcode.normalize instruction.arguments)).mapM fun pair =>
    pair.1.evaluate symbols (.unrecognized instruction.render) pair.2

/-- Composing a word reads the arguments, if their count is right, and puts all their numbers
into the base of the opcode. -/
theorem compose_eq (opcode : Opcode) (symbols : SymbolTable) (instruction : Instruction) :
    opcode.compose symbols instruction =
      if (opcode.normalize instruction.arguments).length ≠ opcode.operands.length then
        .error (.unrecognized instruction.render)
      else (fun pieces => opcode.combine opcode.base pieces.flatten) <$>
        opcode.evaluate symbols instruction := by
  rw [evaluate, ← foldlM_operandBits_eq]
  rfl

section

variable {opcode : Opcode} {symbols : SymbolTable} {instruction : Instruction} {word : Word}

/-- A word is composed exactly if all arguments can be read, one for each operand, and then
it is the base of the opcode with all their numbers. -/
theorem compose_eq_ok_iff :
    opcode.compose symbols instruction = .ok word ↔
      (opcode.normalize instruction.arguments).length = opcode.operands.length ∧
      ∃ pieces, opcode.evaluate symbols instruction = .ok pieces ∧
        opcode.combine opcode.base pieces.flatten = word := by
  rw [compose_eq]
  by_cases count : (opcode.normalize instruction.arguments).length = opcode.operands.length
  · rw [if_neg (not_not_intro count)]
    cases opcode.evaluate symbols instruction with
    | error fault => simp
    | ok pieces => simp [count]
  · simp [count]

/-- An instruction has a word exactly if one is composed that has the fixed nibbles. -/
theorem encode_eq_ok_iff :
    opcode.encode symbols instruction = .ok word ↔
      opcode.compose symbols instruction = .ok word ∧ opcode.matchesWord word = true := by
  unfold encode
  cases opcode.compose symbols instruction with
  | error fault => simp
  | ok composed =>
      by_cases fixed : opcode.matchesWord composed = true
      · simp only [if_pos fixed, Except.ok.injEq]
        constructor
        · rintro rfl
          exact ⟨rfl, fixed⟩
        · rintro ⟨same, -⟩
          exact same
      · simp only [if_neg fixed, Except.ok.injEq]
        constructor
        · rintro ⟨⟩
        · rintro ⟨rfl, kept⟩
          exact absurd kept fixed

/-- The encoder reports the faults of composing the word and no others. -/
theorem encode_eq_fault_iff {fault : Fault} :
    opcode.encode symbols instruction = .error (.fault fault) ↔
      opcode.compose symbols instruction = .error fault := by
  unfold encode
  cases opcode.compose symbols instruction with
  | error reason => simp
  | ok composed => by_cases fixed : opcode.matchesWord composed = true <;> simp [fixed]

/-- The assertion of the encoder fails exactly if the composed word has lost a fixed nibble. -/
theorem encode_eq_assertion_iff :
    opcode.encode symbols instruction = .error .assertion ↔
      ∃ word, opcode.compose symbols instruction = .ok word ∧ opcode.matchesWord word = false := by
  unfold encode
  cases opcode.compose symbols instruction with
  | error reason => simp
  | ok composed => by_cases fixed : opcode.matchesWord composed = true <;> simp [fixed]

end

end Opcode

end ChipAsm
