/-
# Defining an opcode

A pattern has six cells, most significant first: a hexadecimal digit is fixed,
`_` is ignored, and a letter marks the nibbles of its field, which have to be
neighbours. A format is a mnemonic in capitals and operands parted by commas.
-/

import ChipAsm.Opcode
import ChipAsm.Text.Blank
import ChipAsm.Text.Numeral

namespace ChipAsm

/-- One nibble of a pattern. -/
inductive Cell
  | fixed (digit : Fin 16)
  | slot (letter : Letter)
  | ignored
  deriving DecidableEq, Repr

/-- The cell that the character writes. -/
def Cell.ofChar? (c : Char) : Option Cell :=
  match Text.hexDigit? c, Letter.ofChar? c with
  | some digit, _ => some (fixed digit)
  | none, some letter => some (slot letter)
  | none, none => if c = '_' then some ignored else none

namespace Pattern

/-- The number of nibbles of a pattern. -/
def size : Nat := 6

/-- Whether the character occurs again after its first run. -/
def isSplit (c : Char) (pattern : List Char) : Bool :=
  ((pattern.dropWhile (· != c)).dropWhile (· == c)).contains c

/-- The cell of one character of the pattern, provided that its letter is not
split. -/
def cell (pattern : String) (c : Char) : Except DefinitionFault Cell :=
  match Cell.ofChar? c with
  | none => .error (.patternAlphabet pattern c)
  | some (.slot letter) =>
      if isSplit c pattern.toList then .error (.splitLetter pattern letter)
      else .ok (.slot letter)
  | some other => .ok other

/-- The cells of a pattern. -/
def cells (pattern : String) : Except DefinitionFault (List Cell) :=
  if pattern.toList.length ≠ size then .error (.patternLength pattern)
  else pattern.toList.mapM (cell pattern)

/-- The word that has the given nibbles, most significant first. -/
def wordOf (nibbles : List Nat) : Word :=
  nibbles.foldl (fun word nibble => word <<< 4 ||| BitVec.ofNat 32 nibble) 0

/-- The fixed nibbles of the cells. -/
def base (cells : List Cell) : Word :=
  wordOf (cells.map fun
    | .fixed digit => digit.val
    | _ => 0)

/-- Ones where the cells are fixed. -/
def mask (cells : List Cell) : Word :=
  wordOf (cells.map fun
    | .fixed _ => 0xF
    | _ => 0)

/-- The letters of the cells in the order of their first occurrence. -/
def letters (cells : List Cell) : List Letter :=
  (cells.filterMap fun
    | .slot letter => some letter
    | _ => none).eraseDups

/-- The width of the values of a field of so many nibbles: one, two or four
bytes. -/
def bitsFor (nibbles : Nat) : Nat :=
  if nibbles ≤ 2 then 8 else if nibbles ≤ 4 then 16 else 32

/-- The field of a letter of the cells. -/
def field (cells : List Cell) (letter : Letter) : Field :=
  let nibbles := cells.count (.slot letter)
  { letter, offset := size - 1 - cells.idxOf (.slot letter), nibbles, bits := bitsFor nibbles }

/-- The fields of the cells. -/
def fields (cells : List Cell) : List Field :=
  (letters cells).map (field cells)

end Pattern

namespace Format

/-- The mnemonic of a format and the text of its operands. -/
def split (format : String) : List Char × List Char :=
  let text := Text.trim format.toList
  match Text.cut? (· == ' ') text with
  | some (mnemonic, rest) => (mnemonic, Text.trim rest)
  | none => (text, [])

/-- The operands that a text lists. -/
def operands (text : List Char) : Except DefinitionFault (List Operand) :=
  if text.isEmpty then .ok []
  else (text.splitOn ',').mapM fun operand =>
    Operand.classify (String.ofList (Text.trim operand))

end Format

/-- The opcode with this pattern and format. -/
def Opcode.define (pattern format : String) : Except DefinitionFault Opcode := do
  let cells ← Pattern.cells pattern
  if Pattern.mask cells = 0 then throw (.noFixedNibble pattern)
  let (mnemonic, rest) := Format.split format
  if mnemonic.isEmpty then throw (.emptyFormat pattern)
  if !mnemonic.all Char.isUpper then throw (.lowercaseMnemonic (String.ofList mnemonic))
  let operands ← Format.operands rest
  let fields := Pattern.fields cells
  let bound := fields.map (·.letter)
  match (operands.flatMap Operand.letters).find? fun letter => !bound.contains letter with
  | some letter => throw (.unboundLetter pattern format letter)
  | none =>
      return { pattern, format, mnemonic := String.ofList mnemonic, operands,
               base := Pattern.base cells, mask := Pattern.mask cells, fields }

end ChipAsm
