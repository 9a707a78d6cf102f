/-
# The image

The sink of the second pass. It writes into an image whose size the first pass has
found, and remembers what was written since the last listing entry.
-/

import ChipAsm.Encoding
import ChipAsm.Sink

namespace ChipAsm

/-- The image under construction. -/
structure Output where
  table : OpcodeTable
  symbols : SymbolTable
  image : Array UInt8
  /-- The offset at which output goes on. -/
  cursor : Nat := 0
  /-- The offset at which the current statement began. -/
  origin : Nat := 0
  /-- Where the current statement wrote first. -/
  start : Option Nat := none
  /-- What the current statement wrote. -/
  trace : Array UInt8 := #[]
  /-- The words of all instructions encoded so far. -/
  words : Array (Instruction × Word) := #[]
  deriving Repr

/-- The bytes of a machine word, the most significant first. -/
def Word.bytes (word : Word) : List UInt8 :=
  [UInt8.ofNat (word.toNat / 0x10000), UInt8.ofNat (word.toNat / 0x100), UInt8.ofNat word.toNat]

/-- The image with bytes written from an offset on. Bytes past the end of the image
are lost. -/
def writeAt (image : Array UInt8) (offset : Nat) : List UInt8 → Array UInt8
  | [] => image
  | byte :: rest => writeAt (image.setIfInBounds offset byte) (offset + 1) rest

namespace Output

/-- An output of `size` zero bytes. -/
def ofSize (table : OpcodeTable) (symbols : SymbolTable) (size : Nat) : Output :=
  { table, symbols, image := Array.replicate size 0 }

/-- Writes bytes at the cursor, all or none of them. -/
def emit (output : Output) (bytes : List UInt8) : Outcome Fault Output :=
  let stop := output.cursor + bytes.length
  if stop ≤ output.image.size then
    .done { output with
      image := writeAt output.image output.cursor bytes
      cursor := stop
      start := some (output.start.getD output.cursor)
      trace := output.trace ++ bytes }
  else
    let size := output.image.size
    .stopped output (.outOfRange .writeOffset (signedOffset stop) 0 (signedOffset size))

/-- Encodes an instruction and writes its word. -/
def instruction (output : Output) (instruction : Instruction) :
    Outcome (Halt Diagnostic) Output :=
  match output.table.encode output.symbols instruction with
  | .error halt => .stopped output (halt.map instruction.diagnostic)
  | .ok word =>
      let noted := { output with words := output.words.push (instruction, word) }
      (noted.emit (Word.bytes word)).explain fun fault => .fault (instruction.diagnostic fault)

instance : Sink Output where
  position := Output.cursor
  seek output target := { output with cursor := target }
  emit := Output.emit
  instruction := Output.instruction

end Output

end ChipAsm
