/-
# Assembling statements

Assembly takes two passes. The first counts offsets and binds every label to the
offset at which its statement starts; the second writes the image, encoding
instructions with all labels known, and lists it. The image is loaded at address
zero.
-/

import ChipAsm.Listing
import ChipAsm.Placement

namespace ChipAsm

/-- The state of the first pass. -/
structure Binder where
  symbols : SymbolTable := {}
  counter : Counter := { offset := 0 }
  deriving Repr

namespace Binder

/-- Binds a label to the current offset. -/
def bind (binder : Binder) (label : Label) : Outcome (Halt Diagnostic) Binder :=
  match binder.symbols.define label binder.counter.offset with
  | .ok symbols => .done { binder with symbols }
  | .error diagnostic => .stopped binder (.fault diagnostic)

/-- Counts what an instruction places. -/
def count (binder : Binder) (instruction : Instruction) : Outcome (Halt Diagnostic) Binder :=
  (instruction.perform binder.counter).map fun counter => { binder with counter }

/-- Takes account of a statement. -/
def step (binder : Binder) : Statement → Outcome (Halt Diagnostic) Binder
  | .label label => binder.bind label
  | .instruction (some label) body => (binder.bind label).andThen (·.count body)
  | .instruction none body => binder.count body

end Binder

/-- The first pass. -/
def bindSymbols (statements : List Statement) : Outcome (Halt Diagnostic) Binder :=
  Outcome.run Binder.step {} statements

/-- The state of the second pass. -/
structure Writer where
  output : Output
  listing : Array ListingEntry := #[]
  deriving Repr

namespace Writer

/-- Lists the statement that was just placed. -/
def list (writer : Writer) (statement : Statement) : Writer :=
  let (entry, output) := writer.output.record statement
  { output, listing := writer.listing.push entry }

/-- Places and lists a statement. -/
def step (writer : Writer) (statement : Statement) : Outcome (Halt Diagnostic) Writer :=
  let output := writer.output.begin
  let listing := writer.listing
  let placed : Outcome (Halt Diagnostic) Output :=
    match statement with
    | .label _ => .done output
    | .instruction _ body => body.perform output
  (placed.map fun output => ({ output, listing } : Writer)).andThen
    fun writer => .done (writer.list statement)

end Writer

/-- The second pass, for an image of the given size. -/
def writeImage (table : OpcodeTable) (symbols : SymbolTable) (size : Nat)
    (statements : List Statement) : Outcome (Halt Diagnostic) Writer :=
  Outcome.run Writer.step { output := Output.ofSize table symbols size } statements

/-- What assembling yields. -/
structure Assembly where
  image : Array UInt8
  symbols : SymbolTable
  listing : List ListingEntry
  deriving Repr

/-- How far the two passes went, with the state of each. -/
inductive Passes
  /-- The first pass stopped. -/
  | unbound (binder : Binder) (halt : Halt Diagnostic)
  /-- The second pass stopped, or did not end at the size of the image. -/
  | unwritten (binder : Binder) (writer : Writer) (halt : Halt Diagnostic)
  /-- Both passes went through. -/
  | complete (binder : Binder) (writer : Writer)

namespace Passes

/-- Runs the passes over the statements. The second pass is asserted to end where the first
one did. -/
def run (table : OpcodeTable) (statements : List Statement) : Passes :=
  match bindSymbols statements with
  | ⟨binder, some halt⟩ => unbound binder halt
  | ⟨binder, none⟩ =>
      match writeImage table binder.symbols binder.counter.offset statements with
      | ⟨writer, some halt⟩ => unwritten binder writer halt
      | ⟨writer, none⟩ =>
          if writer.output.cursor = binder.counter.offset then complete binder writer
          else unwritten binder writer .assertion

/-- The assembly, if both passes went through. -/
def result : Passes → Except (Halt Diagnostic) Assembly
  | unbound _ halt => .error halt
  | unwritten _ _ halt => .error halt
  | complete binder writer =>
      .ok { image := writer.output.image, symbols := binder.symbols,
            listing := writer.listing.toList }

end Passes

/-- Assembles statements. -/
def assemble (table : OpcodeTable) (statements : List Statement) :
    Except (Halt Diagnostic) Assembly :=
  (Passes.run table statements).result

end ChipAsm
