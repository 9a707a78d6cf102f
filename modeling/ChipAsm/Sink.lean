/-
# Sinks

A sink receives what the instructions of a source do to the output: moving to an
offset, inserting bytes and inserting machine words. A sink that only counts and a
sink that writes can so be driven by the same interpretation of the source, which
keeps the two passes of the assembler in step.
-/

import ChipAsm.Outcome
import ChipAsm.Statement

namespace ChipAsm

/-- The offset just past the address space; nothing is placed there. -/
def imageLimit : Nat := 0x10000

/-- The number of bytes of a machine word in the image. -/
def wordSize : Nat := 3

/-- A receiver of output. -/
class Sink (σ : Type) where
  /-- The offset at which output goes on. -/
  position : σ → Nat
  /-- Moves to an offset. -/
  seek : σ → Nat → σ
  /-- Inserts bytes. -/
  emit : σ → List UInt8 → Outcome Fault σ
  /-- Inserts the machine word of an instruction. -/
  instruction : σ → Instruction → Outcome (Halt Diagnostic) σ

/-- The sink of the first pass, which only counts. -/
structure Counter where
  offset : Nat
  deriving DecidableEq, Repr, Inhabited

instance : Sink Counter where
  position := Counter.offset
  seek _ target := { offset := target }
  emit counter bytes := .done { offset := counter.offset + bytes.length }
  instruction counter _ := .done { offset := counter.offset + wordSize }

end ChipAsm
