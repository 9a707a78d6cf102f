/-
# Diagnostics

A fault together with the file and line to blame for it.
-/

import ChipAsm.Fault
import ChipAsm.Path

namespace ChipAsm

/-- A line of a source file, counted from one. -/
structure Place where
  file : Path
  line : Nat
  deriving DecidableEq, Repr, Inhabited

/-- A fault and where it was found. A file that cannot be used at all is blamed
without a line. -/
structure Diagnostic where
  file : Path
  line : Option Nat
  fault : Fault
  deriving DecidableEq, Repr

/-- The diagnostic that blames this place. -/
def Place.diagnostic (place : Place) (fault : Fault) : Diagnostic :=
  { file := place.file, line := some place.line, fault }

/-- The diagnostic that blames a file as a whole. -/
def Path.diagnostic (file : Path) (fault : FileFault) : Diagnostic :=
  { file, line := none, fault := .file fault }

/-- The wording of a diagnostic. -/
def Diagnostic.message (diagnostic : Diagnostic) : String :=
  match diagnostic.line with
  | some line => s!"{diagnostic.fault.message}, line {line}, in {diagnostic.file.shown}"
  | none => s!"{diagnostic.fault.message}, in {diagnostic.file.shown}"

end ChipAsm
