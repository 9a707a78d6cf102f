/-
# Lines with their origin

The preprocessor yields lines of text together with the places from which they
come. Written out as one text, a marker `#line number "file"` stands before each
line that does not directly follow the line before it, so that the places can be
read back.
-/

import ChipAsm.Diagnostic

namespace ChipAsm

/-- A line of text and the place it is reported at. -/
structure SourceLine where
  place : Place
  text : String
  deriving DecidableEq, Repr

namespace Place

/-- The place of the line after this one. -/
def next (place : Place) : Place :=
  { place with line := place.line + 1 }

/-- Whether two places are the same line of the same file. -/
def sameAs (first second : Place) : Bool :=
  first.file.sameAs second.file && first.line == second.line

/-- The marker that moves to this place, or to where the shown name of the file leads. -/
def marker (place : Place) : String :=
  s!"#line {place.line} \"{place.file.shown}\""

end Place

namespace SourceLine

/-- The lines with markers where they are needed, for a reader that takes the first
line to stand at `expected`. -/
def marked (expected : Place) : List SourceLine → List String
  | [] => []
  | line :: rest =>
      if expected.sameAs line.place then line.text :: marked line.place.next rest
      else line.place.marker :: line.text :: marked line.place.next rest

/-- The lines as one text, for a reader that begins at line one of the file. -/
def render (file : Path) (lines : List SourceLine) : String :=
  String.join ((marked { file, line := 1 } lines).map (· ++ "\n"))

end SourceLine

end ChipAsm
