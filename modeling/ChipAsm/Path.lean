/-
# Paths of source files

A path is the bytes that name it, as they were written. They need not be a text, so
messages and position markers print the text that shows them. Two paths name the same
place if their components agree: doubled and trailing slashes and inner `.` pieces do
not count, a leading `.` does, and `..` is a name like any other. No file system is
consulted here.
-/

import ChipAsm.Text.Utf8

namespace ChipAsm

/-- A path as it was written. -/
structure Path where
  bytes : List UInt8
  deriving DecidableEq, Repr, Inhabited

namespace Path

/-- The path that a text spells. -/
def ofText (text : String) : Path := ⟨Text.utf8 text⟩

/-- The text that shows the path. It spells the path if any text does. -/
def shown (path : Path) : String := Text.lossy path.bytes

/-- What parts the pieces of a path. -/
def slash : UInt8 := 0x2F

/-- The piece that stays where it is, and one half of the piece that leads out. -/
def dot : UInt8 := 0x2E

/-- One step of a path. The step `here` occurs only at the beginning. -/
inductive Component
  | root
  | here
  | name (bytes : List UInt8)
  deriving DecidableEq, Repr

/-- Whether a piece between slashes names something. -/
def isNamePiece (piece : List UInt8) : Bool :=
  piece != [] && piece != [dot]

/-- The leading root or `.` of a path, and the bytes after it. -/
def splitLead (bytes : List UInt8) : Option Component × List UInt8 :=
  let body := bytes.tail
  if bytes.head? = some slash then (some .root, body)
  else if bytes.head? = some dot ∧ (body = [] ∨ body.head? = some slash) then (some .here, body)
  else (none, bytes)

/-- The steps of a path. -/
def components (path : Path) : List Component :=
  let (lead, body) := splitLead path.bytes
  lead.toList ++ ((body.splitOn slash).filter isNamePiece).map .name

/-- Whether two paths have the same components. -/
def sameAs (first second : Path) : Bool :=
  first.components == second.components

/-- Whether the path begins at the root. -/
def isAbsolute (path : Path) : Bool :=
  path.bytes.head? == some slash

/-- The pieces up to the last one that names something. -/
def dropUnnamed (pieces : List (List UInt8)) : List (List UInt8) :=
  (pieces.reverse.dropWhile fun piece => !isNamePiece piece).reverse

/-- The bytes of the leading component. -/
def leadBytes : Option Component → List UInt8
  | some .root => [slash]
  | some .here => [dot]
  | _ => []

/-- The path without its last component, spelled as in the path itself. The empty
path and the root have no parent. -/
def parent? (path : Path) : Option Path :=
  let (lead, body) := splitLead path.bytes
  match dropUnnamed (body.splitOn slash) with
  | [] => if lead = some .here then some ⟨[]⟩ else none
  | pieces =>
      let rest := dropUnnamed pieces.dropLast
      some ⟨leadBytes lead ++ List.intercalate [slash] rest⟩

/-- The path `name` as seen from the directory `dir`. -/
def join (dir name : Path) : Path :=
  if name.isAbsolute then name
  else if dir.bytes.isEmpty || dir.bytes.getLast? == some slash then
    ⟨dir.bytes ++ name.bytes⟩
  else ⟨dir.bytes ++ slash :: name.bytes⟩

end Path

end ChipAsm
