/-
# File trees

A model of the files that a run can see, seen from its working directory. A file is
found by the names that lead to it; a directory exists if a file lies below it, and
the working directory and those above it always exist. Paths are followed piece by
piece, as written. What lies below the root is unknown, except for the null device,
which holds nothing and keeps nothing.
-/

import ChipAsm.Diagnostic

namespace ChipAsm.Command

/-- One step on the way to a file. -/
abbrev Name := List UInt8

/-- The contents of a file. -/
abbrev Contents := Array UInt8

/-- The files that can be seen, by the names that lead to them. -/
structure FileTree where
  files : List (List Name × Contents)
  deriving DecidableEq, Repr, Inhabited

/-- What names lead to. -/
inductive Node
  | directory
  | file (contents : Contents)
  | absent
  deriving DecidableEq, Repr

namespace FileTree

/-- The names at which an absolute path begins. No piece of a path holds a slash, so
they lead to nothing else. -/
def root : List Name := [[Path.slash]]

/-- The names that lead to the null device. -/
def nullDevice : List Name := root ++ [Text.utf8 "dev", Text.utf8 "null"]

/-- The piece that leads to the directory above. -/
def outward : Name := [Path.dot, Path.dot]

/-- What is found at the end of the names. The names `..` lead out of the working
directory. -/
def node (tree : FileTree) (names : List Name) : Node :=
  match ((nullDevice, #[]) :: tree.files).lookup names with
  | some contents => .file contents
  | none =>
      if names.all (· == outward) || names.isPrefixOf nullDevice
          || tree.files.any (fun file => names.isPrefixOf file.1) then
        .directory
      else .absent

/-- The names of the directory above. The root is above itself. -/
def above (names : List Name) : List Name :=
  if names = root then root
  else match names.getLast? with
    | none => [outward]
    | some last => if last = outward then names ++ [outward] else names.dropLast

/-- The number of bytes that a name can have. -/
def nameLimit : Nat := 255

/-- The number of bytes that a whole path can have. -/
def pathLimit : Nat := 4095

/-- Goes from a directory along one piece of a path. -/
def descend (tree : FileTree) (names : List Name) (piece : Name) :
    Except FileFault (List Name) :=
  match tree.node names with
  | .absent => .error .notFound
  | .file _ => .error .notDirectory
  | .directory =>
      if piece = [] || piece = [Path.dot] then .ok names
      else if piece = outward then .ok (above names)
      else if nameLimit < piece.length then .error .nameTooLong
      else .ok (names ++ [piece])

/-- The pieces of a path between its slashes. -/
def piecesOf (path : Path) : List Name :=
  path.bytes.splitOn Path.slash

/-- The names at which a path begins. -/
def start (path : Path) : Except FileFault (List Name) :=
  if path.bytes.isEmpty then .error .notFound
  else if pathLimit < path.bytes.length then .error .nameTooLong
  else .ok (if path.isAbsolute then root else [])

/-- The names to which a path leads. -/
def resolve (tree : FileTree) (path : Path) : Except FileFault (List Name) := do
  (piecesOf path).foldlM tree.descend (← start path)

/-- The contents of the file at a path. -/
def read (tree : FileTree) (path : Path) : Except FileFault Contents := do
  match tree.node (← tree.resolve path) with
  | .file contents => return contents
  | .directory => throw .isDirectory
  | .absent => throw .notFound

/-- The text of the file at a path. -/
def readText (tree : FileTree) (path : Path) : Except FileFault String := do
  let contents ← tree.read path
  match String.fromUTF8? ⟨contents⟩ with
  | some text => return text
  | none => throw .notText

/-- The tree with a file replaced or added. -/
def put (tree : FileTree) (names : List Name) (contents : Contents) : FileTree :=
  { files := (names, contents) :: tree.files.filter fun file => file.1 != names }

/-- The tree with a file of the working directory added, whose directories need not
exist. -/
def add (tree : FileTree) (path : Path) (contents : Contents) : FileTree :=
  tree.put ((piecesOf path).filter Path.isNamePiece) contents

/-- Writes a file. It may be new, but its directory has to exist, and a path that
ends in a slash names no file. -/
def write (tree : FileTree) (path : Path) (contents : Contents) :
    Except FileFault FileTree := do
  let start ← start path
  let pieces := piecesOf path
  let named := (pieces.reverse.dropWhile (· == [])).reverse
  if named.length < pieces.length && !named.isEmpty then
    let directory ← named.dropLast.foldlM tree.descend start
    let _ ← tree.descend directory []
    throw .isDirectory
  else
    let names ← pieces.foldlM tree.descend start
    match tree.node names with
    | .directory => throw .isDirectory
    | _ => return if names = nullDevice then tree else tree.put names contents

/-- The files in the working directory and below it. -/
def workingFiles (tree : FileTree) : List (List Name × Contents) :=
  tree.files.filter fun file => file.1.head? != some outward && file.1.head? != root.head?

end FileTree

end ChipAsm.Command
