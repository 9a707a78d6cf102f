/-
# Preprocessing

A file is worked through line by line. Conditional groups choose which lines are
in force; lines in force that are not control lines are expanded and passed on
with the place that is reported for them. An included file is worked through in
its place, with conditional groups of its own but with the same macros. Faults are
collected, and nothing is passed on if there is any.
-/

import ChipAsm.Preprocess.Scan
import ChipAsm.Text.Line

namespace ChipAsm.Preprocess

/-- The paths at which an included file is looked for, in this order. -/
def candidates (library : Library) (including : Path) (target : IncludeTarget) : List Path :=
  let beside := if target.isLocal then including.parent?.toList else []
  (beside ++ library.directories).map (·.join (.ofText target.name))

/-- The first of the paths that can be read, with its text; every attempt is
noted. -/
def find (library : Library) (state : State) : List Path → Option (Path × String) × State
  | [] => (none, state)
  | path :: rest =>
      match library.load path with
      | some source => (some (path, source), state.note (.looked path true))
      | none => find library (state.note (.looked path false)) rest

/-- Works through an included file by `enter`, which is absent if files are already
nested as deep as they may be. -/
def includeFile (library : Library) (enter : Option (Path → String → State → State))
    (place : Place) (target : Option IncludeTarget) (state : State) : State :=
  match enter, target with
  | none, _ => state.blame place .includeTooDeep
  | some _, none => state.blame place .includeForm
  | some enter, some target =>
      match find library state (candidates library place.file target) with
      | (some (path, source), state) => enter path source (state.note (.included path))
      | (none, state) => state.blame place (.includeNotFound target.name)

/-- Obeys a control line. Outside the lines in force only the structure of the
groups matters. -/
def obey (library : Library) (enter : Option (Path → String → State → State)) (place : Place)
    (scan : Scan) (control : Control) : Scan :=
  match control with
  | .opening defined name => scan.openGroup place defined name
  | .otherwise => scan.switchBranch place
  | .closing => scan.closeGroup place
  | .define name value => scan.update fun state => state.define place name value
  | .undefine name => scan.update fun state => state.undefine place name
  | .inclusion target => scan.update (includeFile library enter place target)
  | .position line file => if scan.isActive then scan.move place line file else scan
  | .unknown name => scan.update fun state => state.blame place (.unknownDirective name)

/-- Works through one line. -/
def readLine (library : Library) (enter : Option (Path → String → State → State)) (file : Path)
    (scan : Scan) (numbered : String × Nat) : Scan :=
  let (text, line) := numbered
  let place : Place := { file, line }
  let reported := scan.position.report line
  match Control.ofLine? text with
  | some control => obey library enter place scan control
  | none => scan.update fun state => state.pass place reported text

/-- Works through the lines of one file. -/
def readLines (library : Library) (enter : Option (Path → String → State → State)) (file : Path)
    (source : String) (state : State) : State :=
  let numbered := (Text.lines source).zipIdx 1
  (numbered.foldl (readLine library enter file) (Scan.start file state)).finish file

/-- Works through a file in which files may be included `depth` levels deep. -/
def readFile (library : Library) : (depth : Nat) → Path → String → State → State
  | 0, file, source, state => readLines library none file source state
  | depth + 1, file, source, state =>
      readLines library (some (readFile library depth)) file source state

/-- Works through a source with some macros defined beforehand. -/
def run (library : Library) (macros : Macros) (file : Path) (source : String) : State :=
  readFile library (maxIncludeDepth - 1) file source { macros }

end ChipAsm.Preprocess

namespace ChipAsm

/-- The preprocessed text of a source, or a diagnostic for each fault. -/
def preprocess (library : Preprocess.Library) (macros : Macros) (file : Path) (source : String) :
    Except (List Diagnostic) String :=
  (Preprocess.run library macros file source).result file

end ChipAsm
