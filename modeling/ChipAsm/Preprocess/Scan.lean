/-
# Work on one file

Conditional groups and reported positions belong to one file. Groups nest; the
innermost one says whether lines are in force.
-/

import ChipAsm.Preprocess.Control
import ChipAsm.Preprocess.State

namespace ChipAsm.Preprocess

/-- An open conditional group. -/
structure Condition where
  /-- Whether the lines of the current branch are in force. -/
  active : Bool
  /-- Whether the lines around the group are in force. -/
  parentActive : Bool
  seenElse : Bool
  /-- The line that opened the group. -/
  line : Nat
  deriving DecidableEq, Repr

/-- How lines of a file are reported: line `anchor` of the file as line `base` of
the file `file`, and so on from there. -/
structure Position where
  file : Path
  base : Nat
  anchor : Nat
  deriving DecidableEq, Repr

/-- The place that is reported for a line. -/
def Position.report (position : Position) (line : Nat) : Place :=
  { file := position.file, line := position.base + (line - position.anchor) }

/-- The work on one file. -/
structure Scan where
  /-- The open groups, the innermost first. -/
  conditions : List Condition
  position : Position
  state : State
  deriving Repr

namespace Scan

/-- The work before the first line. -/
def start (file : Path) (state : State) : Scan :=
  { conditions := [], position := { file, base := 1, anchor := 1 }, state }

/-- Whether lines are in force. -/
def isActive (scan : Scan) : Bool :=
  match scan.conditions with
  | [] => true
  | innermost :: _ => innermost.active

/-- Blames a place. -/
def blame (scan : Scan) (place : Place) (fault : PreprocessFault) : Scan :=
  { scan with state := scan.state.blame place fault }

/-- Does something that only lines in force do. -/
def update (scan : Scan) (act : State → State) : Scan :=
  if scan.isActive then { scan with state := act scan.state } else scan

/-- Opens a group. A name that is no macro name is blamed, yet the group is open. -/
def openGroup (scan : Scan) (place : Place) (defined : Bool) (name : String) : Scan :=
  let active := scan.isActive
  let chosen := scan.state.macros.contains name == defined
  let scan := if Text.isName name then scan
    else scan.blame place (.nameExpected (Control.openingName defined))
  let condition := { active := active && chosen, parentActive := active, seenElse := false,
                     line := place.line }
  { scan with conditions := condition :: scan.conditions }

/-- Turns to the other branch of the innermost group. -/
def switchBranch (scan : Scan) (place : Place) : Scan :=
  match scan.conditions with
  | [] => scan.blame place .strayElse
  | innermost :: outer =>
      if innermost.seenElse then scan.blame place .secondElse
      else
        let other := { innermost with
          seenElse := true, active := innermost.parentActive && !innermost.active }
        { scan with conditions := other :: outer }

/-- Closes the innermost group. -/
def closeGroup (scan : Scan) (place : Place) : Scan :=
  match scan.conditions with
  | [] => scan.blame place .strayEndif
  | _ :: outer => { scan with conditions := outer }

/-- Lets the lines after this one be reported elsewhere. -/
def move (scan : Scan) (place : Place) (line : Option Nat) (file : Option Path) : Scan :=
  match line with
  | none => scan.blame place .lineNumberExpected
  | some base =>
      { scan with position :=
          { file := file.getD scan.position.file, base, anchor := place.line + 1 } }

/-- Blames the innermost group that is still open at the end of the file. -/
def finish (scan : Scan) (file : Path) : State :=
  match scan.conditions with
  | [] => scan.state
  | innermost :: _ => scan.state.blame { file, line := innermost.line } .unterminatedCondition

end Scan

end ChipAsm.Preprocess
