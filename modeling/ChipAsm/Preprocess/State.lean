/-
# State of the preprocessor

What all files of a run share: the macros, the lines passed on, the faults found
and a record of what was done.
-/

import ChipAsm.Preprocess.Expansion
import ChipAsm.Preprocess.SourceLine

namespace ChipAsm.Preprocess

/-- Where included files come from. -/
structure Library where
  /-- The text of a file, if it can be read. -/
  load : Path → Option String
  /-- The directories that are searched for included files. -/
  directories : List Path

/-- What the preprocessor did, apart from its result. -/
inductive Event
  | defined (name value : String)
  | looked (path : Path) (found : Bool)
  | included (path : Path)
  deriving DecidableEq, Repr

/-- What all files of a run share. -/
structure State where
  macros : Macros
  lines : Array SourceLine := #[]
  faults : Array Diagnostic := #[]
  events : Array Event := #[]
  deriving Repr

namespace State

/-- Blames a place. -/
def blame (state : State) (place : Place) (fault : PreprocessFault) : State :=
  { state with faults := state.faults.push (place.diagnostic (.preprocess fault)) }

/-- Notes an event. -/
def note (state : State) (event : Event) : State :=
  { state with events := state.events.push event }

/-- Passes on the expansion of a line that stands at `physical` and is reported at
`reported`. -/
def pass (state : State) (physical reported : Place) (text : String) : State :=
  match state.macros.expand text with
  | .ok text => { state with lines := state.lines.push { place := reported, text } }
  | .error fault => state.blame physical (.expansion fault)

/-- Defines a macro. -/
def define (state : State) (place : Place) (name value : String) : State :=
  if name.toList.contains '(' then state.blame place (.macroWithParameters name)
  else if !Text.isName name then state.blame place (.invalidMacroName name)
  else { state.note (.defined name value) with macros := state.macros.define name value }

/-- Undefines a macro. -/
def undefine (state : State) (place : Place) (name : String) : State :=
  if Text.isName name then { state with macros := state.macros.undefine name }
  else state.blame place (.nameExpected "undef")

/-- The text that is passed on, unless there were faults. -/
def result (state : State) (file : Path) : Except (List Diagnostic) String :=
  if state.faults.isEmpty then .ok (SourceLine.render file state.lines.toList)
  else .error state.faults.toList

end State

end ChipAsm.Preprocess
