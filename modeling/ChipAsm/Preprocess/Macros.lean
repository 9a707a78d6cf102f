/-
# Macros

A macro is a name that stands for a text. Defining a name again replaces its
text.
-/

import ChipAsm.Text.Blank
import ChipAsm.Text.Name

namespace ChipAsm

/-- The macros that are defined, with the texts they stand for. -/
structure Macros where
  entries : List (String × String) := []
  deriving DecidableEq, Repr, Inhabited

namespace Macros

/-- The text that a name stands for. -/
def value? (macros : Macros) (name : String) : Option String :=
  macros.entries.lookup name

/-- Whether the name is defined. -/
def contains (macros : Macros) (name : String) : Bool :=
  (macros.value? name).isSome

/-- Forgets a name. -/
def undefine (macros : Macros) (name : String) : Macros :=
  { entries := macros.entries.filter fun entry => entry.1 != name }

/-- Lets a name stand for a text. -/
def define (macros : Macros) (name value : String) : Macros :=
  { entries := (name, value) :: (macros.undefine name).entries }

/-- The macros of a list of definitions, later ones replacing earlier ones. -/
def ofList (definitions : List (String × String)) : Macros :=
  definitions.foldl (fun macros (name, value) => macros.define name value) {}

/-- Reads a definition of the form `NAME=VALUE`, or `NAME` for the value 1. -/
def readDefinition? (text : String) : Option (String × String) :=
  let (name, value) :=
    match Text.cut? (· == '=') text.toList with
    | some (name, value) => (String.ofList name, String.ofList value)
    | none => (text, "1")
  if Text.isName name then some (name, value) else none

end Macros

end ChipAsm
