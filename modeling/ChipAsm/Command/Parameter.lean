/-
# Parameters of the command

What can be given on the command line, under which names, and what can be wrong
with a command line. Arguments are bytes, as paths are; only definitions have to be
texts.
-/

import ChipAsm.Text.Utf8

namespace ChipAsm.Command

/-- What can be given on the command line. -/
inductive Parameter
  | verbose
  | preprocessOnly
  | output
  | listing
  | definition
  | directory
  | input
  deriving DecidableEq, Repr

namespace Parameter

/-- Whether the parameter has a value. -/
def takesValue : Parameter → Bool
  | verbose => false
  | preprocessOnly => false
  | _ => true

/-- Whether it matters how often the parameter is given. -/
def isCounted : Parameter → Bool
  | verbose => true
  | _ => false

/-- Whether the parameter can be given once only. -/
def isSingle : Parameter → Bool
  | preprocessOnly => true
  | output => true
  | listing => true
  | _ => false

end Parameter

/-- What an option name asks for. -/
inductive OptionName
  | parameter (parameter : Parameter)
  | help
  | version
  deriving DecidableEq, Repr

namespace OptionName

/-- The option with a long name. -/
def ofLong? : String → Option OptionName
  | "verbose" => some (parameter .verbose)
  | "out" => some (parameter .output)
  | "list" => some (parameter .listing)
  | "define" => some (parameter .definition)
  | "include" => some (parameter .directory)
  | "preprocess-only" => some (parameter .preprocessOnly)
  | "help" => some help
  | "version" => some version
  | _ => none

/-- The option with a short name. -/
def ofShort? : Char → Option OptionName
  | 'v' => some (parameter .verbose)
  | 'o' => some (parameter .output)
  | 'l' => some (parameter .listing)
  | 'D' => some (parameter .definition)
  | 'I' => some (parameter .directory)
  | 'E' => some (parameter .preprocessOnly)
  | 'h' => some help
  | 'V' => some version
  | _ => none

end OptionName

/-- Why the command line does not lead to a run. -/
inductive UsageFault
  | helpRequested
  | versionRequested
  | nothingGiven
  | inputMissing
  | unknownArgument
  | valueMissing
  | valueUnexpected
  | valueUnreadable
  | repeated
  deriving DecidableEq, Repr

/-- The status with which the program ends then. -/
def UsageFault.exitCode : UsageFault → UInt32
  | helpRequested => 0
  | versionRequested => 0
  | _ => 2

/-- What is wrong with a value: a path cannot be empty, and a definition has to be a
text. -/
def Parameter.valueFault? : Parameter → List UInt8 → Option UsageFault
  | definition, value => if (Text.ofUtf8? value).isSome then none else some .valueUnreadable
  | _, value => if value.isEmpty then some .valueMissing else none

/-- A parameter as it was given, with its value if it had one. -/
structure Occurrence where
  parameter : Parameter
  value : Option (List UInt8)
  deriving DecidableEq, Repr

end ChipAsm.Command
