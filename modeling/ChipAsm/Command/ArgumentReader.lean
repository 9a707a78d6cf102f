/-
# Reading arguments

Arguments are read from left to right. An option takes its value attached to it or
from the next argument; that value is judged only when the next known argument is
read or the line ends. An unknown argument in between is therefore reported first,
but a request for help comes too late. After `--` every argument is an input path.
-/

import ChipAsm.Command.Parameter

namespace ChipAsm.Command

/-- The state between two arguments. -/
structure ArgumentReader where
  occurrences : List Occurrence := []
  /-- The last occurrence, while it is not yet judged. -/
  pending : Option Occurrence := none
  /-- Whether the last occurrence still waits for its value. -/
  isWaiting : Bool := false
  /-- Whether `--` was read. -/
  optionsEnded : Bool := false
  hasInput : Bool := false
  deriving Repr

namespace ArgumentReader

/-- The dash in front of an option. -/
def dash : UInt8 := 0x2D

/-- The sign between an option and its value. -/
def equals : UInt8 := 0x3D

/-- Adds an occurrence if its value is suitable. -/
def judge (reader : ArgumentReader) (occurrence : Occurrence) :
    Except UsageFault ArgumentReader :=
  match occurrence.value.bind occurrence.parameter.valueFault? with
  | some fault => .error fault
  | none => .ok { reader with occurrences := reader.occurrences ++ [occurrence] }

/-- Judges the occurrence that is not yet judged. -/
def settle (reader : ArgumentReader) : Except UsageFault ArgumentReader :=
  match reader.pending with
  | none => .ok reader
  | some occurrence => { reader with pending := none }.judge occurrence

/-- Takes an occurrence that is complete. -/
def take (reader : ArgumentReader) (parameter : Parameter) (value : Option (List UInt8)) :
    Except UsageFault ArgumentReader := do
  let reader ← reader.settle
  { reader with isWaiting := false }.judge { parameter, value }

/-- Waits for the value of a parameter. -/
def await (reader : ArgumentReader) (parameter : Parameter) :
    Except UsageFault ArgumentReader := do
  let reader ← reader.settle
  return { reader with pending := some { parameter, value := none }, isWaiting := true }

/-- Answers a request for help or for the version, which leads to no run. -/
def answer (reader : ArgumentReader) (request : UsageFault) :
    Except UsageFault ArgumentReader := do
  let _ ← reader.settle
  throw request

/-- Reads a long option, given without its dashes. -/
def readLong (reader : ArgumentReader) (bytes : List UInt8) : Except UsageFault ArgumentReader :=
  let (name, value) :=
    match bytes.span (· != equals) with
    | (name, _ :: value) => (name, some value)
    | (name, []) => (name, none)
  match OptionName.ofLong? (Text.lossy name), value with
  | none, _ => .error .unknownArgument
  | some (.parameter parameter), value =>
      if parameter.takesValue then
        match value with
        | some value => reader.take parameter (some value)
        | none => reader.await parameter
      else if value.isSome then .error .valueUnexpected
      else reader.take parameter none
  | some _, some _ => .error .valueUnexpected
  | some .help, none => reader.answer .helpRequested
  | some .version, none => reader.answer .versionRequested

/-- Reads short options, given without their dash, each of which is one byte. An option
with a value takes all that follows for it, except one equals sign. -/
def readShort (reader : ArgumentReader) : List UInt8 → Except UsageFault ArgumentReader
  | [] => .ok reader
  | name :: rest =>
      match OptionName.ofShort? (Char.ofNat name.toNat) with
      | none => .error .unknownArgument
      | some .help => reader.answer .helpRequested
      | some .version => reader.answer .versionRequested
      | some (.parameter parameter) =>
          if parameter.takesValue then
            match rest with
            | [] => reader.await parameter
            | first :: value =>
                reader.take parameter (some (if first = equals then value else rest))
          else do
            let reader ← reader.take parameter none
            reader.readShort rest

/-- Reads an argument that is no option: the value that is waited for, or the input
path. -/
def readPlain (reader : ArgumentReader) (value : List UInt8) : Except UsageFault ArgumentReader :=
  match reader.pending, reader.isWaiting && !reader.optionsEnded with
  | some occurrence, true =>
      .ok { reader with
        pending := some { occurrence with value := some value }
        isWaiting := false }
  | _, _ =>
      if reader.hasInput then .error .unknownArgument
      else do
        let reader ← reader.settle
        return { reader with
          pending := some { parameter := .input, value := some value }
          isWaiting := false
          hasInput := true }

/-- Reads one argument. -/
def read (reader : ArgumentReader) (argument : List UInt8) :
    Except UsageFault ArgumentReader :=
  let names := argument.tail
  if reader.optionsEnded || argument.head? != some dash || names.isEmpty then
    reader.readPlain argument
  else if names.head? != some dash then reader.readShort names
  else if names.tail.isEmpty then .ok { reader with optionsEnded := true }
  else reader.readLong names.tail

end ArgumentReader

end ChipAsm.Command
