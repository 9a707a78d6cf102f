/-
# Options

What a run is asked to do by a command line, judged as a whole once all its
arguments are read.
-/

import ChipAsm.Command.ArgumentReader
import ChipAsm.Path

namespace ChipAsm.Command

/-- The values of a parameter in the order in which they were given. -/
def valuesOf (occurrences : List Occurrence) (parameter : Parameter) :
    List (List UInt8) :=
  (occurrences.filter (·.parameter = parameter)).filterMap (·.value)

/-- How often a parameter was given. -/
def countOf (occurrences : List Occurrence) (parameter : Parameter) : Nat :=
  occurrences.countP (·.parameter = parameter)

/-- Notes that a parameter was given. One that is new goes to the end. One that is
already noted stays where it is; only the counted one moves to the end, and what was
last takes the place that it leaves. -/
def noteGiven (order : List Parameter) (parameter : Parameter) : List Parameter :=
  match order.getLast? with
  | none => [parameter]
  | some last =>
      if !order.contains parameter then order ++ [parameter]
      else if parameter.isCounted then order.dropLast.replace parameter last ++ [parameter]
      else order

/-- The parameters that were given, in the order in which they are checked. -/
def checkOrder (occurrences : List Occurrence) : List Parameter :=
  (occurrences.map (·.parameter)).foldl noteGiven []

/-- What is wrong with the occurrences of one parameter. -/
def parameterFault? (occurrences : List Occurrence) (parameter : Parameter) : Option UsageFault :=
  if parameter.takesValue && (valuesOf occurrences parameter).isEmpty then some .valueMissing
  else if parameter.isSingle && 1 < countOf occurrences parameter then some .repeated
  else none

/-- How much is reported. -/
inductive Verbosity
  | errors
  | progress
  | everything
  deriving DecidableEq, Repr

/-- The verbosity that is asked for by giving the option so often. -/
def Verbosity.ofCount : Nat → Verbosity
  | 0 => errors
  | 1 => progress
  | _ => everything

/-- What a run is asked to do. -/
structure Options where
  input : Path
  output : Path
  listing : Option Path
  definitions : List String
  directories : List Path
  preprocessOnly : Bool
  verbosity : Verbosity
  deriving Repr

namespace Options

/-- Where the image goes if nothing else is asked for. -/
def defaultOutput : Path := .ofText "a.out"

/-- The options that the occurrences amount to, given the input path. -/
def ofOccurrences (occurrences : List Occurrence) (input : Path) : Options :=
  let values := valuesOf occurrences
  { input
    output := ((values .output).head?.map Path.mk).getD defaultOutput
    listing := (values .listing).head?.map Path.mk
    definitions := (values .definition).filterMap Text.ofUtf8?
    directories := (values .directory).map Path.mk
    preprocessOnly := countOf occurrences .preprocessOnly != 0
    verbosity := Verbosity.ofCount (countOf occurrences .verbose) }

/-- The options given by the arguments of a command line. -/
def parse (arguments : List (List UInt8)) : Except UsageFault Options := do
  let reader ← arguments.foldlM ArgumentReader.read {}
  let waiting := if reader.isWaiting then reader.pending.map (·.parameter) else none
  let reader ← reader.settle
  let occurrences := reader.occurrences
  if waiting.any fun parameter => (valuesOf occurrences parameter).isEmpty then
    throw .valueMissing
  if occurrences.isEmpty then throw .nothingGiven
  match (valuesOf occurrences .input).head? with
  | none => throw .inputMissing
  | some input =>
      match (checkOrder occurrences).findSome? (parameterFault? occurrences) with
      | some fault => throw fault
      | none => return ofOccurrences occurrences ⟨input⟩

end Options

end ChipAsm.Command
