/-
# Messages

What a run reports: errors always, progress and details if they are asked for.
-/

import ChipAsm.Assembly
import ChipAsm.Command.Options
import ChipAsm.Preprocess.State

namespace ChipAsm.Command

/-- How much a message matters. -/
inductive Severity
  | error
  | info
  | debug
  deriving DecidableEq, Repr

namespace Severity

/-- The word in front of a message. -/
def mark : Severity → String
  | error => "ERR"
  | info => "INFO"
  | debug => "DEBUG"

/-- Whether messages of this severity are shown. -/
def isShown : Severity → Verbosity → Bool
  | error, _ => true
  | info, verbosity => verbosity != .errors
  | debug, verbosity => verbosity == .everything

end Severity

/-- Something that is reported. -/
structure Message where
  severity : Severity
  text : String
  deriving DecidableEq, Repr

/-- The messages that are shown, one per line. -/
def renderMessages (verbosity : Verbosity) (messages : List Message) : String :=
  String.join ((messages.filter (·.severity.isShown verbosity)).map fun message =>
    message.severity.mark ++ ": " ++ message.text ++ "\n")

/-- An error message. -/
def errorMessage (text : String) : Message := { severity := .error, text }

/-- A message on the progress of the work. -/
def infoMessage (text : String) : Message := { severity := .info, text }

/-- A message on a detail. -/
def debugMessage (text : String) : Message := { severity := .debug, text }

/-- The parts of the work that can fail with diagnostics. -/
inductive Stage
  | preprocess
  | assemble
  deriving DecidableEq, Repr

/-- The word for a stage. -/
def Stage.verb : Stage → String
  | preprocess => "preprocess"
  | assemble => "assemble"

/-- The messages for a stage that failed. -/
def failureMessages (stage : Stage) (diagnostics : List Diagnostic) : List Message :=
  diagnostics.map (fun diagnostic => errorMessage diagnostic.message) ++
    [errorMessage s!"Failed to {stage.verb}, with {diagnostics.length} errors."]

/-- The message for an event of the preprocessor. -/
def eventMessage? : Preprocess.Event → Option Message
  | .defined name value => some (debugMessage s!"#define {name} {value}")
  | .included path => some (debugMessage s!"Including '{path.shown}'.")
  | .looked _ _ => none

/-- The message for an opcode of the table. -/
def opcodeMessage (opcode : Opcode) : Message :=
  let base := Text.hex 6 opcode.base.toNat
  let mask := Text.hex 6 opcode.mask.toNat
  debugMessage s!"{base}/{mask}  {opcode.describe}"

/-- The messages for the symbols, in the order in which they were bound. -/
def symbolMessages (symbols : SymbolTable) : List Message :=
  symbols.entries.reverse.map fun (name, symbol) =>
    let address := Text.hex 4 symbol.address.toNat
    debugMessage s!"{name} = {address}"

/-- The messages for the words that were encoded. -/
def wordMessages (writer : Writer) : List Message :=
  writer.output.words.toList.map fun (instruction, word) =>
    let digits := Text.hex 6 word.toNat
    debugMessage s!"{instruction.render} -> {digits}"

/-- The message after the first pass. -/
def boundMessage (binder : Binder) : Message :=
  let offset := binder.counter.offset
  infoMessage s!"Bound {binder.symbols.size} labels, the image is {offset} bytes."

end ChipAsm.Command
