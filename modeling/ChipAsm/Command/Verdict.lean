/-
# Verdicts

Everything but the writing of files is decided first, from the options, the input
text and the files that can be included. The verdict is to stop or to deliver a
complete assembly.
-/

import ChipAsm.Command.Message
import ChipAsm.InstructionSet
import ChipAsm.Preprocess
import ChipAsm.Statement.Parse

namespace ChipAsm.Command

/-- What is to be done once everything is decided. -/
inductive Decision
  /-- Nothing is written; the text goes to standard output. -/
  | stop (exitCode : UInt32) (output : String)
  /-- The assembly is written to files. -/
  | deliver (assembly : Assembly)

/-- A decision and the messages that led to it. -/
structure Verdict where
  messages : List Message
  decision : Decision

namespace Verdict

/-- The verdict that stops the run. -/
def stop (messages : List Message) (exitCode : UInt32) : Verdict :=
  { messages, decision := .stop exitCode "" }

/-- The verdict with messages in front of its own. -/
def after (messages : List Message) (verdict : Verdict) : Verdict :=
  { verdict with messages := messages ++ verdict.messages }

end Verdict

/-- The exit code of a program that ends at an assertion that does not hold. -/
def assertionCode : UInt32 := 101

/-- The verdict on the statements of the source. -/
def judgeStatements (table : OpcodeTable) (statements : List Statement) : Verdict :=
  let passes := Passes.run table statements
  let messages :=
    match passes with
    | .unbound binder _ => symbolMessages binder.symbols
    | .unwritten binder writer _ =>
        symbolMessages binder.symbols ++ boundMessage binder :: wordMessages writer
    | .complete binder writer =>
        symbolMessages binder.symbols ++ boundMessage binder :: wordMessages writer
  match passes.result with
  | .error (.fault diagnostic) => .stop (messages ++ failureMessages .assemble [diagnostic]) 2
  | .error .assertion => .stop messages assertionCode
  | .ok assembly => { messages, decision := .deliver assembly }

/-- The verdict on the preprocessed text. -/
def judgeText (table : OpcodeTable) (file : Path) (text : String) : Verdict :=
  match parse file text with
  | .error diagnostics => .stop (failureMessages .assemble diagnostics) 2
  | .ok statements =>
      let parsed := infoMessage s!"Parsed {statements.length} directives from '{file.shown}'."
      (judgeStatements table statements).after [parsed]

/-- The verdict on the preprocessed text, by a table that has to be well formed. -/
def judgeBy (table : Except DefinitionFault OpcodeTable) (file : Path) (text : String) : Verdict :=
  match table with
  | .error fault =>
      .stop [errorMessage s!"The built-in instruction set is ill-formed: {fault.message}"] 2
  | .ok table =>
      let loaded := infoMessage s!"Loaded {table.opcodes.length} opcode definitions."
      (judgeText table file text).after (loaded :: table.opcodes.map opcodeMessage)

/-- The verdict on the preprocessed text, by the table of the machine. -/
def judgeProgram (file : Path) (text : String) : Verdict :=
  judgeBy InstructionSet.table file text

/-- The macros that the options define, or the first text that is no definition. -/
def macrosOf (options : Options) : Except String Macros := do
  let definitions ← options.definitions.mapM fun text =>
    match Macros.readDefinition? text with
    | some definition => .ok definition
    | none => .error text
  return Macros.ofList definitions

/-- The run of the preprocessor that the options ask for. -/
def runPreprocessor (options : Options) (macros : Macros) (load : Path → Option String)
    (source : String) : Preprocess.State :=
  Preprocess.run { load, directories := options.directories } macros options.input source

/-- The verdict on a source text. -/
def judgeSource (options : Options) (macros : Macros) (load : Path → Option String)
    (source : String) : Verdict :=
  let state := runPreprocessor options macros load source
  let messages := state.events.toList.filterMap eventMessage?
  match state.result options.input with
  | .error diagnostics => .stop (messages ++ failureMessages .preprocess diagnostics) 2
  | .ok text =>
      let done := messages ++ [infoMessage s!"Preprocessed '{options.input.shown}'."]
      if options.preprocessOnly then { messages := done, decision := .stop 0 text }
      else (judgeProgram options.input text).after done

/-- The verdict on a run, given what reading the input yields and the texts of the
files that can be included. -/
def judge (options : Options) (input : Except FileFault String) (load : Path → Option String) :
    Verdict :=
  match input with
  | .error fault => .stop [errorMessage (options.input.diagnostic fault).message] 1
  | .ok source =>
      match macrosOf options with
      | .error text =>
          .stop [errorMessage s!"'{text}' doesn't start with a valid macro name."] 1
      | .ok macros => judgeSource options macros load source

/-- The files that the preprocessor looks for, in the order in which it does. -/
def lookedFor (options : Options) (load : Path → Option String) (source : String) : List Path :=
  match macrosOf options with
  | .error _ => []
  | .ok macros =>
      (runPreprocessor options macros load source).events.toList.filterMap fun
        | .looked path _ => some path
        | _ => none

end ChipAsm.Command
