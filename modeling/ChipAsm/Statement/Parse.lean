/-
# Reading statements

Lines are read one after the other. A label alone on its line waits for the next
instruction; if another label comes first, or the source ends, it stands for
itself. A position marker `#line number "file"` moves the place that is reported
for the lines after it. Commas separate arguments as blanks do and count for
nothing else.
-/

import ChipAsm.Statement
import ChipAsm.Text.Line
import ChipAsm.Text.Name
import ChipAsm.Text.Numeral
import ChipAsm.Text.Upper
import ChipAsm.Token.Scan

namespace ChipAsm

/-- The state between two lines. -/
structure Reader where
  /-- The place of the next line. -/
  place : Place
  /-- The label that waits for an instruction. -/
  pending : Option Label
  statements : Array Statement
  faults : Array Diagnostic
  deriving Repr

namespace Reader

/-- The reader before the first line of a file. -/
def start (file : Path) : Reader :=
  { place := { file, line := 1 }, pending := none, statements := #[], faults := #[] }

/-- Goes on to the next line. -/
def advance (reader : Reader) : Reader :=
  { reader with place.line := reader.place.line + 1 }

/-- Adds a statement. -/
def add (reader : Reader) (statement : Statement) : Reader :=
  { reader with statements := reader.statements.push statement }

/-- Blames the current line. -/
def blame (reader : Reader) (fault : LineFault) : Reader :=
  { reader with faults := reader.faults.push (reader.place.diagnostic (.line fault)) }

/-- Where the marker with these arguments says that the next line stands. -/
def markedPlace (place : Place) : List Token → Except LineFault Place
  | [number] =>
      match Text.natural? number.source with
      | some line => .ok { place with line }
      | none => .error .invalidMarkerLine
  | [number, file] =>
      match Text.natural? number.source with
      | some line => .ok { file := .ofText (Text.unquoted file.source), line }
      | none => .error .invalidMarkerLine
  | _ => .error .malformedMarker

/-- The label that a label token of this name introduces. -/
def makeLabel (place : Place) (token : Token) (name : String) : Except LineFault Label :=
  if Text.isName name then .ok { name, place }
  else .error (.invalidLabel name token.column)

/-- The instruction that begins with the given mnemonic token. -/
def makeInstruction (place : Place) (label : Option Label) (first : Token)
    (arguments : List Token) : Except LineFault Statement :=
  if first.isLabel then .error .secondLabel
  else if first.kind = .word then
    .ok (.instruction label
      { mnemonic := Text.upper first.source, arguments := arguments.map (·.source), place })
  else .error (.mnemonicExpected first)

/-- The instruction on a line that begins with a label, where `pending` is the
label that was waiting. -/
def makeLabelled (place : Place) (pending : Option Label) (token : Token) (name : String)
    (first : Token) (arguments : List Token) : Except LineFault Statement :=
  match pending with
  | some _ => .error .secondLabel
  | none => do
      let label ← makeLabel place token name
      makeInstruction place (some label) first arguments

/-- Reads a line that consists of one label. -/
def readLabel (reader : Reader) (token : Token) (name : String) : Reader :=
  match makeLabel reader.place token name with
  | .error fault => reader.blame fault
  | .ok label =>
      match reader.pending with
      | some earlier => { reader.add (.label earlier) with pending := some label }
      | none => { reader with pending := some label }

/-- Ends an instruction line: the waiting label is used up, whether or not the
line was in order. -/
def readInstruction (reader : Reader) (result : Except LineFault Statement) : Reader :=
  let reader := { reader with pending := none }
  match result with
  | .ok statement => reader.add statement
  | .error fault => reader.blame fault

/-- Reads the tokens of a line, commas left out. -/
def readItems (reader : Reader) : List Token → Reader
  | [] => reader.advance
  | first :: rest =>
      if first.source = "#line" then
        match markedPlace reader.place rest with
        | .ok place => { reader with place }
        | .error fault => (reader.blame fault).advance
      else
        match first.labelName?, rest with
        | some name, [] => (reader.readLabel first name).advance
        | some name, mnemonic :: arguments =>
            (reader.readInstruction
              (makeLabelled reader.place reader.pending first name mnemonic arguments)).advance
        | none, arguments =>
            (reader.readInstruction
              (makeInstruction reader.place reader.pending first arguments)).advance

/-- Reads one line. -/
def readLine (reader : Reader) (text : String) : Reader :=
  match Token.read reader.place text with
  | .error faults => { reader with faults := reader.faults ++ faults.toArray }.advance
  | .ok tokens => reader.readItems (tokens.filter fun token => token.kind ≠ .comma)

/-- The statements read, unless a line was at fault. A label that still waits
stands for itself. -/
def finish (reader : Reader) : Except (List Diagnostic) (List Statement) :=
  let statements :=
    match reader.pending with
    | some label => reader.statements.push (.label label)
    | none => reader.statements
  if reader.faults.isEmpty then .ok statements.toList else .error reader.faults.toList

end Reader

/-- The statements of a source, or a diagnostic for each fault in it. -/
def parse (file : Path) (source : String) : Except (List Diagnostic) (List Statement) :=
  ((Text.lines source).foldl Reader.readLine (Reader.start file)).finish

end ChipAsm
