/-
# Faults

The causes for which a source is refused, and their wording. A fault says what is
wrong; where it is wrong is added by `ChipAsm.Diagnostic`.
-/

import ChipAsm.Text.Hex
import ChipAsm.Token

namespace ChipAsm

/-- What is wrong with the arguments of a `SEEK`, `DUP` or data directive. -/
inductive DirectiveFault
  | targetNotNatural
  | targetCount
  | timesNotNatural
  | nothingToRepeat
  | notOneString
  | notNumber (index : Nat)
  | notData
  deriving DecidableEq, Repr

/-- The wording of a directive fault. -/
def DirectiveFault.message : DirectiveFault → String
  | targetNotNatural => "the target must be a non-negative number"
  | targetCount => "expected exactly one target address"
  | timesNotNatural => "the count must be a non-negative number"
  | nothingToRepeat => "expected a count and an instruction"
  | notOneString => "expected exactly one string literal"
  | notNumber index => s!"argument {index} is not a number"
  | notData => "not a data directive"

/-- The quantities that are held to a range. -/
inductive Quantity
  | immediate
  | address
  | offset
  | outputOffset
  | seekTarget
  | writeOffset
  | dataValue (directive : String)
  | labelAddress (name : String)
  deriving DecidableEq, Repr

/-- The wording of a quantity. -/
def Quantity.describe : Quantity → String
  | immediate => "immediate"
  | address => "address"
  | offset => "offset"
  | outputOffset => "output offset"
  | seekTarget => "SEEK target"
  | writeOffset => "write offset"
  | dataValue directive => s!"{directive} value"
  | labelAddress name => s!"address of label '{name}'"

/-- What is wrong with the form of a source line. -/
inductive LineFault
  | unterminatedString (column : Nat)
  | malformedMarker
  | invalidMarkerLine
  | secondLabel
  | mnemonicExpected (found : Token)
  | invalidLabel (name : String) (column : Nat)
  deriving DecidableEq, Repr

/-- The wording of a line fault. -/
def LineFault.message : LineFault → String
  | unterminatedString column => s!"unterminated string literal at column {column}"
  | malformedMarker => "malformed #line directive"
  | invalidMarkerLine => "invalid line number for #line directive"
  | secondLabel => "an instruction can only have one label"
  | mnemonicExpected found =>
      s!"expected a mnemonic, found {found.describe} at column {found.column}"
  | invalidLabel name column => s!"invalid label name '{name}' at column {column}"

/-- How deep macros may nest while a line is expanded. -/
def maxNesting : Nat := 32

/-- How many bytes of a line may stand expanded at the end of a word. -/
def maxExpansion : Nat := 0x10000

/-- How many files may be open at once, the main file included. -/
def maxIncludeDepth : Nat := 64

/-- Why a line cannot be expanded. -/
inductive ExpansionFault
  | tooDeep
  | tooLong
  deriving DecidableEq, Repr

/-- The wording of an expansion fault. -/
def ExpansionFault.message : ExpansionFault → String
  | tooDeep => s!"macro expansion nested more than {maxNesting} levels deep"
  | tooLong => s!"macro expansion grows past {maxExpansion} bytes"

/-- What is wrong with a preprocessor directive or a line that it governs. -/
inductive PreprocessFault
  | nameExpected (directive : String)
  | secondElse
  | strayElse
  | strayEndif
  | unterminatedCondition
  | macroWithParameters (name : String)
  | invalidMacroName (name : String)
  | includeTooDeep
  | includeForm
  | includeNotFound (name : String)
  | lineNumberExpected
  | unknownDirective (name : String)
  | expansion (fault : ExpansionFault)
  deriving DecidableEq, Repr

/-- The wording of a preprocessor fault. -/
def PreprocessFault.message : PreprocessFault → String
  | nameExpected directive => s!"#{directive} expects a macro name"
  | secondElse => "#else after #else"
  | strayElse => "#else without #ifdef or #ifndef"
  | strayEndif => "#endif without #ifdef or #ifndef"
  | unterminatedCondition => "unterminated #ifdef or #ifndef"
  | macroWithParameters name => s!"function-like macro '{name}' is not supported"
  | invalidMacroName name => s!"invalid macro name '{name}'"
  | includeTooDeep => s!"#include nested more than {maxIncludeDepth} levels deep"
  | includeForm => "#include expects \"file\" or <file>"
  | includeNotFound name => s!"couldn't find included file '{name}'"
  | lineNumberExpected => "#line expects a line number"
  | unknownDirective name => s!"unknown directive '#{name}'"
  | expansion fault => fault.message

/-- Why a file cannot be read or written. -/
inductive FileFault
  | system (description : String) (code : Nat)
  | notText
  deriving DecidableEq, Repr

namespace FileFault

/-- There is no such file. -/
def notFound : FileFault := system "No such file or directory" 2

/-- A file stands where a directory is needed. -/
def notDirectory : FileFault := system "Not a directory" 20

/-- A directory stands where a file is needed. -/
def isDirectory : FileFault := system "Is a directory" 21

/-- A name or a whole path has too many bytes. -/
def nameTooLong : FileFault := system "File name too long" 36

/-- The wording of a file fault. -/
def message : FileFault → String
  | system description code => s!"{description} (os error {code})"
  | notText => "stream did not contain valid UTF-8"

end FileFault

/-- Why a source cannot be assembled. -/
inductive Fault
  | malformedDirective (directive : String) (reason : DirectiveFault)
  | backwardSeek (current target : Nat)
  | undefinedLabel (name : String)
  | duplicateLabel (name : String) (firstLine : Nat)
  | outOfRange (quantity : Quantity) (value low high : Int)
  | invalidOffset (text : String)
  | unrecognized (instruction : String)
  | line (reason : LineFault)
  | preprocess (reason : PreprocessFault)
  | file (reason : FileFault)
  deriving DecidableEq, Repr

/-- The wording of a fault. -/
def Fault.message : Fault → String
  | malformedDirective directive reason => s!"invalid {directive} directive: {reason.message}"
  | backwardSeek current target =>
      s!"cannot SEEK backwards from 0x{Text.hex 1 current} to 0x{Text.hex 1 target}"
  | undefinedLabel name => s!"label '{name}' doesn't exist"
  | duplicateLabel name firstLine =>
      s!"multiple definition of label '{name}', first defined on line {firstLine}"
  | outOfRange quantity value low high =>
      s!"{quantity.describe} {value} is out of range [{low}, {high}]"
  | invalidOffset text => s!"invalid offset '{text}'"
  | unrecognized instruction => s!"invalid instruction '{instruction}'"
  | line reason => reason.message
  | preprocess reason => reason.message
  | file reason => reason.message

/-- An offset as a signed number of 64 bits, the form in which range faults carry
it. Offsets of at most 63 bits are themselves. -/
def signedOffset (offset : Nat) : Int :=
  (offset : Int).bmod 0x10000000000000000

end ChipAsm
