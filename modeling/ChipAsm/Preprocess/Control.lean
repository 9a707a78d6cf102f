/-
# Control lines

A line whose first character that is not blank is `#` controls the preprocessor.
Its first word names what it does; the rest, up to a comment, are its arguments.
-/

import ChipAsm.Path
import ChipAsm.Text.Blank
import ChipAsm.Text.Name
import ChipAsm.Text.Numeral

namespace ChipAsm

/-- The file that an `#include` names. A local file is looked for beside the
including file first. -/
structure IncludeTarget where
  name : String
  isLocal : Bool
  deriving DecidableEq, Repr

/-- What a control line does. -/
inductive Control
  /-- `#ifdef`, or `#ifndef` if `defined` is false. -/
  | opening (defined : Bool) (name : String)
  /-- `#else` -/
  | otherwise
  /-- `#endif` -/
  | closing
  /-- `#define` -/
  | define (name value : String)
  /-- `#undef` -/
  | undefine (name : String)
  /-- `#include`; there is no target if it has the wrong form. -/
  | inclusion (target : Option IncludeTarget)
  /-- `#line`; there is no line if its number cannot be read. -/
  | position (line : Option Nat) (file : Option Path)
  | unknown (name : String)
  deriving DecidableEq, Repr

namespace Control

/-- The text up to the first semicolon outside string literals, where `quoted`
says whether it begins inside one. -/
def beforeComment (quoted : Bool) : List Char → List Char
  | [] => []
  | c :: rest =>
      if c == ';' && !quoted then []
      else c :: beforeComment (quoted != (c == '"')) rest

/-- The text without its comment and the blanks before it. -/
def stripComment (text : List Char) : List Char :=
  Text.trimEnd (beforeComment false text)

/-- What follows a `#`: the name and the arguments. A comment directly after the
name ends it only if nothing parted by a blank follows. -/
def splitName (text : List Char) : List Char × List Char :=
  match Text.cut? Text.isBlank text with
  | some (name, rest) => (name, stripComment (Text.trim rest))
  | none => (stripComment text, [])

/-- The first word of the arguments and the text after it. -/
def splitWord (arguments : List Char) : List Char × List Char :=
  match Text.cut? Text.isBlank arguments with
  | some (word, rest) => (word, Text.trim rest)
  | none => (arguments, [])

/-- The text between the delimiters. -/
def between? (opening closing : Char) : List Char → Option (List Char)
  | c :: rest =>
      if c = opening ∧ rest.getLast? = some closing then some rest.dropLast else none
  | [] => none

/-- The file that the arguments of an `#include` name. -/
def includeTarget? (arguments : List Char) : Option IncludeTarget :=
  match between? '"' '"' arguments, between? '<' '>' arguments with
  | some name, _ => some { name := String.ofList name, isLocal := true }
  | none, some name => some { name := String.ofList name, isLocal := false }
  | none, none => none

/-- The control line with this name and these arguments. -/
def ofParts (name : String) (arguments : List Char) : Control :=
  let (first, rest) := splitWord arguments
  match name with
  | "ifdef" => opening true (String.ofList arguments)
  | "ifndef" => opening false (String.ofList arguments)
  | "else" => otherwise
  | "endif" => closing
  | "define" => define (String.ofList first) (String.ofList rest)
  | "undef" => undefine (String.ofList arguments)
  | "include" => inclusion (includeTarget? arguments)
  | "line" =>
      position (Text.natural? (String.ofList first))
        (if rest.isEmpty then none else some (.ofText (Text.unquoted (String.ofList rest))))
  | _ => unknown name

/-- What the line does, if it is a control line. -/
def ofLine? (line : String) : Option Control :=
  match Text.trimStart line.toList with
  | '#' :: rest =>
      let (name, arguments) := splitName (Text.trimStart rest)
      some (ofParts (String.ofList name) arguments)
  | _ => none

/-- The name that a conditional opening has. -/
def openingName (defined : Bool) : String :=
  if defined then "ifdef" else "ifndef"

end Control

end ChipAsm
