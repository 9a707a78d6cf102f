/-
# Lines of a text

A newline ends a line, and a carriage return directly before it is part of the
line end. A last line without a newline keeps all its characters, and there is
no empty line after a final newline.
-/

namespace ChipAsm.Text

/-- The line whose characters were read in the reversed order `read`, ended by a
newline: a carriage return before the newline is dropped. -/
def endedLine (read : List Char) : List Char :=
  match read with
  | '\r' :: rest => rest.reverse
  | _ => read.reverse

/-- The lines of a text of which the reversed characters `read` of the current
line are already consumed. -/
def linesFrom (read : List Char) : List Char → List (List Char)
  | [] => if read.isEmpty then [] else [read.reverse]
  | c :: rest =>
      if c = '\n' then endedLine read :: linesFrom [] rest
      else linesFrom (c :: read) rest

/-- The lines of a text, without their line ends. -/
def lines (text : String) : List String :=
  (linesFrom [] text.toList).map String.ofList

end ChipAsm.Text
