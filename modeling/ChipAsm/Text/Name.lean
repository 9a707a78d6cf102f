/-
# Names and quoted texts

Labels and macros have names made of ASCII letters, digits, underscores and
points, and a name does not begin with a digit. A quoted text stands between two
double quotes.
-/

namespace ChipAsm.Text

/-- A character that a name may contain. -/
def isNameChar (c : Char) : Bool :=
  c.isAlphanum || c == '_' || c == '.'

/-- Whether the characters form a name. -/
def isNameText : List Char → Bool
  | [] => false
  | first :: rest => !first.isDigit && (first :: rest).all isNameChar

/-- Whether the text is a name. -/
def isName (text : String) : Bool :=
  isNameText text.toList

/-- What the two double quotes around a text enclose. -/
def enclosed? : List Char → Option (List Char)
  | '"' :: rest => if rest.getLast? = some '"' then some rest.dropLast else none
  | _ => none

/-- Whether the text stands in double quotes. -/
def isQuoted (text : String) : Bool :=
  (enclosed? text.toList).isSome

/-- The text without the double quotes around it, or as it is if it has none. -/
def unquoted (text : String) : String :=
  ((enclosed? text.toList).map String.ofList).getD text

end ChipAsm.Text
