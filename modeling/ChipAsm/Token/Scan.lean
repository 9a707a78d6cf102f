/-
# Scanning a source line

The scanner cuts a text into tokens from left to right. Gaps and comments between
tokens are skipped, a word is a longest run of word characters, and a string
literal runs to the next quote on its line. A quote that is never closed makes an
unreadable token up to the end of the line.
-/

import ChipAsm.Diagnostic
import ChipAsm.Token

namespace ChipAsm.Token

/-- A character that separates words and belongs to no token. -/
def isGap (c : Char) : Bool :=
  c == ' ' || c == '\t' || c == '\r' || c == '\n' || c == '\x0c'

/-- A character that can stand in a word. -/
def isWordChar (c : Char) : Bool :=
  !isGap c && c != ',' && c != '"' && c != ';'

/-- A character that can stand between the quotes of a string literal. -/
def isStringChar (c : Char) : Bool :=
  c != '"' && c != '\n'

/-- A character that does not end a comment. -/
def isCommentChar (c : Char) : Bool :=
  c != '\n'

/-- The number of bytes of a text. -/
def byteCount (text : List Char) : Nat :=
  (String.ofList text).utf8ByteSize

theorem length_dropWhile_le (p : Char → Bool) (text : List Char) :
    (text.dropWhile p).length ≤ text.length :=
  (List.dropWhile_sublist p).length_le

/-- The tokens of a text whose first character is byte `start` of its line. -/
def scanFrom (start : Nat) (text : List Char) : List Token :=
  match text with
  | [] => []
  | c :: rest =>
      if isGap c then scanFrom (start + 1) rest
      else if c = ';' then
        scanFrom (start + 1 + byteCount (rest.takeWhile isCommentChar))
          (rest.dropWhile isCommentChar)
      else if c = ',' then
        { kind := .comma, start, source := "," } :: scanFrom (start + 1) rest
      else if c = '"' then
        let body := '"' :: rest.takeWhile isStringChar
        let after := rest.dropWhile isStringChar
        if after.head? = some '"' then
          let source := body ++ ['"']
          { kind := .string, start, source := String.ofList source } ::
            scanFrom (start + byteCount source) after.tail
        else
          { kind := .unreadable, start, source := String.ofList body } ::
            scanFrom (start + byteCount body) after
      else
        let source := c :: rest.takeWhile isWordChar
        { kind := .word, start, source := String.ofList source } ::
          scanFrom (start + byteCount source) (rest.dropWhile isWordChar)
termination_by text.length
decreasing_by
  all_goals
    have comment := length_dropWhile_le isCommentChar rest
    have string := length_dropWhile_le isStringChar rest
    have word := length_dropWhile_le isWordChar rest
    simp only [List.length_cons, List.length_tail]
    omega

/-- The tokens of a text. -/
def scan (text : String) : List Token :=
  scanFrom 0 text.toList

/-- The tokens of a text, or a diagnostic for each unreadable one. -/
def read (place : Place) (text : String) : Except (List Diagnostic) (List Token) :=
  let tokens := scan text
  match tokens.filter fun token => token.kind = .unreadable with
  | [] => .ok tokens
  | unreadable => .error (unreadable.map fun token =>
      place.diagnostic (.line (.unterminatedString token.column)))

end ChipAsm.Token
