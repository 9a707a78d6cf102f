/-
# Tokens

A source line consists of commas, string literals and words. A token knows the
byte at which it starts and its own text, from which its column and end follow.
-/

namespace ChipAsm

/-- What a token is. An unreadable token is a string literal without its closing
quote. -/
inductive TokenKind
  | comma
  | string
  | word
  | unreadable
  deriving DecidableEq, Repr

/-- A piece of a source line. -/
structure Token where
  kind : TokenKind
  /-- The offset of the first byte in the line. -/
  start : Nat
  source : String
  deriving DecidableEq, Repr

namespace Token

/-- The offset of the first byte after the token. -/
def stop (token : Token) : Nat :=
  token.start + token.source.utf8ByteSize

/-- The column of the token, counted in bytes from one. -/
def column (token : Token) : Nat :=
  token.start + 1

/-- The name in front of the colon that ends the token, if it is a word that
consists of more than the colon. -/
def labelName? (token : Token) : Option String :=
  if token.kind = .word ∧ token.source.toList.getLast? = some ':' ∧
      token.source.toList.dropLast ≠ [] then
    some (String.ofList token.source.toList.dropLast)
  else none

/-- Whether the token has the form of a label. -/
def isLabel (token : Token) : Bool :=
  token.labelName?.isSome

/-- The token as messages name it. -/
def describe (token : Token) : String :=
  match token.kind with
  | .comma => "a comma"
  | .string => s!"a string literal {token.source}"
  | .word => s!"'{token.source}'"
  | .unreadable => "an error"

end Token

end ChipAsm
