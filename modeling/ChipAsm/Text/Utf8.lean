/-
# Texts as bytes

The bytes of a text are its characters in UTF-8. Bytes that are no text can still be
shown: each character that is broken off or malformed counts as one replacement
character, which takes the bytes that could have begun a character, but at least one.
-/

namespace ChipAsm.Text

/-- The bytes of a text. -/
def utf8 (text : String) : List UInt8 :=
  text.toList.flatMap String.utf8EncodeChar

/-- The bytes after the first one of a character: the range of the next byte, and how
many there are after that. -/
structure Sequel where
  low : UInt8
  high : UInt8
  further : Nat
  deriving DecidableEq, Repr

/-- The bytes that belong to a first byte, unless it is a character on its own or
begins none. -/
def sequel? (first : UInt8) : Option Sequel :=
  if 0xC2 ≤ first && first ≤ 0xDF then some ⟨0x80, 0xBF, 0⟩
  else if first == 0xE0 then some ⟨0xA0, 0xBF, 1⟩
  else if first == 0xED then some ⟨0x80, 0x9F, 1⟩
  else if 0xE1 ≤ first && first ≤ 0xEF then some ⟨0x80, 0xBF, 1⟩
  else if first == 0xF0 then some ⟨0x90, 0xBF, 2⟩
  else if 0xF1 ≤ first && first ≤ 0xF3 then some ⟨0x80, 0xBF, 2⟩
  else if first == 0xF4 then some ⟨0x80, 0x8F, 2⟩
  else none

/-- Whether a byte can stand in a character after its second byte. -/
def isContinuation (byte : UInt8) : Bool :=
  0x80 ≤ byte && byte ≤ 0xBF

/-- How many bytes at the beginning count as one broken character. -/
def brokenLength : List UInt8 → Nat
  | first :: next :: rest =>
      match sequel? first with
      | none => 1
      | some sequel =>
          if sequel.low ≤ next && next ≤ sequel.high then
            2 + ((rest.take sequel.further).takeWhile isContinuation).length
          else 1
  | _ => 1

/-- The character that stands for a broken one. -/
def replacement : Char := '\uFFFD'

/-- The character whose bytes stand at the beginning. -/
def beginning? (bytes : List UInt8) : Option Char :=
  (bytes.take 4).toByteArray.utf8DecodeChar? 0

/-- The character that is shown for the beginning of the bytes and the number of bytes
it takes. -/
def firstChar (bytes : List UInt8) : Char × Nat :=
  match beginning? bytes with
  | some c => (c, c.utf8Size)
  | none => (replacement, brokenLength bytes)

/-- The characters of the bytes, where the first `taken` bytes belong to a character
that was read before. -/
def charsFrom : (taken : Nat) → List UInt8 → List Char
  | _, [] => []
  | taken + 1, _ :: rest => charsFrom taken rest
  | 0, byte :: rest =>
      let (c, length) := firstChar (byte :: rest)
      c :: charsFrom (length - 1) rest

/-- The text that shows the bytes. -/
def lossy (bytes : List UInt8) : String :=
  String.ofList (charsFrom 0 bytes)

/-- The text with these bytes, if there is one. -/
def ofUtf8? (bytes : List UInt8) : Option String :=
  if utf8 (lossy bytes) = bytes then some (lossy bytes) else none

end ChipAsm.Text
