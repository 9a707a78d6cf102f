/-
# Blanks

Trimming and cutting of texts, written as lists of characters. A blank is any
character with the Unicode property White_Space, so a no-break space or an
ideographic space parts two words just as a space does. The line scanner of
`ChipAsm.Token.Scan` has a narrower set of blanks of its own.
-/

namespace ChipAsm.Text

/-- A character with the Unicode property White_Space. -/
def isBlank (c : Char) : Bool :=
  let code := c.toNat
  (0x09 ≤ code && code ≤ 0x0D) || code == 0x20 || code == 0x85 || code == 0xA0 ||
    code == 0x1680 || (0x2000 ≤ code && code ≤ 0x200A) || code == 0x2028 ||
    code == 0x2029 || code == 0x202F || code == 0x205F || code == 0x3000

/-- The text without its leading blanks. -/
def trimStart (text : List Char) : List Char :=
  text.dropWhile isBlank

/-- The text without its trailing blanks. -/
def trimEnd (text : List Char) : List Char :=
  (text.reverse.dropWhile isBlank).reverse

/-- The text without the blanks at its two ends. -/
def trim (text : List Char) : List Char :=
  trimEnd (trimStart text)

/-- The text before and after the first character that `stop` accepts, which
belongs to neither part. There is no answer if no character is accepted. -/
def cut? (stop : Char → Bool) (text : List Char) : Option (List Char × List Char) :=
  match text.span fun c => !stop c with
  | (_, []) => none
  | (before, _ :: after) => some (before, after)

end ChipAsm.Text
