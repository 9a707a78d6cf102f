/-
# Numerals

A numeral is an optional sign and digits whose beginning tells the base: `0x` or
`0X` for sixteen, another leading `0` for eight, anything else for ten. Numerals
whose magnitude does not fit in 63 bits are no numerals at all.
-/

namespace ChipAsm.Text

/-- The value of a digit in either case, for every base up to sixteen. -/
def digitValue? (c : Char) : Option Nat :=
  if '0' ≤ c ∧ c ≤ '9' then some (c.toNat - '0'.toNat)
  else if 'a' ≤ c ∧ c ≤ 'f' then some (c.toNat - 'a'.toNat + 10)
  else if 'A' ≤ c ∧ c ≤ 'F' then some (c.toNat - 'A'.toNat + 10)
  else none

/-- The value of a hexadecimal digit in either case. -/
def hexDigit? (c : Char) : Option (Fin 16) :=
  (digitValue? c).map (Fin.ofNat 16)

/-- The bases a numeral can be written in. -/
inductive Base
  | octal
  | decimal
  | hexadecimal
  deriving DecidableEq, Repr

namespace Base

/-- The number of digits of the base. -/
def size : Base → Nat
  | octal => 8
  | decimal => 10
  | hexadecimal => 16

/-- The value of a character as a digit of this base. -/
def digit? (base : Base) (c : Char) : Option Nat :=
  (digitValue? c).filter (· < base.size)

end Base

/-- The largest magnitude of a numeral, the greatest number of 63 bits. -/
def maxMagnitude : Nat := 0x7FFFFFFFFFFFFFFF

/-- The sign at the beginning of a numeral, true for a minus, and the rest. -/
def splitSign : List Char → Bool × List Char
  | '-' :: rest => (true, rest)
  | '+' :: rest => (false, rest)
  | text => (false, text)

/-- The base that an unsigned numeral announces, and its digits. A lone `0` is
decimal. -/
def splitBase : List Char → Base × List Char
  | '0' :: 'x' :: digits => (.hexadecimal, digits)
  | '0' :: 'X' :: digits => (.hexadecimal, digits)
  | '0' :: digit :: digits => (.octal, digit :: digits)
  | digits => (.decimal, digits)

/-- The number that the digit values spell, most significant first. -/
def ofDigits (base : Base) (digits : List Nat) : Nat :=
  digits.foldl (fun value digit => value * base.size + digit) 0

/-- The magnitude of a nonempty text of digits, if it is in range. -/
def magnitude? (base : Base) (digits : List Char) : Option Nat :=
  if digits.isEmpty then none
  else ((digits.mapM base.digit?).map (ofDigits base)).filter (· ≤ maxMagnitude)

/-- The value of a numeral, given as its characters. -/
def numeralValue? (text : List Char) : Option Int :=
  let (negative, unsigned) := splitSign text
  let (base, digits) := splitBase unsigned
  (magnitude? base digits).map fun magnitude =>
    if negative then -(magnitude : Int) else magnitude

/-- The value of a text that is a numeral from beginning to end. -/
def number? (text : String) : Option Int :=
  numeralValue? text.toList

/-- Whether the text is a numeral. -/
def isNumber (text : String) : Bool :=
  (number? text).isSome

/-- The value of a numeral that is not negative. -/
def natural? (text : String) : Option Nat :=
  (number? text).bind Int.toNat?

end ChipAsm.Text
