/-
# Hexadecimal output

Addresses, words and bytes are written with capital hexadecimal digits.
-/

namespace ChipAsm.Text

/-- The number in capital hexadecimal digits, at least `width` of them. -/
def hex (width n : Nat) : String :=
  String.ofList (List.leftpad width '0' ((Nat.toDigits 16 n).map Char.toUpper))

end ChipAsm.Text
