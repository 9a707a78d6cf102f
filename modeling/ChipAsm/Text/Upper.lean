/-
# Capital form of a text

Mnemonics are compared in capitals. The capital form follows the full case
mapping of Unicode, which depends on no context and may lengthen a text.
-/

import ChipAsm.Text.CaseTable

namespace ChipAsm.Text

/-- The capital of the character code, if the run contains it. -/
def CapitalRun.capital? (run : CapitalRun) (code : Nat) : Option Nat :=
  if run.first ≤ code ∧ code ≤ run.last ∧ (code - run.first) % run.step = 0 then
    some (run.capital + (code - run.first))
  else none

/-- The capital form of one character: itself if it has no other. -/
def upperChar (c : Char) : List Char :=
  if c.toNat < 128 then [c.toUpper]
  else match capitalRuns.findSome? (·.capital? c.toNat) with
    | some capital => [Char.ofNat capital]
    | none =>
        match longCapitals.lookup c.toNat with
        | some capitals => capitals.map Char.ofNat
        | none => [c]

/-- The capital form of a text. -/
def upper (text : String) : String :=
  String.ofList (text.toList.flatMap upperChar)

end ChipAsm.Text
