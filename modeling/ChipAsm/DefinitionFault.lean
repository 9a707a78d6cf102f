/-
# Faults of opcode definitions

An opcode is defined by a pattern of six nibbles and a format. This module holds
the letters that both may contain and the reasons for which a definition, or a
table of definitions, is refused.
-/

namespace ChipAsm

/-- The letters that stand for operand values in patterns and formats. -/
inductive Letter
  | n
  | w
  | x
  | y
  | z
  deriving DecidableEq, Repr

namespace Letter

/-- The letter as it is written. -/
def char : Letter → Char
  | n => 'n'
  | w => 'w'
  | x => 'x'
  | y => 'y'
  | z => 'z'

/-- The letter that the character writes. -/
def ofChar? : Char → Option Letter
  | 'n' => some n
  | 'w' => some w
  | 'x' => some x
  | 'y' => some y
  | 'z' => some z
  | _ => none

end Letter

/-- Why a definition or a table of definitions is refused. -/
inductive DefinitionFault
  | patternLength (pattern : String)
  | patternAlphabet (pattern : String) (found : Char)
  | noFixedNibble (pattern : String)
  | splitLetter (pattern : String) (letter : Letter)
  | emptyFormat (pattern : String)
  | lowercaseMnemonic (mnemonic : String)
  | unbalanced (operand : String)
  | unknownOperand (operand : String)
  | unboundLetter (pattern format : String) (letter : Letter)
  | ambiguous (first second : String)
  deriving DecidableEq, Repr

/-- The wording of a definition fault. -/
def DefinitionFault.message : DefinitionFault → String
  | patternLength pattern => s!"pattern '{pattern}' must be exactly 6 nibbles long"
  | patternAlphabet pattern found =>
      s!"pattern '{pattern}' contains '{found}', expected a hex digit, '_' or one of n, w, x, y, z"
  | noFixedNibble pattern => s!"pattern '{pattern}' has no fixed nibble"
  | splitLetter pattern letter =>
      s!"placeholder '{letter.char}' is split across pattern '{pattern}'"
  | emptyFormat pattern => s!"format for pattern '{pattern}' has no mnemonic"
  | lowercaseMnemonic mnemonic => s!"mnemonic '{mnemonic}' must be uppercase"
  | unbalanced operand => s!"operand '{operand}' has unbalanced brackets"
  | unknownOperand operand => s!"unknown operand '{operand}'"
  | unboundLetter pattern format letter =>
      s!"'{format}' uses placeholder '{letter.char}', which pattern '{pattern}' doesn't contain"
  | ambiguous first second => s!"'{first}' and '{second}' have the same fixed bits"

end ChipAsm
