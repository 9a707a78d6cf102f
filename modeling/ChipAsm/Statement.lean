/-
# Statements

What a source consists of once its lines are read: instructions, each with at
most one label, and labels that no instruction follows.
-/

import ChipAsm.Diagnostic

namespace ChipAsm

/-- A label and the place where it is written. -/
structure Label where
  name : String
  place : Place
  deriving DecidableEq, Repr

/-- A mnemonic in capitals with its arguments as they were written. -/
structure Instruction where
  mnemonic : String
  arguments : List String
  place : Place
  deriving DecidableEq, Repr

/-- The instruction in its normal spelling. -/
def Instruction.render (instruction : Instruction) : String :=
  match instruction.arguments with
  | [] => instruction.mnemonic
  | arguments => instruction.mnemonic ++ " " ++ ", ".intercalate arguments

/-- The diagnostic that blames this instruction. -/
def Instruction.diagnostic (instruction : Instruction) (fault : Fault) : Diagnostic :=
  instruction.place.diagnostic fault

/-- An instruction with its label, or a label that is followed by another label
or by nothing. -/
inductive Statement
  | instruction (mark : Option Label) (body : Instruction)
  | label (mark : Label)
  deriving DecidableEq, Repr

/-- The statement in its normal spelling. -/
def Statement.render : Statement → String
  | .instruction (some mark) body => mark.name ++ ": " ++ body.render
  | .instruction none body => body.render
  | .label mark => mark.name ++ ":"

end ChipAsm
