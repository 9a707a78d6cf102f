/-
# Symbols

The addresses of labels. A name is bound once; addresses have 16 bits.
-/

import ChipAsm.Statement

namespace ChipAsm

/-- The address of a label and the line that defined it. -/
structure Symbol where
  address : UInt16
  line : Nat
  deriving DecidableEq, Repr

/-- The symbols that are bound, the latest first. -/
structure SymbolTable where
  entries : List (String × Symbol) := []
  deriving DecidableEq, Repr, Inhabited

namespace SymbolTable

/-- The symbol of a name. -/
def find? (table : SymbolTable) (name : String) : Option Symbol :=
  table.entries.lookup name

/-- The address of a name. -/
def resolve? (table : SymbolTable) (name : String) : Option UInt16 :=
  (table.find? name).map (·.address)

/-- The number of names that are bound. -/
def size (table : SymbolTable) : Nat :=
  table.entries.length

/-- The greatest address of a label. -/
def maxAddress : Nat := 0xFFFF

/-- Binds a label to an offset of the image. -/
def define (table : SymbolTable) (label : Label) (offset : Nat) :
    Except Diagnostic SymbolTable :=
  match table.find? label.name with
  | some first =>
      .error (label.place.diagnostic (.duplicateLabel label.name first.line))
  | none =>
      if offset ≤ maxAddress then
        let symbol := { address := UInt16.ofNat offset, line := label.place.line }
        .ok { entries := (label.name, symbol) :: table.entries }
      else
        .error (label.place.diagnostic
          (.outOfRange (.labelAddress label.name) (signedOffset offset) 0 maxAddress))

end SymbolTable

end ChipAsm
