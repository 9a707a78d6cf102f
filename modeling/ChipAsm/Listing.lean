/-
# Listings

A listing shows, statement by statement, at which address it wrote which bytes.
-/

import ChipAsm.Output
import ChipAsm.Text.Hex

namespace ChipAsm

/-- What one statement wrote, and where. -/
structure ListingEntry where
  address : Nat
  bytes : Array UInt8
  source : String
  deriving DecidableEq, Repr

namespace ListingEntry

/-- The width that is filled up with spaces for the bytes. -/
def bytesWidth : Nat := 8

/-- The line of the listing. -/
def render (entry : ListingEntry) : String :=
  let bytes := " ".intercalate (entry.bytes.toList.map fun byte => Text.hex 2 byte.toNat)
  let padded := bytes ++ String.ofList (List.replicate (bytesWidth - bytes.length) ' ')
  Text.hex 4 entry.address ++ "  " ++ padded ++ "  " ++ entry.source

end ListingEntry

/-- The text of a listing. -/
def renderListing (entries : List ListingEntry) : String :=
  String.join (entries.map fun entry => entry.render ++ "\n")

namespace Output

/-- The entry for the statement that was just placed, and the output ready for the
next one. A statement that wrote nothing is listed where it began. -/
def record (output : Output) (statement : Statement) : ListingEntry × Output :=
  ({ address := output.start.getD output.origin, bytes := output.trace,
     source := statement.render },
    { output with start := none, trace := #[] })

/-- Begins a statement at the cursor. -/
def begin (output : Output) : Output :=
  { output with origin := output.cursor }

end Output

end ChipAsm
