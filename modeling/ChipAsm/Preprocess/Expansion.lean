/-
# Macro expansion

Whole words that name a macro are replaced by its text, which is expanded in turn;
a macro is not expanded inside its own expansion. String literals and comments
stay as they are. The nesting of expansions is bounded, and so is the size of what
stands expanded at the end of a word.
-/

import ChipAsm.Fault
import ChipAsm.Preprocess.Macros

namespace ChipAsm

/-- A part of a line: a word that may name a macro, or text that is copied. -/
inductive Piece
  | word (text : String)
  | copied (text : String)
  deriving DecidableEq, Repr

namespace Piece

/-- The text of the piece. -/
def text : Piece → String
  | word text => text
  | copied text => text

/-- The pieces of a text, where `quoted` says whether it begins inside a string
literal. A comment is one piece. -/
def split (quoted : Bool) (text : List Char) : List Piece :=
  match text with
  | [] => []
  | c :: rest =>
      if !quoted && c == ';' then [copied (String.ofList text)]
      else if !quoted && Text.isNameChar c then
        word (String.ofList (c :: rest.takeWhile Text.isNameChar)) ::
          split quoted (rest.dropWhile Text.isNameChar)
      else copied (String.singleton c) :: split (quoted != (c == '"')) rest
termination_by text.length
decreasing_by
  · have shorter := (List.dropWhile_sublist Text.isNameChar (l := rest)).length_le
    simp only [List.length_cons]
    omega
  · simp

/-- The pieces of a line. -/
def ofLine (line : String) : List Piece :=
  split false line.toList

end Piece

namespace Macros

/-- The text that replaces a word while the macros `expanding` are expanded. -/
def replacement? (macros : Macros) (expanding : List String) (word : String) : Option String :=
  if Text.isName word && !expanding.contains word then macros.value? word else none

/-- Appends the expansion of a piece to the text expanded so far. The text of a
macro is expanded by `deeper`, given its name. -/
def expandPiece (macros : Macros) (expanding : List String)
    (deeper : (name value expanded : String) → Except ExpansionFault String)
    (expanded : String) : Piece → Except ExpansionFault String
  | .copied text => .ok (expanded ++ text)
  | .word word => do
      let expanded ←
        match macros.replacement? expanding word with
        | some value => deeper word value expanded
        | none => .ok (expanded ++ word)
      if maxExpansion < expanded.utf8ByteSize then .error .tooLong else .ok expanded

/-- Appends the expansion of a line to the text expanded so far, where `expanding`
are the macros being expanded and `levels` more may be. -/
def expandInto (macros : Macros) :
    (levels : Nat) → (expanding : List String) → (expanded line : String) →
    Except ExpansionFault String
  | 0, expanding, expanded, line =>
      (Piece.ofLine line).foldlM
        (macros.expandPiece expanding fun _ _ _ => .error .tooDeep) expanded
  | levels + 1, expanding, expanded, line =>
      (Piece.ofLine line).foldlM
        (macros.expandPiece expanding fun name value expanded =>
          macros.expandInto levels (name :: expanding) expanded value) expanded

/-- The expansion of a line. -/
def expand (macros : Macros) (line : String) : Except ExpansionFault String :=
  macros.expandInto maxNesting [] "" line

end Macros

end ChipAsm
