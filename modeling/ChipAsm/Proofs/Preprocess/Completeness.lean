/-
# Complete expansion

If no macro leads back to itself, an expansion leaves no word that names a macro, and expanding it
again changes nothing. The string literals and the comment of a line stay as they are.

`Expands` describes expansion by the pieces of the line and of its expansion, without the text
expanded so far and without limits. That the macros have whole literals and no comments keeps the
pieces of the expansion apart, so that they are cut again in the same places. `Written`
describes the text and its limit: it is checked after each word, and the words of the
expansion are those at which it was checked before.
-/

import ChipAsm.Proofs.Preprocess.Words
import Mathlib.Logic.Relation

namespace ChipAsm

open Control Piece

namespace Macros

/-- The word is a name that is defined. -/
def Defines (macros : Macros) (word : String) : Prop :=
  Text.isName word = true ∧ macros.contains word = true

/-- The text of the first macro has the second one as a whole word. -/
def Mentions (macros : Macros) (first second : String) : Prop :=
  ∃ value, macros.value? first = some value ∧ Text.WholeWord second value ∧ macros.Defines second

/-- The pieces expand to others while the macros `expanding` are expanded. -/
inductive Expands (macros : Macros) : (expanding : List String) → List Piece → List Piece → Prop
  | nil {expanding : List String} : Expands macros expanding [] []
  | copied {expanding : List String} {text : String} {pieces result : List Piece}
      (expands : Expands macros expanding pieces result) :
      Expands macros expanding (.copied text :: pieces) (.copied text :: result)
  | kept {expanding : List String} {word : String} {pieces result : List Piece}
      (unreplaced : macros.replacement? expanding word = none)
      (expands : Expands macros expanding pieces result) :
      Expands macros expanding (.word word :: pieces) (.word word :: result)
  | replaced {expanding : List String} {word value : String} {inner pieces result : List Piece}
      (replaced : macros.replacement? expanding word = some value)
      (deeper : Expands macros (word :: expanding) (ofLine value) inner)
      (expands : Expands macros expanding pieces result) :
      Expands macros expanding (.word word :: pieces) (inner ++ result)

/-- Writing the pieces after a text gives another, and there is room after each word. -/
inductive Written : (expanded : String) → List Piece → (result : String) → Prop
  | nil {expanded : String} : Written expanded [] expanded
  | copied {expanded text result : String} {pieces : List Piece}
      (written : Written (expanded ++ text) pieces result) :
      Written expanded (.copied text :: pieces) result
  | word {expanded word result : String} {pieces : List Piece}
      (fits : (expanded ++ word).utf8ByteSize ≤ maxExpansion)
      (written : Written (expanded ++ word) pieces result) :
      Written expanded (.word word :: pieces) result

theorem Written.append {expanded middle result : String} {first second : List Piece}
    (written : Written expanded first middle) (more : Written middle second result) :
    Written expanded (first ++ second) result := by
  induction written with
  | nil => exact more
  | copied written ih => exact .copied (ih more)
  | word fits written ih => exact .word fits (ih more)

theorem Written.toList_eq {expanded result : String} {pieces : List Piece}
    (written : Written expanded pieces result) :
    result.toList = expanded.toList ++ spelled pieces := by
  induction written with
  | nil => rw [spelled_nil, List.append_nil]
  | copied written ih =>
      rw [ih, String.toList_append, List.append_assoc]
      rfl
  | word fits written ih => rw [ih, String.toList_append, List.append_assoc, spelled_word_cons]

section Run

variable {macros : Macros}

/-- Where expanding pieces succeeds, they expand to pieces that are written after the text expanded
so far. -/
theorem expands_of_foldlM {expanding : List String}
    {deeper : String → String → String → Except ExpansionFault String}
    (inner : ∀ name value expanded result, deeper name value expanded = .ok result →
      ∃ pieces, macros.Expands (name :: expanding) (ofLine value) pieces ∧
        Written expanded pieces result)
    {pieces : List Piece} {expanded result : String}
    (success : pieces.foldlM (macros.expandPiece expanding deeper) expanded = .ok result) :
    ∃ expansion, macros.Expands expanding pieces expansion ∧ Written expanded expansion result := by
  induction pieces generalizing expanded with
  | nil =>
      rw [List.foldlM_nil, pure_eq_ok_iff] at success
      subst success
      exact ⟨[], .nil, .nil⟩
  | cons piece rest ih =>
      rw [List.foldlM_cons, bind_eq_ok_iff] at success
      obtain ⟨next, stepped, success⟩ := success
      obtain ⟨expansion, expands, written⟩ := ih success
      cases piece with
      | copied text =>
          rw [← Except.ok.inj stepped] at written
          exact ⟨.copied text :: expansion, .copied expands, .copied written⟩
      | word word =>
          obtain ⟨fits, ⟨unreplaced, rfl⟩ | ⟨value, replaced, appends⟩⟩ :=
            expandPiece_word_cases stepped
          · exact ⟨.word word :: expansion, .kept unreplaced expands, .word fits written⟩
          · obtain ⟨inside, deeper, writtenInside⟩ := inner word value expanded next appends
            exact ⟨inside ++ expansion, .replaced replaced deeper expands,
              writtenInside.append written⟩

/-- A line that is expanded, at whatever level, expands to pieces that are written. -/
theorem expands_of_expandInto {levels : Nat} {expanding : List String}
    {expanded line result : String}
    (success : macros.expandInto levels expanding expanded line = .ok result) :
    ∃ expansion, macros.Expands expanding (ofLine line) expansion ∧
      Written expanded expansion result := by
  induction levels generalizing expanding expanded line result with
  | zero =>
      rw [expandInto] at success
      apply expands_of_foldlM _ success
      intro name value expanded result refused
      cases refused
  | succ levels ih =>
      rw [expandInto] at success
      apply expands_of_foldlM _ success
      intro name value expanded result deeper
      exact ih deeper

/-- Pieces of which no word is replaced are copied. -/
theorem foldlM_expandPiece_of_written {expanding : List String}
    {deeper : String → String → String → Except ExpansionFault String} {pieces : List Piece}
    {expanded result : String}
    (unreplaced : ∀ word, .word word ∈ pieces → macros.replacement? expanding word = none)
    (written : Written expanded pieces result) :
    pieces.foldlM (macros.expandPiece expanding deeper) expanded = .ok result := by
  induction written with
  | nil => rfl
  | copied written ih =>
      rw [List.foldlM_cons, expandPiece, ok_bind]
      exact ih fun word member => unreplaced word (List.mem_cons_of_mem _ member)
  | @word expanded word result pieces fits written ih =>
      rw [List.foldlM_cons]
      have kept := unreplaced word List.mem_cons_self
      simp only [expandPiece, kept, ok_bind, if_neg (Nat.not_lt.mpr fits)]
      exact ih fun word member => unreplaced word (List.mem_cons_of_mem _ member)

end Run

theorem replacement?_eq_some_iff {macros : Macros} {expanding : List String} {word value : String} :
    macros.replacement? expanding word = some value ↔
      (Text.isName word = true ∧ word ∉ expanding) ∧ macros.value? word = some value := by
  rw [replacement?, ite_eq_iff]
  simp

theorem Defines.of_replacement? {macros : Macros} {expanding : List String} {word value : String}
    (replaced : macros.replacement? expanding word = some value) : macros.Defines word := by
  obtain ⟨⟨name, -⟩, value⟩ := replacement?_eq_some_iff.mp replaced
  exact ⟨name, by rw [contains, value]; rfl⟩

/-- A word that names a macro is left only while that macro is expanded. -/
theorem Defines.mem_of_unreplaced {macros : Macros} {expanding : List String} {word : String}
    (defines : macros.Defines word) (unreplaced : macros.replacement? expanding word = none) :
    word ∈ expanding := by
  obtain ⟨name, contained⟩ := defines
  obtain ⟨value, found⟩ := Option.isSome_iff_exists.mp contained
  by_contra other
  rw [replacement?_eq_some_iff.mpr ⟨⟨name, other⟩, found⟩] at unreplaced
  cases unreplaced

/-- Where no macro leads back to itself, no word is left that names a macro. -/
theorem Expands.not_defines {macros : Macros}
    (acyclic : ∀ name, ¬Relation.TransGen macros.Mentions name name)
    {expanding : List String} {pieces result : List Piece}
    (expands : macros.Expands expanding pieces result)
    (reached : ∀ word, .word word ∈ pieces → macros.Defines word →
      ∀ name ∈ expanding, Relation.TransGen macros.Mentions name word) :
    ∀ word, .word word ∈ result → ¬macros.Defines word := by
  -- The macros being expanded lead to each word that names a macro, so none of them is that word.
  induction expands with
  | nil => simp
  | copied expands ih =>
      intro left member
      apply ih _ left (by simpa using member)
      exact fun word member => reached word (List.mem_cons_of_mem _ member)
  | @kept expanding word pieces result unreplaced expands ih =>
      intro left member
      rcases List.mem_cons.mp member with same | member
      · obtain rfl := Piece.word.inj same
        intro defines
        have within := defines.mem_of_unreplaced unreplaced
        exact acyclic left (reached left List.mem_cons_self defines left within)
      · apply ih _ left member
        exact fun word member => reached word (List.mem_cons_of_mem _ member)
  | @replaced expanding word value inner pieces result replaced deeper expands ihDeeper ih =>
      intro left member
      rcases List.mem_append.mp member with member | member
      · apply ihDeeper _ left member
        intro next within defines name expanded
        have mention : macros.Mentions word next :=
          ⟨value, (replacement?_eq_some_iff.mp replaced).2, word_mem_ofLine_iff.mp within, defines⟩
        rcases List.mem_cons.mp expanded with rfl | expanded
        · exact .single mention
        · exact (reached word List.mem_cons_self (.of_replacement? replaced) name expanded).tail
            mention
      · apply ih _ left member
        exact fun word member => reached word (List.mem_cons_of_mem _ member)

section Values

variable {macros : Macros}
  (values : ∀ name value, macros.value? name = some value → Text.Outside value.toList)

/-- What does not begin with a word still does not when it is expanded. -/
theorem Expands.head?_ne_word {expanding : List String} {pieces result : List Piece}
    (expands : macros.Expands expanding pieces result)
    (ends : ∀ word, pieces.head? ≠ some (.word word)) (word : String) :
    result.head? ≠ some (.word word) := by
  cases expands with
  | nil => simp
  | copied expands => simp
  | kept unreplaced expands => exact absurd rfl (ends _)
  | replaced replaced deeper expands => exact absurd rfl (ends _)

include values

/-- What replaces a word closes where the macros have whole literals and no comments. -/
theorem closes_of_reworded {expanding : List String} {word value : String} {inner : List Char}
    (replaced : macros.replacement? expanding word = some value)
    (reworded : Text.Reworded false (spelled (ofLine value)) inner) : Closes false inner := by
  apply reworded.closes
  rw [spelled_ofLine]
  exact closes_iff_outside.mpr (values word value (replacement?_eq_some_iff.mp replaced).2)

/-- Words give way to texts that close. -/
theorem Expands.reworded {expanding : List String} {pieces result : List Piece}
    (expands : macros.Expands expanding pieces result) {quoted : Bool} (cut : Cut quoted pieces) :
    Text.Reworded quoted (spelled pieces) (spelled result) := by
  induction expands generalizing quoted with
  | nil => exact .nil
  | copied expands ih =>
      cases cut with
      | comment text =>
          cases expands
          rw [spelled_comment]
          exact .comment text
      | char solid plain cut =>
          rw [spelled_char_cons, spelled_char_cons]
          exact .char solid (ih cut)
  | kept unreplaced expands ih =>
      cases cut with
      | word nonempty named ends cut =>
          exact .word (plain_of_name named) (closes_of_name named) (ih cut)
  | @replaced expanding word value inner pieces result replaced deeper expands ihDeeper ih =>
      cases cut with
      | word nonempty named ends cut =>
          have closes := closes_of_reworded values replaced (ihDeeper (cut_ofLine value))
          rw [spelled_word_cons, spelled_append]
          exact .word (plain_of_name named) closes (ih cut)

/-- The pieces of an expansion are cut again in the same places. -/
theorem Expands.cut {expanding : List String} {pieces result : List Piece}
    (expands : macros.Expands expanding pieces result) {quoted : Bool} (cut : Cut quoted pieces) :
    Cut quoted result := by
  induction expands generalizing quoted with
  | nil => exact cut
  | copied expands ih =>
      cases cut with
      | comment text =>
          cases expands
          exact .comment text
      | char solid plain cut => exact .char solid plain (ih cut)
  | kept unreplaced expands ih =>
      cases cut with
      | word nonempty named ends cut =>
          exact .word nonempty named (expands.head?_ne_word ends) (ih cut)
  | @replaced expanding word value inner pieces result replaced deeper expands ihDeeper ih =>
      cases cut with
      | word nonempty named ends cut =>
          have reworded := deeper.reworded values (cut_ofLine value)
          apply (ihDeeper (cut_ofLine value)).append (closes_of_reworded values replaced reworded)
            (ih cut)
          exact fun _ next _ => expands.head?_ne_word ends next

end Values

/-- Expansion is complete. Where no macro leads back to itself and each text of a macro has whole
literals and no comment, no whole word of an expansion names a macro, the literals and the comment
of the line are kept, and expanding once more changes nothing. -/
theorem expansion_complete {macros : Macros}
    (acyclic : ∀ name, ¬Relation.TransGen macros.Mentions name name)
    (values : ∀ name value, macros.value? name = some value → Text.Outside value.toList)
    {line out : String} (expanded : macros.expand line = .ok out) :
    (∀ word, Text.WholeWord word out → ¬macros.Defines word) ∧
      ((Text.literals line).Sublist (Text.literals out) ∧ Text.comment out = Text.comment line) ∧
      macros.expand out = .ok out := by
  obtain ⟨pieces, expands, written⟩ := expands_of_expandInto expanded
  have reworded := expands.reworded values (cut_ofLine line)
  have spelledOut : spelled pieces = out.toList := by
    rw [written.toList_eq]
    rfl
  have piecesOut : ofLine out = pieces := by
    rw [ofLine, ← spelledOut]
    exact (expands.cut values (cut_ofLine line)).split_spelled
  have complete : ∀ word, .word word ∈ pieces → ¬macros.Defines word :=
    expands.not_defines acyclic (by simp)
  rw [spelled_ofLine, spelledOut] at reworded
  refine ⟨?_, ⟨reworded.literalsFrom_sublist rfl, reworded.commentFrom_eq⟩, ?_⟩
  · intro word whole
    apply complete
    rw [← piecesOut]
    exact word_mem_ofLine_iff.mpr whole
  · rw [expand, maxNesting, expandInto, piecesOut]
    apply foldlM_expandPiece_of_written _ written
    intro word member
    cases replaced : macros.replacement? [] word with
    | none => rfl
    | some value => exact absurd (.of_replacement? replaced) (complete word member)

/-- A macro may lead to another one and have a literal with its own name and a semicolon. -/
theorem expansion_complete_of_nested_macro :
    let macros : Macros := { entries := [("P", "ONE,\"P;\""), ("ONE", "1")] }
    let line := "DB P, \"ONE\" ; P"
    let out := "DB 1,\"P;\", \"ONE\" ; P"
    (∀ name, ¬Relation.TransGen macros.Mentions name name) ∧
      (∀ name value, macros.value? name = some value → Text.Outside value.toList) ∧
      macros.expand line = .ok out ∧ (∀ word, Text.WholeWord word out → ¬macros.Defines word) ∧
      (Text.literals line).Sublist (Text.literals out) ∧ macros.expand out = .ok out := by
  intro macros line out
  have entry : ∀ name value, macros.value? name = some value →
      name = "P" ∧ value = "ONE,\"P;\"" ∨ name = "ONE" ∧ value = "1" := by
    intro name value found
    simpa [macros] using mem_entries_of_value? found
  have mentions : ∀ first second, macros.Mentions first second →
      first = "P" ∧ second = "ONE" := by
    rintro first second ⟨value, found, whole, name, -⟩
    have member := word_mem_ofLine_iff.mpr whole
    rcases entry first value found with ⟨rfl, rfl⟩ | ⟨rfl, rfl⟩
    · have pieces : ofLine "ONE,\"P;\"" =
          [.word "ONE", .copied ",", .copied "\"", .copied "P", .copied ";", .copied "\""] := by
        decide +kernel
      exact ⟨rfl, by simpa [pieces] using member⟩
    · have pieces : ofLine "1" = [.word "1"] := by decide +kernel
      have digit : second = "1" := by simpa [pieces] using member
      rw [digit] at name
      exact absurd name (by decide)
  have acyclic : ∀ name, ¬Relation.TransGen macros.Mentions name name := by
    intro name cycle
    obtain ⟨next, leads, -⟩ := Relation.TransGen.head'_iff.mp cycle
    obtain ⟨previous, -, returns⟩ := Relation.TransGen.tail'_iff.mp cycle
    have same := (mentions name next leads).1.symm.trans (mentions previous name returns).2
    exact absurd same (by decide)
  have values : ∀ name value, macros.value? name = some value → Text.Outside value.toList := by
    intro name value found
    apply closes_iff_outside.mp
    rcases entry name value found with ⟨-, rfl⟩ | ⟨-, rfl⟩
    · exact ⟨by decide, by decide⟩
    · exact ⟨by decide, by decide⟩
  have expanded : macros.expand line = .ok out := by decide +kernel
  obtain ⟨complete, ⟨literals, -⟩, again⟩ := expansion_complete acyclic values expanded
  exact ⟨acyclic, values, expanded, complete, literals, again⟩

end Macros

end ChipAsm
