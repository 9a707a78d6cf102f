/-
# What expansion keeps

The pieces of a line are the line. So a line is its own expansion where no macro is defined, unless
it is too long to be an expansion at all, and whatever macros are defined, the characters of an
expansion are those of the line and of their texts.
-/

import ChipAsm.Preprocess.Expansion
import ChipAsm.Proofs.Except

namespace ChipAsm

namespace Piece

/-- The pieces of a text are the text. -/
theorem join_split (quoted : Bool) (text : List Char) :
    String.join ((split quoted text).map Piece.text) = String.ofList text := by
  fun_induction split quoted text with
  | case1 quoted => rfl
  | case2 quoted c rest comment => simp [Piece.text]
  | case3 quoted c rest noComment name ih =>
      have parts : c :: rest =
          (c :: rest.takeWhile Text.isNameChar) ++ rest.dropWhile Text.isNameChar := by
        rw [List.cons_append, List.takeWhile_append_dropWhile]
      rw [List.map_cons, String.join_cons, ih, Piece.text, ← String.ofList_append, ← parts]
  | case4 quoted c rest noComment noName ih =>
      rw [List.map_cons, String.join_cons, ih, Piece.text, String.ofList_cons]

theorem join_ofLine (line : String) :
    String.join ((ofLine line).map Piece.text) = line := by
  rw [ofLine, join_split, String.ofList_toList]

/-- The characters of a piece are characters of the line. -/
theorem subset_of_mem_ofLine {line : String} {piece : Piece} (member : piece ∈ ofLine line) :
    piece.text.toList ⊆ line.toList := by
  intro c within
  rw [← join_ofLine line, String.toList_join]
  exact List.mem_flatMap.mpr ⟨piece.text, List.mem_map_of_mem member, within⟩

end Piece

namespace Macros

/-- Pieces in which no word is replaced are copied, if there is room for them. -/
theorem foldlM_expandPiece_of_unreplaced {macros : Macros} {expanding : List String}
    {deeper : String → String → String → Except ExpansionFault String}
    (unreplaced : ∀ word, macros.replacement? expanding word = none) {pieces : List Piece}
    {expanded : String}
    (fits : (expanded ++ String.join (pieces.map Piece.text)).utf8ByteSize ≤ maxExpansion) :
    pieces.foldlM (macros.expandPiece expanding deeper) expanded =
      .ok (expanded ++ String.join (pieces.map Piece.text)) := by
  induction pieces generalizing expanded with
  | nil =>
      rw [List.map_nil, String.join_nil, String.append_empty]
      rfl
  | cons piece rest ih =>
      rw [List.map_cons, String.join_cons, ← String.append_assoc] at fits ⊢
      have copied : macros.expandPiece expanding deeper expanded piece =
          .ok (expanded ++ piece.text) := by
        cases piece with
        | copied text => rfl
        | word word =>
            have within : ¬maxExpansion < (expanded ++ word).utf8ByteSize := by
              rw [String.utf8ByteSize_append] at fits
              exact Nat.not_lt.mpr (Nat.le_trans (Nat.le_add_right _ _) fits)
            simp only [expandPiece, unreplaced, ok_bind, if_neg within, Piece.text]
      rw [List.foldlM_cons, copied, ok_bind]
      exact ih fits

/-- The text that a name stands for is one of those that were defined for it. -/
theorem mem_entries_of_value? {macros : Macros} {name value : String}
    (found : macros.value? name = some value) : (name, value) ∈ macros.entries := by
  obtain ⟨before, after, split, -⟩ := List.lookup_eq_some_iff.mp found
  rw [split]
  exact List.mem_append_right before List.mem_cons_self

/-- How a word is expanded: it is kept, or its text is expanded, and there is room for the
result. -/
theorem expandPiece_word_cases {macros : Macros} {expanding : List String}
    {deeper : String → String → String → Except ExpansionFault String}
    {expanded word result : String}
    (success : macros.expandPiece expanding deeper expanded (.word word) = .ok result) :
    result.utf8ByteSize ≤ maxExpansion ∧
      (macros.replacement? expanding word = none ∧ result = expanded ++ word ∨
        ∃ value, macros.replacement? expanding word = some value ∧
          deeper word value expanded = .ok result) := by
  have checked : ∀ next : String, (if maxExpansion < next.utf8ByteSize then .error .tooLong
      else .ok next : Except ExpansionFault String) = .ok result →
      result.utf8ByteSize ≤ maxExpansion ∧ next = result := by
    intro next within
    split at within
    · cases within
    · next fits =>
        obtain rfl := Except.ok.inj within
        exact ⟨Nat.not_lt.mp fits, rfl⟩
  cases replaced : macros.replacement? expanding word with
  | none =>
      simp only [expandPiece, replaced, ok_bind] at success
      obtain ⟨fits, rfl⟩ := checked _ success
      exact ⟨fits, .inl ⟨rfl, rfl⟩⟩
  | some value =>
      simp only [expandPiece, replaced, bind_eq_ok_iff] at success
      obtain ⟨next, deeper, within⟩ := success
      obtain ⟨fits, rfl⟩ := checked next within
      exact ⟨fits, .inr ⟨value, rfl, deeper⟩⟩

/-- Where no macro is defined, a line is its own expansion. -/
theorem expand_of_undefined {macros : Macros} (undefined : ∀ name, macros.value? name = none)
    {line : String} (fits : line.utf8ByteSize ≤ maxExpansion) :
    macros.expand line = .ok line := by
  have unreplaced : ∀ word, macros.replacement? [] word = none := by
    intro word
    rw [replacement?, undefined, ite_self]
  have pieces := Piece.join_ofLine line
  have whole : "" ++ String.join ((Piece.ofLine line).map Piece.text) = line := by
    rw [pieces, String.empty_append]
  rw [expand, maxNesting, expandInto, foldlM_expandPiece_of_unreplaced unreplaced (by rwa [whole]),
    whole]

section Characters

variable {macros : Macros} {c : Char}

/-- A character that occurs in no text of a macro does not occur in what replaces a word. -/
theorem not_mem_of_replacement? (values : ∀ entry ∈ macros.entries, c ∉ entry.2.toList)
    {expanding : List String} {word value : String}
    (replaced : macros.replacement? expanding word = some value) : c ∉ value.toList := by
  unfold replacement? at replaced
  split at replaced
  · exact values _ (mem_entries_of_value? replaced)
  · cases replaced

/-- The expansion of a piece adds no other characters than the piece and the macros have. -/
theorem not_mem_of_expandPiece (values : ∀ entry ∈ macros.entries, c ∉ entry.2.toList)
    {expanding : List String}
    {deeper : String → String → String → Except ExpansionFault String}
    (inner : ∀ name value expanded result, c ∉ value.toList → c ∉ expanded.toList →
      deeper name value expanded = .ok result → c ∉ result.toList)
    {piece : Piece} (given : c ∉ piece.text.toList) {expanded result : String}
    (before : c ∉ expanded.toList)
    (success : macros.expandPiece expanding deeper expanded piece = .ok result) :
    c ∉ result.toList := by
  have appended : c ∉ (expanded ++ piece.text).toList := by
    rw [String.toList_append, List.mem_append, not_or]
    exact ⟨before, given⟩
  cases piece with
  | copied text =>
      rw [← Except.ok.inj success]
      exact appended
  | word word =>
      obtain ⟨-, ⟨-, rfl⟩ | ⟨value, replaced, expandedWord⟩⟩ := expandPiece_word_cases success
      · exact appended
      · exact inner word value expanded result (not_mem_of_replacement? values replaced) before
          expandedWord

theorem not_mem_of_expandInto (values : ∀ entry ∈ macros.entries, c ∉ entry.2.toList)
    (levels : Nat) (expanding : List String) {expanded line result : String}
    (before : c ∉ expanded.toList) (given : c ∉ line.toList)
    (success : macros.expandInto levels expanding expanded line = .ok result) :
    c ∉ result.toList := by
  -- The induction is on the levels: a macro is expanded with one level less.
  induction levels generalizing expanding expanded line result with
  | zero =>
      rw [expandInto] at success
      refine foldlM_keeps (c ∉ String.toList ·) ?_ before success
      intro piece member earlier later lacks stepped
      have within : c ∉ piece.text.toList := fun there =>
        given (Piece.subset_of_mem_ofLine member there)
      exact not_mem_of_expandPiece values (fun _ _ _ _ _ _ refused => by cases refused) within
        lacks stepped
  | succ levels ih =>
      rw [expandInto] at success
      refine foldlM_keeps (c ∉ String.toList ·) ?_ before success
      intro piece member earlier later lacks stepped
      have within : c ∉ piece.text.toList := fun there =>
        given (Piece.subset_of_mem_ofLine member there)
      refine not_mem_of_expandPiece values ?_ within lacks stepped
      intro name value expanded result inValue inExpanded deeper
      exact ih (name :: expanding) inExpanded inValue deeper

/-- A character that occurs neither in a line nor in the text of a macro does not occur in the
expansion of the line. -/
theorem not_mem_of_expand (values : ∀ entry ∈ macros.entries, c ∉ entry.2.toList)
    {line result : String} (given : c ∉ line.toList) (success : macros.expand line = .ok result) :
    c ∉ result.toList :=
  not_mem_of_expandInto values maxNesting [] List.not_mem_nil given success

end Characters

end Macros

end ChipAsm
