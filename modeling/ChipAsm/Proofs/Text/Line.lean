/-
# Writing and reading lines

Texts that are written one to a line, each ended by a newline, are read back as the same
lines, apart from a carriage return at the end of a text, which counts as part of the line end.
Whatever text is read, its lines have no newlines.
-/

import ChipAsm.Text.Line

namespace ChipAsm.Text

/-- The text that is read back from a line on which the given text stands. -/
def ended (text : String) : String :=
  String.ofList (endedLine text.toList.reverse)

/-- Reading a line loses at most a carriage return at its end. -/
theorem toList_ended (text : String) :
    text.toList = (ended text).toList ∨ text.toList = (ended text).toList ++ ['\r'] := by
  rw [ended, String.toList_ofList]
  cases backwards : text.toList.reverse with
  | nil =>
      left
      rw [List.reverse_eq_nil_iff.mp backwards]
      rfl
  | cons last rest =>
      have spelled : text.toList = rest.reverse ++ [last] := by
        rw [← List.reverse_cons, ← backwards, List.reverse_reverse]
      by_cases returns : last = '\r'
      · right
        rw [spelled, returns, endedLine]
      · left
        have kept : endedLine (last :: rest) = (last :: rest).reverse := by
          unfold endedLine
          split
          · next equal => exact absurd (List.cons.inj equal).1 returns
          · rfl
        rw [kept, spelled, List.reverse_cons]

/-- A text that does not end in a carriage return is read back as it is. -/
theorem ended_eq_self {text : String} (kept : text.toList.getLast? ≠ some '\r') :
    ended text = text := by
  cases toList_ended text with
  | inl same => exact String.toList_inj.mp same.symm
  | inr longer => exact absurd (by rw [longer, List.getLast?_append]; rfl) kept

/-- The first line ends at the first newline. -/
theorem linesFrom_append_newline {text : List Char} (unbroken : '\n' ∉ text)
    (read rest : List Char) :
    linesFrom read (text ++ '\n' :: rest) =
      endedLine (text.reverse ++ read) :: linesFrom [] rest := by
  induction text generalizing read with
  | nil => rfl
  | cons c text ih =>
      have other : c ≠ '\n' := by
        intro same
        exact unbroken (same ▸ List.mem_cons_self)
      have remaining : '\n' ∉ text := fun later => unbroken (List.mem_cons_of_mem c later)
      rw [List.cons_append, linesFrom, if_neg other, ih remaining, List.reverse_cons,
        List.append_assoc]
      rfl

/-- A text without newlines is one line, unless it is empty. -/
theorem linesFrom_unbroken {read text : List Char} (unbroken : '\n' ∉ text)
    (nonempty : text.reverse ++ read ≠ []) :
    linesFrom read text = [(text.reverse ++ read).reverse] := by
  induction text generalizing read with
  | nil =>
      rw [linesFrom, if_neg (by simpa using nonempty)]
      rfl
  | cons c text ih =>
      rw [List.mem_cons, not_or] at unbroken
      obtain ⟨other, remaining⟩ := unbroken
      rw [linesFrom, if_neg (Ne.symm other), ih remaining (by simp), List.reverse_cons,
        List.append_assoc]
      rfl

theorem lines_unbroken {text : String} (unbroken : '\n' ∉ text.toList) (nonempty : text ≠ "") :
    lines text = [text] := by
  have some : text.toList ≠ [] := fun none => nonempty (String.toList_eq_nil_iff.mp none)
  rw [lines, linesFrom_unbroken unbroken (by simpa using some)]
  simp

/-- The lines of a text that was written line by line. -/
theorem lines_join {texts : List String} (unbroken : ∀ text ∈ texts, '\n' ∉ text.toList) :
    lines (String.join (texts.map (· ++ "\n"))) = texts.map ended := by
  induction texts with
  | nil => rfl
  | cons text rest ih =>
      obtain ⟨first, others⟩ := List.forall_mem_cons.mp unbroken
      have spelled : (String.join ((text :: rest).map (· ++ "\n"))).toList =
          text.toList ++ '\n' :: (String.join (rest.map (· ++ "\n"))).toList := by
        rw [List.map_cons, String.join_cons, String.toList_append, String.toList_append,
          List.append_assoc]
        rfl
      rw [lines, spelled, linesFrom_append_newline first, List.map_cons, List.append_nil,
        List.map_cons]
      exact congrArg (ended text :: ·) (ih others)

/-- The end of a line adds no character to it. -/
theorem mem_of_mem_endedLine {read : List Char} {c : Char} (member : c ∈ endedLine read) :
    c ∈ read := by
  unfold endedLine at member
  split at member
  · exact List.mem_cons_of_mem _ (List.mem_reverse.mp member)
  · exact List.mem_reverse.mp member

theorem newline_not_mem_of_mem_linesFrom {read text line : List Char} (unbroken : '\n' ∉ read)
    (member : line ∈ linesFrom read text) : '\n' ∉ line := by
  induction text generalizing read with
  | nil =>
      rw [linesFrom] at member
      split at member
      · cases member
      · rw [List.mem_singleton.mp member, List.mem_reverse]
        exact unbroken
  | cons c rest ih =>
      rw [linesFrom] at member
      split at member
      · rcases List.mem_cons.mp member with rfl | later
        · exact fun broken => unbroken (mem_of_mem_endedLine broken)
        · exact ih List.not_mem_nil later
      · next other =>
          apply ih _ member
          rw [List.mem_cons, not_or]
          exact ⟨Ne.symm other, unbroken⟩

/-- There is no newline in a line of a text. -/
theorem newline_not_mem_of_mem_lines {text line : String} (member : line ∈ lines text) :
    '\n' ∉ line.toList := by
  obtain ⟨characters, found, rfl⟩ := List.mem_map.mp member
  rw [String.toList_ofList]
  exact newline_not_mem_of_mem_linesFrom List.not_mem_nil found

end ChipAsm.Text
