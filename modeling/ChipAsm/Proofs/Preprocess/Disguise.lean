/-
# Lines taken for markers

The preprocessor tells control lines by their first character, before macros are expanded. The
reader tells markers by the first token of a line after that, and it leaves out commas. So a line
of the source can pass the preprocessor as a text and then be taken for a marker: because a macro
put the word `#line` at its beginning, or because a comma stands before that word. These are the
only two ways.
-/

import ChipAsm.Proofs.Preprocess.Place
import ChipAsm.Proofs.Preprocess.Unbroken

namespace ChipAsm

/-- What separates tokens is blank, apart from commas. -/
theorem Token.isBlank_of_isGap {c : Char} (gap : isGap c = true) : Text.isBlank c = true := by
  simp only [isGap, Bool.or_eq_true, beq_iff_eq] at gap
  rcases gap with (((rfl | rfl) | rfl) | rfl) | rfl <;> decide

/-- A line on which the keyword of a marker stands after gaps and at least one comma. -/
def Disguised (raw : String) : Prop :=
  ∃ before after, raw.toList = before ++ ("#line".toList ++ after) ∧ ',' ∈ before ∧
    ∀ c ∈ before, Token.isGap c = true ∨ c = ','

/-- A line that begins as a marker and is no control line is a disguised marker. -/
theorem disguised_of_lead? {raw : String} (unbroken : '\n' ∉ raw.toList)
    (plain : Control.ofLine? raw = none)
    (leads : Token.lead? (Token.scan raw) = some "#line") : Disguised raw := by
  obtain ⟨before, after, spelled, separates⟩ :=
    Token.exists_separators_of_lead? (by decide) unbroken leads
  refine ⟨before, after, spelled, ?_, separates⟩
  by_contra noComma
  -- Without a comma the line begins with blanks and the keyword, so it is a control line.
  have blanks : ∀ c ∈ before, Text.isBlank c = true := by
    intro c member
    rcases separates c member with gap | comma
    · exact Token.isBlank_of_isGap gap
    · exact absurd (comma ▸ member) noComma
  have opens : Text.trimStart raw.toList = '#' :: ("line".toList ++ after) := by
    rw [spelled, Text.trimStart, List.dropWhile_append_of_pos blanks]
    exact Text.trimStart_cons (by decide) _
  simp [Control.ofLine?, opens] at plain

namespace Preprocess

/-- A text that begins as a marker comes from a line that macros changed, or from a disguised
marker. -/
theorem ComesFrom.exists_raw {library : Library} {macros : Macros} {file : Path}
    {source : String} {line : SourceLine} {origin : Place} {content : String}
    (comes : ComesFrom library macros file source line origin content)
    (leads : Token.lead? (Token.scan line.text) = some "#line") :
    ∃ raw, (raw, origin.line) ∈ (Text.lines content).zipIdx 1 ∧ Control.ofLine? raw = none ∧
      (line.text ≠ raw ∨ Disguised raw) := by
  obtain ⟨depth, state, before, raw, after, -, split, plain, -⟩ := comes
  have member : (raw, origin.line) ∈ (Text.lines content).zipIdx 1 := by
    rw [split]
    simp
  refine ⟨raw, member, plain, ?_⟩
  by_cases unchanged : line.text = raw
  · right
    rw [unchanged] at leads
    apply disguised_of_lead? _ plain leads
    exact Text.newline_not_mem_of_mem_lines (List.fst_mem_of_mem_zipIdx member)
  · exact .inl unchanged

end Preprocess

/-- What the reader takes for a marker is a marker that the preprocessor wrote, or a text that
begins with the keyword of a marker although the line it comes from is no control line: because
macros changed that line, or because the line is a disguised marker. Every other line moves the
reader to the next line and nowhere else. -/
theorem taken_for_marker (library : Preprocess.Library) (macros : Macros) (file : Path)
    (source out : String) (unbroken : macros.Unbroken)
    (preprocessed : preprocess library macros file source = .ok out)
    (named : ∀ line ∈ (Preprocess.run library macros file source).lines.toList,
      0x0A ∉ line.place.file.bytes) :
    let lines := (Preprocess.run library macros file source).lines.toList
    let written := Written.ofLines { file, line := 1 } lines
    Text.lines out = (written.map fun item => Text.ended item.spelling) ∧
    ∀ item ∈ written,
      (∀ arguments, LineForm.ofText (Text.ended item.spelling) = .marker arguments →
        (∃ place, item = .marker place) ∨
        ∃ line origin content raw, item = .text line ∧
          Preprocess.ComesFrom library macros file source line origin content ∧
          (raw, origin.line) ∈ (Text.lines content).zipIdx 1 ∧ Control.ofLine? raw = none ∧
          (line.text ≠ raw ∨ Disguised raw)) ∧
      ((∀ arguments, LineForm.ofText (Text.ended item.spelling) ≠ .marker arguments) →
        ∀ reader : Reader,
          (reader.readLine (Text.ended item.spelling)).place = reader.place.next) := by
  intro lines written
  have texts := Preprocess.newline_not_mem_of_mem_run unbroken preprocessed
  refine ⟨?_, ?_⟩
  · rw [Preprocess.State.eq_render_of_result preprocessed]
    exact SourceLine.lines_render_of_unbroken
      (fun line member => ⟨named line member, texts line member⟩) file
  · intro item member
    constructor
    · intro arguments form
      cases item with
      | marker place => exact .inl ⟨place, rfl⟩
      | text line =>
          right
          have passed : line ∈ lines := by
            rw [← Written.filterMap_passed?_ofLines { file, line := 1 } lines]
            exact List.mem_filterMap.mpr ⟨.text line, member, rfl⟩
          have leads : Token.lead? (Token.scan line.text) = some "#line" := by
            by_contra unmarked
            exact Token.lead?_scan_ended (texts line passed) unmarked
              (LineForm.lead?_of_marker form)
          obtain ⟨origin, content, comes⟩ :=
            Preprocess.traced_run line (Array.mem_toList_iff.mp passed)
          obtain ⟨raw, stands, plain, ways⟩ := comes.exists_raw leads
          exact ⟨line, origin, content, raw, rfl, comes, stands, plain, ways⟩
    · intro plain reader
      rw [Reader.readLine_eq_readForm, Reader.place_readForm]
      exact LineForm.next_of_ne_marker plain reader.place

/-- A line that a macro changes into a marker, and a disguised marker, both from the given file. -/
theorem taken_for_marker_of_macro_and_comma :
    let library : Preprocess.Library := { load := fun _ => none, directories := [] }
    let source := "#define M #line\nM 50\n, #line 60\nnop"
    let out := "#line 2 \"main\"\n#line 50\n, #line 60\nnop\n"
    preprocess library {} (.ofText "main") source = .ok out ∧
      (∃ origin content, Preprocess.ComesFrom library {} (.ofText "main") source
        ⟨⟨.ofText "main", 2⟩, "#line 50"⟩ origin content) ∧
      (∃ origin content, Preprocess.ComesFrom library {} (.ofText "main") source
        ⟨⟨.ofText "main", 3⟩, ", #line 60"⟩ origin content) ∧
      ∀ reader : Reader, (reader.readLine "nop").place = reader.place.next := by
  intro library source out
  have preprocessed : preprocess library {} (.ofText "main") source = .ok out := by decide +kernel
  have lines : (Preprocess.run library {} (.ofText "main") source).lines.toList =
      [⟨⟨.ofText "main", 2⟩, "#line 50"⟩, ⟨⟨.ofText "main", 3⟩, ", #line 60"⟩,
        ⟨⟨.ofText "main", 4⟩, "nop"⟩] := by
    decide +kernel
  have taken := (taken_for_marker library {} (.ofText "main") source out (by decide) preprocessed
    (by rw [lines]; decide)).2
  rw [lines] at taken
  refine ⟨preprocessed, ?_, ?_, ?_⟩
  · have form : LineForm.ofText (Text.ended "#line 50") = .marker [⟨.word, 6, "50"⟩] := by
      decide +kernel
    rcases (taken (.text ⟨⟨.ofText "main", 2⟩, "#line 50"⟩) (by decide +kernel)).1 _ form with
      ⟨place, ⟨⟩⟩ | ⟨_, origin, content, _, ⟨⟩, comes, -⟩
    exact ⟨origin, content, comes⟩
  · have form : LineForm.ofText (Text.ended ", #line 60") = .marker [⟨.word, 8, "60"⟩] := by
      decide +kernel
    rcases (taken (.text ⟨⟨.ofText "main", 3⟩, ", #line 60"⟩) (by decide +kernel)).1 _ form with
      ⟨place, ⟨⟩⟩ | ⟨_, origin, content, _, ⟨⟩, comes, -⟩
    exact ⟨origin, content, comes⟩
  · have form : LineForm.ofText (Text.ended "nop") =
        .instruction none ⟨.word, 0, "nop"⟩ [] := by decide +kernel
    have moves := (taken (.text ⟨⟨.ofText "main", 4⟩, "nop"⟩) (by decide +kernel)).2
    intro reader
    apply moves
    intro arguments marked
    cases form.symm.trans marked

/-- Not every line that the reader takes for a marker was written as one. Here no marker is
written, yet the first line is taken for one, and the fault of the second line is blamed on a line
that the source does not have. -/
theorem disguised_marker_moves_reader :
    let library : Preprocess.Library := { load := fun _ => none, directories := [] }
    let source := ", #line 50\n1bad: NOP\n"
    preprocess library {} (.ofText "main.asm") source = .ok source ∧
      Written.ofLines ⟨.ofText "main.asm", 1⟩
          (Preprocess.run library {} (.ofText "main.asm") source).lines.toList =
        [.text ⟨⟨.ofText "main.asm", 1⟩, ", #line 50"⟩,
          .text ⟨⟨.ofText "main.asm", 2⟩, "1bad: NOP"⟩] ∧
      LineForm.ofText ", #line 50" = .marker [⟨.word, 8, "50"⟩] ∧
      parse (.ofText "main.asm") source =
        .error [⟨.ofText "main.asm", some 50, .line (.invalidLabel "1bad" 1)⟩] := by
  decide +kernel

end ChipAsm
