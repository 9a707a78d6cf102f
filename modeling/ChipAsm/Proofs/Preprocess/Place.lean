/-
# Places after preprocessing

The places of lines survive preprocessing: the reader of the preprocessed text comes to each
line that was passed on at the place that was reported for it. This needs the places to fit in
markers, and lines that cannot be taken for markers. The name of a file survives if it is a text;
a marker shows any other name by a text, which can lead the reader to another file.
-/

import ChipAsm.Proofs.Preprocess.Marker
import ChipAsm.Proofs.Preprocess.Origin

namespace ChipAsm

/-- A marker stands on one line. -/
theorem Place.newline_not_mem_marker {place : Place}
    (noNewline : 0x0A ∉ place.file.bytes) : '\n' ∉ place.marker.toList := by
  have spelled : (toString place.line).toList = Nat.toDigits 10 place.line := Nat.toList_repr
  have digits : '\n' ∉ Nat.toDigits 10 place.line := by
    intro member
    exact absurd (Text.isDigit_of_mem_toDigits member) (by decide)
  rw [toList_marker, spelled]
  simp [Path.newline_not_mem_shown noNewline, digits]

/-- Texts that stand on one line, in files whose names do, are read back from the text that is
written for them. -/
theorem SourceLine.lines_render_of_unbroken {lines : List SourceLine}
    (unbroken : ∀ line ∈ lines, 0x0A ∉ line.place.file.bytes ∧ '\n' ∉ line.text.toList)
    (file : Path) :
    Text.lines (render file lines) =
      (Written.ofLines { file, line := 1 } lines).map fun item => Text.ended item.spelling := by
  rw [render, ← Written.map_spelling_ofLines, Text.lines_join, List.map_map]
  · rfl
  · intro text member
    obtain ⟨item, written, rfl⟩ := List.mem_map.mp member
    apply Written.forall_mem_ofLines (fun item => '\n' ∉ item.spelling.toList) _ _ item written
    intro line passed
    exact ⟨Place.newline_not_mem_marker (unbroken line passed).1, (unbroken line passed).2⟩

/-- Lines that can be written are read back from the text that is written for them. -/
theorem SourceLine.lines_render {lines : List SourceLine}
    (writable : ∀ line ∈ lines, line.Writable) (file : Path) :
    Text.lines (render file lines) =
      (Written.ofLines { file, line := 1 } lines).map fun item => Text.ended item.spelling :=
  lines_render_of_unbroken
    (fun line passed => ⟨(writable line passed).noNewline, (writable line passed).unbroken⟩) file

/-- The preprocessed text is what is written for the lines passed on. -/
theorem Preprocess.State.eq_render_of_result {state : State} {file : Path} {out : String}
    (given : state.result file = .ok out) : out = SourceLine.render file state.lines.toList := by
  unfold result at given
  split at given
  · exact (Except.ok.inj given).symm
  · exact absurd given (by simp)

/-- Places survive preprocessing. If the lines passed on can be written, the preprocessed text
consists of these lines with markers between them. A reader that begins at the first line of
the file takes each marker for what it is, without a fault, and comes to each line at a place
that is read as the one reported for it, so that the instruction, the label and the faults of the
line are placed there. That is the reported place, unless the name of its file is no text: then it
can be the same line of the file that the shown name names. Each line comes from a line of a file
that was worked through, and is reported there unless the file moves its positions. -/
theorem places_survive_preprocessing (library : Preprocess.Library) (macros : Macros)
    (file : Path) (source out : String)
    (preprocessed : preprocess library macros file source = .ok out)
    (writable : ∀ line ∈ (Preprocess.run library macros file source).lines.toList,
      line.Writable) :
    let lines := (Preprocess.run library macros file source).lines.toList
    let written := Written.ofLines { file, line := 1 } lines
    let read := List.map fun item : Written => Text.ended item.spelling
    Text.lines out = read written ∧ written.filterMap Written.passed? = lines ∧
    (∀ before item after, written = before ++ item :: after →
      item.ReadBy ((read before).foldl Reader.readLine (Reader.start file))) ∧
    ∀ line ∈ lines, ∃ origin text,
      Preprocess.ComesFrom library macros file source line origin text ∧
      (origin.file = file ∧ text = source ∨ library.load origin.file = some text) ∧
      ((∀ raw ∈ Text.lines text, ∀ number name,
        Control.ofLine? raw ≠ some (.position number name)) → line.place = origin) := by
  intro lines written read
  have rendered : out = SourceLine.render file lines :=
    Preprocess.State.eq_render_of_result preprocessed
  have inStep : (Reader.start file).InStep written :=
    Reader.inStep_ofLines writable (Place.readAs_of_sameAs (Place.sameAs_refl _))
  refine ⟨?_, Written.filterMap_passed?_ofLines _ lines, ?_, ?_⟩
  · rw [rendered]
    exact SourceLine.lines_render writable file
  · intro before item after split
    rw [split] at inStep
    exact inStep.readBy
  · intro line member
    obtain ⟨origin, text, comes⟩ := Preprocess.traced_run line (Array.mem_toList_iff.mp member)
    exact ⟨origin, text, comes, comes.given_or_loaded, comes.place_eq⟩

/-- A file that includes another one and moves its positions after that. -/
theorem places_survive_inclusion :
    let library : Preprocess.Library :=
      { load := fun path => if path = .ofText "lib/io" then some "; ports\nout: nop" else none
        directories := [.ofText "lib"] }
    let source := "start:\n#include <io>\nnop\n#line 40 \"gen\"\nnop\n"
    let out := "start:\n#line 1 \"lib/io\"\n; ports\nout: nop\n#line 3 \"main\"\nnop\n" ++
      "#line 40 \"gen\"\nnop\n"
    preprocess library {} (.ofText "main") source = .ok out ∧
      (∀ line ∈ (Preprocess.run library {} (.ofText "main") source).lines.toList, line.Writable) ∧
      (((Text.lines out).take 3).foldl Reader.readLine (Reader.start (.ofText "main"))).place.sameAs
        ⟨.ofText "lib/io", 2⟩ = true ∧
      (((Text.lines out).take 7).foldl Reader.readLine (Reader.start (.ofText "main"))).place.sameAs
        ⟨.ofText "gen", 40⟩ = true := by
  intro library source out
  have preprocessed : preprocess library {} (.ofText "main") source = .ok out := by decide +kernel
  have writable : ∀ line ∈ (Preprocess.run library {} (.ofText "main") source).lines.toList,
      line.Writable := by decide +kernel
  obtain ⟨same, -, places, -⟩ := places_survive_preprocessing library {} (.ofText "main") source out
    preprocessed writable
  refine ⟨preprocessed, writable, ?_, ?_⟩
  · rw [same, ← List.map_take]
    refine Place.ReadAs.sameAs_of_isText (places _ (.text ⟨⟨.ofText "lib/io", 2⟩, "out: nop"⟩)
      [.marker ⟨.ofText "main", 3⟩, .text ⟨⟨.ofText "main", 3⟩, "nop"⟩,
        .marker ⟨.ofText "gen", 40⟩, .text ⟨⟨.ofText "gen", 40⟩, "nop"⟩] ?_).1
      (Path.isText_ofText _)
    decide +kernel
  · rw [same, ← List.map_take]
    refine Place.ReadAs.sameAs_of_isText
      (places _ (.text ⟨⟨.ofText "gen", 40⟩, "nop"⟩) [] ?_).1 (Path.isText_ofText _)
    decide +kernel

/-- The name of the included file is no text, so the marker before its line names another file,
and the reader comes to the line in that file. -/
theorem marker_names_another_file :
    let directory : Path := ⟨[0x64, 0xFF]⟩
    let included := directory.join (.ofText "x.asm")
    let library : Preprocess.Library :=
      { load := fun path => if path = included then some "NOP\n" else none
        directories := [directory] }
    let source := "#include <x.asm>\n"
    let out := "#line 1 \"d\uFFFD/x.asm\"\nNOP\n"
    preprocess library {} (.ofText "main.asm") source = .ok out ∧
      (Preprocess.run library {} (.ofText "main.asm") source).lines.toList =
        [⟨⟨included, 1⟩, "NOP"⟩] ∧
      SourceLine.Writable ⟨⟨included, 1⟩, "NOP"⟩ ∧
      parse (.ofText "main.asm") out =
        .ok [.instruction none ⟨"NOP", [], ⟨.ofText "d\uFFFD/x.asm", 1⟩⟩] ∧
      Path.sameAs (.ofText "d\uFFFD/x.asm") included = false := by
  decide +kernel

end ChipAsm
