/-
# Preprocessing twice

What the preprocessor writes is in its own language: the markers are control lines, and they
move positions to the places that they were written for. So a second run, without macros,
passes on the same texts, reports them at the same places, and needs the same markers in the
same positions.

A place that is not marked may be reported with another spelling of its file the second time,
since the file is then the one that the last marker named. A marker is needed exactly if the
components of the file or the line differ, so the spelling does not matter.

A file whose name is no text is reported by its shown name the second time. If two files are shown
alike, a marker between them is left out the second time, so the files have to be told apart by
their shown names.
-/

import ChipAsm.Proofs.Preprocess.Expansion
import ChipAsm.Proofs.Preprocess.Place
import ChipAsm.Proofs.Text.Blank

namespace ChipAsm

/-! ## Markers as control lines -/

namespace Control

/-- There is no comment in a text without semicolons and quotes. -/
theorem beforeComment_append {text : List Char} (plain : ∀ c ∈ text, c ≠ ';' ∧ c ≠ '"')
    (rest : List Char) :
    beforeComment false (text ++ rest) = text ++ beforeComment false rest := by
  induction text with
  | nil => rfl
  | cons c text ih =>
      obtain ⟨⟨noComment, noQuote⟩, others⟩ := List.forall_mem_cons.mp plain
      have goesOn : (false != (c == '"')) = false := by simp [noQuote]
      rw [List.cons_append, beforeComment, if_neg (by simp [noComment]), goesOn, ih others,
        List.cons_append]

/-- There is no comment inside a string literal. -/
theorem beforeComment_quoted {body : List Char} (noQuote : '"' ∉ body) :
    beforeComment true (body ++ ['"']) = body ++ ['"'] := by
  induction body with
  | nil => rfl
  | cons c body ih =>
      have inside : c ≠ '"' := fun same => noQuote (same ▸ List.mem_cons_self)
      have remaining : '"' ∉ body := fun later => noQuote (List.mem_cons_of_mem c later)
      have goesOn : (true != (c == '"')) = true := by simp [inside]
      rw [List.cons_append, beforeComment, if_neg (by simp), goesOn, ih remaining]

/-- A line is no control line if its first character that is not blank is no `#`. -/
theorem ofLine?_eq_none {line : String}
    (plain : (Text.trimStart line.toList).head? ≠ some '#') : ofLine? line = none := by
  unfold ofLine?
  split
  · next opens => exact absurd (by rw [opens]; rfl) plain
  · rfl

end Control

namespace Place

/-- The arguments of the marker that moves to this place. -/
def arguments (place : Place) : List Char :=
  (toString place.line).toList ++ ' ' :: '"' :: (place.file.shown.toList ++ ['"'])

theorem toList_marker_eq (place : Place) :
    place.marker.toList = '#' :: ("line".toList ++ ' ' :: place.arguments) :=
  place.toList_marker

theorem isDigit_of_mem_line {place : Place} {c : Char}
    (member : c ∈ (toString place.line).toList) : c.isDigit = true := by
  have spelled : (toString place.line).toList = Nat.toDigits 10 place.line := Nat.toList_repr
  rw [spelled] at member
  exact Text.isDigit_of_mem_toDigits member

/-- There are no blanks around the arguments of a marker. -/
theorem trim_arguments (place : Place) : Text.trim place.arguments = place.arguments := by
  have spelled : (toString place.line).toList = Nat.toDigits 10 place.line := Nat.toList_repr
  unfold arguments
  cases digits : (toString place.line).toList with
  | nil => exact absurd (spelled.symm.trans digits) Nat.toDigits_ne_nil
  | cons first rest =>
      have decimal : first.isDigit = true :=
        isDigit_of_mem_line (digits ▸ List.mem_cons_self)
      have regrouped : (first :: rest) ++ ' ' :: '"' :: (place.file.shown.toList ++ ['"']) =
          first :: ((rest ++ ' ' :: '"' :: place.file.shown.toList) ++ ['"']) := by simp
      rw [regrouped]
      exact Text.trim_eq_self (Text.isBlank_of_isDigit decimal) (by decide)

/-- There is no comment in the arguments of a marker. -/
theorem stripComment_arguments {place : Place} (noQuote : '"' ∉ place.file.shown.toList) :
    Control.stripComment place.arguments = place.arguments := by
  have plain : ∀ c ∈ (toString place.line).toList ++ [' '], c ≠ ';' ∧ c ≠ '"' := by
    intro c member
    rcases List.mem_append.mp member with digit | blank
    · have decimal := isDigit_of_mem_line digit
      constructor <;> rintro rfl <;> exact absurd decimal (by decide)
    · rw [List.mem_singleton.mp blank]
      decide
  have whole : Control.beforeComment false place.arguments = place.arguments := by
    have regrouped : place.arguments =
        ((toString place.line).toList ++ [' ']) ++ '"' :: (place.file.shown.toList ++ ['"']) := by
      simp [arguments]
    rw [regrouped, Control.beforeComment_append plain, Control.beforeComment,
      if_neg (by decide)]
    exact congrArg ((toString place.line).toList ++ [' '] ++ '"' :: ·)
      (Control.beforeComment_quoted noQuote)
  have regrouped : place.arguments =
      ((toString place.line).toList ++ ' ' :: '"' :: place.file.shown.toList) ++ ['"'] := by
    simp [arguments]
  rw [Control.stripComment, whole, regrouped]
  exact Text.trimEnd_concat (by decide) _

/-- The arguments of a marker are the line and the file in quotes. -/
theorem splitWord_arguments (place : Place) :
    Control.splitWord place.arguments =
      ((toString place.line).toList, '"' :: (place.file.shown.toList ++ ['"'])) := by
  have solid : ∀ c ∈ (toString place.line).toList, Text.isBlank c = false :=
    fun c digit => Text.isBlank_of_isDigit (isDigit_of_mem_line digit)
  have cut := Text.cut?_append solid (c := ' ') (by decide)
    ('"' :: (place.file.shown.toList ++ ['"']))
  have trimmed : Text.trim ('"' :: (place.file.shown.toList ++ ['"'])) =
      '"' :: (place.file.shown.toList ++ ['"']) := Text.trim_eq_self (by decide) (by decide)
  simp only [Control.splitWord, arguments, cut, trimmed]

/-- A marker is a control line that moves to its place. -/
theorem ofLine?_marker {place : Place} (noQuote : 0x22 ∉ place.file.bytes)
    (bounded : place.line ≤ Text.maxMagnitude) :
    Control.ofLine? place.marker =
      some (.position (some place.line) (some place.file.reread)) := by
  have opens : Text.trimStart place.marker.toList =
      '#' :: ("line".toList ++ ' ' :: place.arguments) := by
    rw [toList_marker_eq]
    exact Text.trimStart_cons (by decide) _
  have named : Text.trimStart ("line".toList ++ ' ' :: place.arguments) =
      "line".toList ++ ' ' :: place.arguments := Text.trimStart_cons (by decide) _
  have keyword : ∀ c ∈ "line".toList, Text.isBlank c = false := by
    have solid : "line".toList.all (fun c => !Text.isBlank c) = true := by decide
    intro c member
    exact (Bool.not_eq_true' _).mp (List.all_eq_true.mp solid c member)
  have cut := Text.cut?_append keyword (c := ' ') (by decide) place.arguments
  simp only [Control.ofLine?, opens, named, Control.splitName, cut, trim_arguments,
    stripComment_arguments (Path.quote_not_mem_shown noQuote), Control.ofParts,
    splitWord_arguments, String.ofList_toList, Text.natural?_toString bounded, Text.unquoted_quotes]
  rfl

end Place

/-! ## Lines that can be preprocessed again -/

/-- A line whose place fits in a marker and whose text is read back as it is: it stands on one
line, is no control line, and is not too long to be an expansion. -/
structure SourceLine.Repeatable (line : SourceLine) : Prop where
  noQuote : 0x22 ∉ line.place.file.bytes
  noNewline : 0x0A ∉ line.place.file.bytes
  bounded : line.place.line ≤ Text.maxMagnitude
  unbroken : '\n' ∉ line.text.toList
  kept : line.text.toList.getLast? ≠ some '\r'
  plain : (Text.trimStart line.text.toList).head? ≠ some '#'
  fits : line.text.utf8ByteSize ≤ maxExpansion

instance : DecidablePred SourceLine.Repeatable := fun line =>
  decidable_of_iff
    (0x22 ∉ line.place.file.bytes ∧ 0x0A ∉ line.place.file.bytes ∧
      line.place.line ≤ Text.maxMagnitude ∧ '\n' ∉ line.text.toList ∧
      line.text.toList.getLast? ≠ some '\r' ∧
      (Text.trimStart line.text.toList).head? ≠ some '#' ∧
      line.text.utf8ByteSize ≤ maxExpansion)
    ⟨fun ⟨noQuote, noNewline, bounded, unbroken, kept, plain, fits⟩ =>
      ⟨noQuote, noNewline, bounded, unbroken, kept, plain, fits⟩,
     fun ⟨noQuote, noNewline, bounded, unbroken, kept, plain, fits⟩ =>
      ⟨noQuote, noNewline, bounded, unbroken, kept, plain, fits⟩⟩

/-- Two lines have the same text, and the place of the first one is read as the place of the
second one. -/
def SourceLine.ReadAs (first second : SourceLine) : Prop :=
  first.place.ReadAs second.place ∧ first.text = second.text

/-- What is written for lines that can be preprocessed again is read back as it is. -/
theorem SourceLine.lines_render_of_repeatable {lines : List SourceLine}
    (repeatable : ∀ line ∈ lines, line.Repeatable) (file : Path) :
    Text.lines (render file lines) =
      (Written.ofLines { file, line := 1 } lines).map Written.spelling := by
  rw [lines_render_of_unbroken
    (fun line member => ⟨(repeatable line member).noNewline, (repeatable line member).unbroken⟩)]
  apply List.map_congr_left
  apply Written.forall_mem_ofLines
  intro line member
  exact ⟨line.place.ended_marker, Text.ended_eq_self (repeatable line member).kept⟩

namespace Preprocess

/-! ## The second run -/

section

variable {library : Library} {enter : Option (Path → String → State → State)} {file : Path}

/-- A marker lets the lines after it be reported at its place. -/
theorem readLine_marker {place : Place} (noQuote : 0x22 ∉ place.file.bytes)
    (bounded : place.line ≤ Text.maxMagnitude) {scan : Scan} (active : scan.isActive = true)
    (number : Nat) :
    readLine library enter file scan (place.marker, number) =
      { scan with
        position := { file := place.file.reread, base := place.line, anchor := number + 1 } } := by
  rw [readLine_of_control (Place.ofLine?_marker noQuote bounded)]
  simp only [obey, if_pos active]
  rfl

/-- Without macros, a line that can be preprocessed again is passed on as it is. -/
theorem readLine_repeatable {line : SourceLine} (repeatable : line.Repeatable) {scan : Scan}
    (active : scan.isActive = true)
    (undefined : ∀ name, scan.state.macros.value? name = none) (number : Nat) :
    readLine library enter file scan (line.text, number) =
      { scan with state := { scan.state with
          lines := scan.state.lines.push ⟨scan.position.report number, line.text⟩ } } := by
  rw [readLine_of_text (Control.ofLine?_eq_none repeatable.plain), Scan.update, if_pos active,
    State.pass, Macros.expand_of_undefined undefined repeatable.fits]

end

/-- The line after a line that positions are anchored at or before is reported right after it. -/
theorem Position.report_succ {position : Position} {number : Nat}
    (anchored : position.anchor ≤ number) :
    position.report (number + 1) = (position.report number).next := by
  simp only [report, Place.next, Nat.sub_add_comm anchored, Nat.add_assoc]

end Preprocess

namespace Written

/-- What is written is read back as what it is. -/
def Repeatable : Written → Prop
  | .marker place => 0x22 ∉ place.file.bytes ∧ place.line ≤ Text.maxMagnitude
  | .text line => line.Repeatable

/-- The lines that are passed on from what is written, where its first line has the given
number, and lines are reported by the given position until the first marker. -/
def reported (position : Preprocess.Position) (number : Nat) : List Written → List SourceLine
  | [] => []
  | .marker place :: rest =>
      reported { file := place.file.reread, base := place.line, anchor := number + 1 }
        (number + 1) rest
  | .text line :: rest =>
      ⟨position.report number, line.text⟩ :: reported position (number + 1) rest

/-- A place needs a marker after another place also if both places are read from markers. -/
theorem not_sameAs_reread {first expected place : Place} (reads : first.ReadAs expected)
    (apart : expected.file.reread.sameAs place.file.reread = true →
      expected.file.sameAs place.file = true)
    (differ : ¬expected.sameAs place = true) : ¬first.sameAs place.reread = true := by
  intro same
  apply differ
  obtain ⟨files, lines⟩ := Place.sameAs_iff.mp same
  have shown : first.file.reread.sameAs place.file.reread = true := by
    rw [← Path.reread_reread place.file]
    exact Path.sameAs_reread (beq_iff_eq.mpr files)
  have alike : expected.file.reread.sameAs place.file.reread = true :=
    beq_iff_eq.mpr ((beq_iff_eq.mp reads.sameAs_reread).symm.trans (beq_iff_eq.mp shown))
  exact Place.sameAs_iff.mpr ⟨beq_iff_eq.mp (apart alike), reads.1.symm.trans lines⟩

/-- The lines passed on from what is written for some lines are these lines, and they need the
same markers. -/
theorem reported_ofLines (position : Preprocess.Position) (number : Nat) {expected : Place}
    (anchored : position.anchor ≤ number) (reads : (position.report number).ReadAs expected)
    (lines : List SourceLine)
    (apart : Path.ToldApart (expected.file :: lines.map fun line => line.place.file)) :
    List.Forall₂ SourceLine.ReadAs (reported position number (ofLines expected lines)) lines ∧
      SourceLine.marked (position.report number)
          (reported position number (ofLines expected lines)) =
        SourceLine.marked expected lines := by
  -- The induction is on the lines. What it carries is that the place where the next line would be
  -- reported is read as the one that the writer expects.
  induction lines generalizing position number expected with
  | nil => exact ⟨.nil, rfl⟩
  | cons line rest ih =>
      have later : Path.ToldApart (line.place.next.file :: rest.map fun line => line.place.file) :=
        fun first member second other => apart first (.tail _ member) second (.tail _ other)
      rw [ofLines, SourceLine.marked]
      by_cases same : expected.sameAs line.place = true
      · have arrives := reads.trans_sameAs same
        have goesOn := Preprocess.Position.report_succ anchored
        obtain ⟨pairs, markers⟩ := ih position (number + 1) (Nat.le_succ_of_le anchored)
          (goesOn ▸ arrives.next) later
        rw [if_pos same, if_pos same, reported]
        refine ⟨.cons ⟨arrives, rfl⟩ pairs, ?_⟩
        rw [SourceLine.marked, if_pos (Place.sameAs_refl _), ← goesOn, markers]
      · let moved : Preprocess.Position :=
          { file := line.place.file.reread, base := line.place.line, anchor := number + 1 }
        have exactly : moved.report (number + 1) = line.place.reread := by
          simp [moved, Preprocess.Position.report, Place.reread]
        have goesOn : moved.report (number + 2) = line.place.reread.next := by
          rw [Preprocess.Position.report_succ (Nat.le_refl _), exactly]
        obtain ⟨pairs, markers⟩ := ih moved (number + 2) (Nat.le_succ (number + 1))
          (goesOn ▸ line.place.readAs_reread.next) later
        rw [if_neg same, if_neg same, reported, reported, exactly]
        refine ⟨.cons ⟨line.place.readAs_reread, rfl⟩ pairs, ?_⟩
        have marked := not_sameAs_reread reads
          (apart _ List.mem_cons_self _ (List.mem_cons_of_mem _ List.mem_cons_self)) same
        rw [SourceLine.marked, if_neg marked, ← goesOn, markers, Place.marker_reread]

end Written

namespace Preprocess

/-- Without macros, what is written is worked through without a fault, and its lines are passed
on. -/
theorem foldl_readLine_written (library : Library)
    (enter : Option (Path → String → State → State)) (file : Path) {items : List Written}
    (repeatable : ∀ item ∈ items, item.Repeatable) (scan : Scan) (active : scan.isActive = true)
    (undefined : ∀ name, scan.state.macros.value? name = none) (number : Nat) :
    ∃ position, ((items.map Written.spelling).zipIdx number).foldl
        (readLine library enter file) scan =
      { scan with
        position
        state := { scan.state with lines :=
          scan.state.lines ++ (Written.reported scan.position number items).toArray } } := by
  induction items generalizing scan number with
  | nil => exact ⟨scan.position, by simp [Written.reported]⟩
  | cons item rest ih =>
      obtain ⟨first, others⟩ := List.forall_mem_cons.mp repeatable
      rw [List.map_cons, List.zipIdx_cons, List.foldl_cons]
      cases item with
      | marker place =>
          let moved : Scan := { scan with
            position := { file := place.file.reread, base := place.line, anchor := number + 1 } }
          rw [Written.spelling, readLine_marker first.1 first.2 active]
          exact ih others moved active undefined (number + 1)
      | text line =>
          let passed : Scan := { scan with state := { scan.state with
            lines := scan.state.lines.push ⟨scan.position.report number, line.text⟩ } }
          rw [Written.spelling, readLine_repeatable first active undefined]
          obtain ⟨position, worked⟩ := ih others passed active undefined (number + 1)
          refine ⟨position, worked.trans ?_⟩
          simp [passed, Written.reported]

/-- Without macros, the text that is written for lines is worked through without a fault, and
these lines are passed on. -/
theorem run_render {lines : List SourceLine} (repeatable : ∀ line ∈ lines, line.Repeatable)
    (library : Library) (file : Path) :
    run library {} file (SourceLine.render file lines) =
      { macros := {}
        lines := (Written.reported { file, base := 1, anchor := 1 } 1
          (Written.ofLines { file, line := 1 } lines)).toArray } := by
  have legible : ∀ item ∈ Written.ofLines { file, line := 1 } lines, item.Repeatable := by
    apply Written.forall_mem_ofLines
    intro line member
    have each := repeatable line member
    exact ⟨⟨each.noQuote, each.bounded⟩, each⟩
  obtain ⟨position, worked⟩ := foldl_readLine_written library
    (enterAt library (maxIncludeDepth - 1)) file legible (Scan.start file { macros := {} }) rfl
    (fun name => rfl) 1
  rw [run, readFile_eq_readLines, readLines, SourceLine.lines_render_of_repeatable repeatable,
    worked]
  simp [Scan.finish, Scan.start]

end Preprocess

/-- Preprocessing is idempotent. If the lines passed on can be preprocessed again, the
preprocessed text goes through the preprocessor unchanged, without macros and whatever files can
be included. The second run passes on the same texts and reports them at the same places, so the
statements and faults that are read from the text, with their places, are those of the first
run. This needs the files to be told apart by their shown names, which they are if their names are
texts. -/
theorem preprocess_own_output (library other : Preprocess.Library) (macros : Macros)
    (file : Path) (source out : String)
    (preprocessed : preprocess library macros file source = .ok out)
    (repeatable : ∀ line ∈ (Preprocess.run library macros file source).lines.toList,
      line.Repeatable)
    (apart : Path.ToldApart (file ::
      (Preprocess.run library macros file source).lines.toList.map fun line => line.place.file)) :
    preprocess other {} file out = .ok out ∧
      List.Forall₂ SourceLine.ReadAs (Preprocess.run other {} file out).lines.toList
        (Preprocess.run library macros file source).lines.toList ∧
      (preprocess other {} file out).bind (parse file) =
        (preprocess library macros file source).bind (parse file) := by
  have rendered := Preprocess.State.eq_render_of_result preprocessed
  have worked := Preprocess.run_render repeatable other file
  rw [← rendered] at worked
  obtain ⟨pairs, markers⟩ := Written.reported_ofLines { file, base := 1, anchor := 1 } 1
    (Nat.le_refl 1) (Place.readAs_of_sameAs (Place.sameAs_refl { file, line := 1 }))
    (Preprocess.run library macros file source).lines.toList apart
  have idempotent : preprocess other {} file out = .ok out := by
    rw [preprocess, worked, Preprocess.State.result, rendered, SourceLine.render,
      SourceLine.render, ← markers]
    rfl
  refine ⟨idempotent, ?_, ?_⟩
  · rw [worked]
    exact pairs
  · rw [idempotent, preprocessed]

/-- A source that includes a file, skips a group and moves its positions, once into the included
file under another spelling, so that no marker is needed there. -/
theorem preprocess_own_output_of_respelled_file :
    let library : Preprocess.Library :=
      { load := fun path => if path = .ofText "lib/io" then some "; ports\nout: dw PORT" else none
        directories := [.ofText "lib"] }
    let source := "#define PORT 0x40\nstart:\n#include <io>\n#ifdef NONE\nnop\n#endif\n" ++
      "#line 3 \"lib//io\"\nnop\n#line 9\nret"
    let out := "#line 2 \"main\"\nstart:\n#line 1 \"lib/io\"\n; ports\nout: dw 0x40\nnop\n" ++
      "#line 9 \"lib//io\"\nret\n"
    preprocess library {} (.ofText "main") source = .ok out ∧
      (∀ line ∈ (Preprocess.run library {} (.ofText "main") source).lines.toList, line.Repeatable) ∧
      Path.ToldApart (.ofText "main" ::
        (Preprocess.run library {} (.ofText "main") source).lines.toList.map
          fun line => line.place.file) ∧
      preprocess { load := fun _ => none, directories := [] } {} (.ofText "main") out =
        .ok out := by
  intro library source out
  have preprocessed : preprocess library {} (.ofText "main") source = .ok out := by decide +kernel
  have repeatable : ∀ line ∈ (Preprocess.run library {} (.ofText "main") source).lines.toList,
      line.Repeatable := by decide +kernel
  have texts : ∀ path ∈ .ofText "main" ::
      (Preprocess.run library {} (.ofText "main") source).lines.toList.map
        fun line => line.place.file, path.IsText := by decide +kernel
  have apart := Path.toldApart_of_isText texts
  exact ⟨preprocessed, repeatable, apart, (preprocess_own_output library _ {} (.ofText "main")
    source out preprocessed repeatable apart).1⟩

/-- Two files whose names are no texts are shown alike, and the last line of the first one is
right before the line of the second one. The second run leaves out the marker between them. -/
theorem preprocess_own_output_loses_marker :
    let first : Path := ⟨[0x64, 0xFE]⟩
    let second : Path := ⟨[0x64, 0xFF]⟩
    let library : Preprocess.Library :=
      { load := fun path =>
          if path = first.join (.ofText "x.asm") then some "A\n"
          else if path = second.join (.ofText "x.asm") then some "#undef Z\nB\n"
          else if path = second.join (.ofText "y.asm") then some "#include \"x.asm\"\n"
          else none
        directories := [first, second] }
    let source := "#include <x.asm>\n#include <y.asm>\n"
    let out := "#line 1 \"d\uFFFD/x.asm\"\nA\n#line 2 \"d\uFFFD/x.asm\"\nB\n"
    preprocess library {} (.ofText "main.asm") source = .ok out ∧
      (∀ line ∈ (Preprocess.run library {} (.ofText "main.asm") source).lines.toList,
        line.Repeatable) ∧
      preprocess { load := fun _ => none, directories := [] } {} (.ofText "main.asm") out =
        .ok "#line 1 \"d\uFFFD/x.asm\"\nA\nB\n" := by
  decide +kernel

end ChipAsm
