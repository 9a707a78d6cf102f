/-
# Reading places back

Between the lines that the preprocessor passes on it writes markers, but only where it takes
the reader to be elsewhere. It takes the reader to be one line further after each line, and so
the reader is, since it goes on by one line whatever a line holds. A marker is read back as the
place that it was written for, if the name of its file is a text. So the reader comes to each line
at the place of that line, except that it can have the shown name of a file for a name that is
no text.

A place that is not marked may be spelled in another way than the reader has it, which is why
places are compared by the components of their files.
-/

import ChipAsm.Preprocess.SourceLine
import ChipAsm.Proofs.Path
import ChipAsm.Proofs.Statement.Reading
import ChipAsm.Proofs.Text.Line
import ChipAsm.Proofs.Text.Numeral
import ChipAsm.Proofs.Token.Scan

namespace ChipAsm

namespace Place

theorem sameAs_iff {first second : Place} :
    first.sameAs second = true ↔
      first.file.components = second.file.components ∧ first.line = second.line := by
  rw [sameAs, Path.sameAs, Bool.and_eq_true, beq_iff_eq, beq_iff_eq]

theorem sameAs_refl (place : Place) : place.sameAs place = true :=
  sameAs_iff.mpr ⟨rfl, rfl⟩

/-- The place that a marker for this place names. -/
def reread (place : Place) : Place :=
  { place with file := place.file.reread }

/-- The marker for a place names the place that it leads to. -/
theorem marker_reread (place : Place) : place.reread.marker = place.marker := by
  rw [marker, marker, reread, Path.shown_reread]

/-- A reader that has the first place can be at the second one, which was reported: it is at
the same line of the same file, or the name of the reported file is no text and the reader is at
the same line of the file that the shown name names. -/
def ReadAs (read reported : Place) : Prop :=
  read.line = reported.line ∧
    (read.file.sameAs reported.file = true ∨
      ¬reported.file.IsText ∧ read.file.sameAs reported.file.reread = true)

theorem readAs_of_sameAs {read reported : Place} (same : read.sameAs reported = true) :
    read.ReadAs reported :=
  have ⟨files, lines⟩ := sameAs_iff.mp same
  ⟨lines, .inl (beq_iff_eq.mpr files)⟩

/-- It goes without saying that the name is no text, since the shown name of a text is that
text. -/
theorem readAs_iff {read reported : Place} :
    read.ReadAs reported ↔ read.line = reported.line ∧
      (read.file.sameAs reported.file = true ∨ read.file.sameAs reported.file.reread = true) := by
  constructor
  · rintro ⟨line, same | ⟨-, shown⟩⟩
    · exact ⟨line, .inl same⟩
    · exact ⟨line, .inr shown⟩
  · rintro ⟨line, same | shown⟩
    · exact ⟨line, .inl same⟩
    · by_cases text : reported.file.IsText
      · exact ⟨line, .inl (Path.isText_iff.mp text ▸ shown)⟩
      · exact ⟨line, .inr ⟨text, shown⟩⟩

/-- A marker leads to the place that it was written for. -/
theorem readAs_reread (place : Place) : place.reread.ReadAs place :=
  readAs_iff.mpr ⟨rfl, .inr (beq_self_eq_true _)⟩

namespace ReadAs

variable {read reported : Place}

/-- The lines after two places of which one is read as the other are read so too. -/
theorem next (arrives : read.ReadAs reported) : read.next.ReadAs reported.next :=
  ⟨congrArg (· + 1) arrives.1, arrives.2⟩

/-- The reported place may be spelled in another way. -/
theorem trans_sameAs {other : Place} (arrives : read.ReadAs reported)
    (same : reported.sameAs other = true) : read.ReadAs other := by
  rw [readAs_iff] at arrives ⊢
  obtain ⟨files, lines⟩ := sameAs_iff.mp same
  have shown := Path.sameAs_reread (beq_iff_eq.mpr files)
  rw [Path.sameAs, beq_iff_eq] at shown
  refine ⟨arrives.1.trans lines, arrives.2.imp ?_ ?_⟩
  · intro same
    exact beq_iff_eq.mpr ((beq_iff_eq.mp same).trans files)
  · intro same
    exact beq_iff_eq.mpr ((beq_iff_eq.mp same).trans shown)

/-- The two files are shown alike. -/
theorem sameAs_reread (arrives : read.ReadAs reported) :
    read.file.reread.sameAs reported.file.reread = true := by
  rcases (readAs_iff.mp arrives).2 with same | shown
  · exact Path.sameAs_reread same
  · rw [← Path.reread_reread reported.file]
    exact Path.sameAs_reread shown

/-- The file is the reported one if that is named by a text. -/
theorem sameAs_of_isText (arrives : read.ReadAs reported) (text : reported.file.IsText) :
    read.sameAs reported = true := by
  rcases arrives.2 with same | ⟨noText, -⟩
  · exact sameAs_iff.mpr ⟨beq_iff_eq.mp same, arrives.1⟩
  · exact absurd text noText

end ReadAs

end Place

/-- What the quotes around a text enclose is the text. -/
theorem Text.unquoted_quotes (body : List Char) :
    unquoted (String.ofList ('"' :: (body ++ ['"']))) = String.ofList body := by
  have encloses : enclosed? ('"' :: (body ++ ['"'])) = some body := by
    simp [enclosed?]
  rw [unquoted, String.toList_ofList, encloses]
  rfl

/-- A line whose place fits in a marker and whose text stands on one line and cannot be taken
for a marker. -/
structure SourceLine.Writable (line : SourceLine) : Prop where
  noQuote : 0x22 ∉ line.place.file.bytes
  noNewline : 0x0A ∉ line.place.file.bytes
  bounded : line.place.line ≤ Text.maxMagnitude
  unbroken : '\n' ∉ line.text.toList
  unmarked : Token.lead? (Token.scan line.text) ≠ some "#line"

instance : DecidablePred SourceLine.Writable := fun line =>
  decidable_of_iff
    (0x22 ∉ line.place.file.bytes ∧ 0x0A ∉ line.place.file.bytes ∧
      line.place.line ≤ Text.maxMagnitude ∧ '\n' ∉ line.text.toList ∧
      Token.lead? (Token.scan line.text) ≠ some "#line")
    ⟨fun ⟨noQuote, noNewline, bounded, unbroken, unmarked⟩ =>
      ⟨noQuote, noNewline, bounded, unbroken, unmarked⟩,
     fun ⟨noQuote, noNewline, bounded, unbroken, unmarked⟩ =>
      ⟨noQuote, noNewline, bounded, unbroken, unmarked⟩⟩

/-! ## Markers -/

namespace Place

theorem toList_marker (place : Place) :
    place.marker.toList = "#line".toList ++ ' ' :: ((toString place.line).toList ++
      ' ' :: '"' :: (place.file.shown.toList ++ ['"'])) := by
  have spelled : place.marker =
      "#line " ++ toString place.line ++ " \"" ++ place.file.shown ++ "\"" := rfl
  rw [spelled, String.toList_append, String.toList_append, String.toList_append,
    String.toList_append, List.append_assoc, List.append_assoc, List.append_assoc]
  rfl

/-- A marker consists of three tokens. -/
theorem scan_marker {place : Place}
    (plain : ∀ c ∈ place.file.shown.toList, Token.isStringChar c = true) :
    ∃ second third, Token.scan place.marker =
      [⟨.word, 0, "#line"⟩, ⟨.word, second, toString place.line⟩,
        ⟨.string, third, String.ofList ('"' :: (place.file.shown.toList ++ ['"']))⟩] := by
  have spelled : (toString place.line).toList = Nat.toDigits 10 place.line := Nat.toList_repr
  have digits : ∀ c ∈ Nat.toDigits 10 place.line, Token.isWordChar c = true :=
    fun c member => Token.isWordChar_of_isDigit (Text.isDigit_of_mem_toDigits member)
  have keyword : ∀ c ∈ "#line".toList, Token.isWordChar c = true :=
    List.all_eq_true.mp (by decide)
  rw [Token.scan, toList_marker, Token.scanFrom_word (by decide) keyword (by decide), spelled,
    Token.scanFrom_word Nat.toDigits_ne_nil digits (by decide), ← spelled,
    Token.scanFrom_string plain, Token.scanFrom, String.ofList_toList, String.ofList_toList]
  exact ⟨_, _, rfl⟩

/-- A marker has the form of one. -/
theorem ofText_marker {place : Place}
    (plain : ∀ c ∈ place.file.shown.toList, Token.isStringChar c = true) :
    ∃ second third, LineForm.ofText place.marker =
      .marker [⟨.word, second, toString place.line⟩,
        ⟨.string, third, String.ofList ('"' :: (place.file.shown.toList ++ ['"']))⟩] := by
  obtain ⟨second, third, scanned⟩ := scan_marker plain
  refine ⟨second, third, ?_⟩
  rw [LineForm.ofText, LineForm.items, scanned]
  rfl

end Place

/-- A path without quotes is shown without quotes. -/
theorem Path.quote_not_mem_shown {path : Path} (noQuote : 0x22 ∉ path.bytes) :
    '"' ∉ path.shown.toList :=
  not_mem_shown (by decide) noQuote

/-- A path without newlines is shown without newlines. -/
theorem Path.newline_not_mem_shown {path : Path} (noNewline : 0x0A ∉ path.bytes) :
    '\n' ∉ path.shown.toList :=
  not_mem_shown (by decide) noNewline

/-- Reading a marker moves the reader to its place and does nothing else. -/
theorem Reader.readLine_marker (reader : Reader) {place : Place}
    (noQuote : 0x22 ∉ place.file.bytes) (noNewline : 0x0A ∉ place.file.bytes)
    (bounded : place.line ≤ Text.maxMagnitude) :
    reader.readLine place.marker = { reader with place := place.reread } := by
  have plain : ∀ c ∈ place.file.shown.toList, Token.isStringChar c = true := by
    intro c member
    have quote : c ≠ '"' := fun same => Path.quote_not_mem_shown noQuote (same ▸ member)
    have newline : c ≠ '\n' := fun same => Path.newline_not_mem_shown noNewline (same ▸ member)
    simp [Token.isStringChar, quote, newline]
  obtain ⟨second, third, form⟩ := Place.ofText_marker plain
  have marked : markedPlace reader.place [⟨.word, second, toString place.line⟩,
      ⟨.string, third, String.ofList ('"' :: (place.file.shown.toList ++ ['"']))⟩] =
        .ok place.reread := by
    rw [markedPlace, Text.natural?_toString bounded, Text.unquoted_quotes,
      String.ofList_toList]
    rfl
  rw [readLine_eq_readForm, form]
  simp only [readForm, marked]

/-! ## Lines that are no markers -/

namespace LineForm

/-- The first token that is no comma is the first one that counts. -/
theorem lead?_scan (text : String) :
    Token.lead? (Token.scan text) = (items text).head?.map (·.source) := by
  rw [Token.lead?, items, List.head?_filter]

/-- A marker begins with its keyword. -/
theorem lead?_of_marker {text : String} {arguments : List Token}
    (form : ofText text = .marker arguments) :
    Token.lead? (Token.scan text) = some "#line" := by
  rw [lead?_scan]
  unfold ofText at form
  split at form
  · cases counted : items text with
    | nil =>
        rw [counted] at form
        cases form
    | cons first rest =>
        rw [counted] at form
        by_cases keyword : first.source = "#line"
        · rw [List.head?_cons, Option.map_some, keyword]
        · simp only [ofItems, if_neg keyword] at form
          split at form <;> cases form
  · cases form

/-- Only a marker moves elsewhere than to the next line. -/
theorem next_of_ne_marker {form : LineForm} (plain : ∀ arguments, form ≠ .marker arguments)
    (place : Place) : form.next place = place.next := by
  cases form with
  | marker arguments => exact absurd rfl (plain arguments)
  | unreadable tokens => rfl
  | blank => rfl
  | label token name => rfl
  | instruction label first arguments => rfl

/-- A line that does not begin as a marker does is followed by the next line. -/
theorem next_of_lead? {text : String}
    (unmarked : Token.lead? (Token.scan text) ≠ some "#line") (place : Place) :
    (ofText text).next place = place.next := by
  apply next_of_ne_marker
  intro arguments form
  exact unmarked (lead?_of_marker form)

end LineForm

/-- The carriage return that is lost at the end of a line does not make it a marker. -/
theorem Token.lead?_scan_ended {text : String} (unbroken : '\n' ∉ text.toList)
    (unmarked : Token.lead? (Token.scan text) ≠ some "#line") :
    Token.lead? (Token.scan (Text.ended text)) ≠ some "#line" := by
  intro leads
  apply unmarked
  cases Text.toList_ended text with
  | inl same => rwa [String.toList_inj.mp same]
  | inr longer =>
      have endedUnbroken : '\n' ∉ (Text.ended text).toList := fun member =>
        unbroken (longer ▸ List.mem_append_left ['\r'] member)
      rw [Token.scan, longer]
      exact Token.lead?_scanFrom_return (by decide) 0 0 endedUnbroken leads

/-! ## What is written -/

/-- What stands on a line that is written: a marker, or a line that was passed on. -/
inductive Written
  | marker (place : Place)
  | text (line : SourceLine)
  deriving DecidableEq, Repr

namespace Written

/-- The text that is written. -/
def spelling : Written → String
  | .marker place => place.marker
  | .text line => line.text

/-- The line that was passed on. -/
def passed? : Written → Option SourceLine
  | .marker _ => none
  | .text line => some line

/-- What is written for a reader that takes the first line to stand at `expected`. -/
def ofLines (expected : Place) : List SourceLine → List Written
  | [] => []
  | line :: rest =>
      if expected.sameAs line.place then .text line :: ofLines line.place.next rest
      else .marker line.place :: .text line :: ofLines line.place.next rest

theorem map_spelling_ofLines (expected : Place) (lines : List SourceLine) :
    (ofLines expected lines).map spelling = SourceLine.marked expected lines := by
  induction lines generalizing expected with
  | nil => rfl
  | cons line rest ih =>
      rw [ofLines, SourceLine.marked]
      split
      · exact congrArg (line.text :: ·) (ih line.place.next)
      · exact congrArg (line.place.marker :: line.text :: ·) (ih line.place.next)

/-- All lines are written, in their order. -/
theorem filterMap_passed?_ofLines (expected : Place) (lines : List SourceLine) :
    (ofLines expected lines).filterMap passed? = lines := by
  induction lines generalizing expected with
  | nil => rfl
  | cons line rest ih =>
      rw [ofLines]
      split
      · exact congrArg (line :: ·) (ih line.place.next)
      · exact congrArg (line :: ·) (ih line.place.next)

/-- What is true of the markers and the texts of lines is true of what is written. -/
theorem forall_mem_ofLines (holds : Written → Prop) {lines : List SourceLine}
    (each : ∀ line ∈ lines, holds (.marker line.place) ∧ holds (.text line)) (expected : Place) :
    ∀ item ∈ ofLines expected lines, holds item := by
  induction lines generalizing expected with
  | nil => simp [ofLines]
  | cons line rest ih =>
      obtain ⟨⟨marker, text⟩, others⟩ := List.forall_mem_cons.mp each
      have later := ih others line.place.next
      rw [ofLines]
      split
      · exact List.forall_mem_cons.mpr ⟨text, later⟩
      · exact List.forall_mem_cons.mpr ⟨marker, List.forall_mem_cons.mpr ⟨text, later⟩⟩

/-- The reader takes what is written for what it is: a marker moves it to the place that the
marker names and does nothing else, and the reader comes to a line at a place that is read as the
place of the line, so that all that it reads there is placed there. -/
def ReadBy (reader : Reader) : Written → Prop
  | .marker place =>
      reader.readLine (Text.ended place.marker) = { reader with place := place.reread }
  | .text line =>
      reader.place.ReadAs line.place ∧
        Reader.Adds reader.place reader (reader.readLine (Text.ended line.text))

end Written

/-- The reader takes all that is written for what it is, one line after the other. -/
def Reader.InStep : Reader → List Written → Prop
  | _, [] => True
  | reader, item :: rest =>
      item.ReadBy reader ∧ InStep (reader.readLine (Text.ended item.spelling)) rest

namespace Reader.InStep

/-- A reader that takes all for what it is does so at every line. -/
theorem readBy {reader : Reader} {before after : List Written} {item : Written}
    (inStep : reader.InStep (before ++ item :: after)) :
    item.ReadBy ((before.map fun item => Text.ended item.spelling).foldl readLine reader) := by
  induction before generalizing reader with
  | nil => exact inStep.1
  | cons first before ih => exact ih inStep.2

end Reader.InStep

/-- The reader finds what is written on a marker as it was written. -/
theorem Place.ended_marker (place : Place) : Text.ended place.marker = place.marker := by
  apply Text.ended_eq_self
  have spelled : place.marker.toList =
      ("#line " ++ toString place.line ++ " \"" ++ place.file.shown).toList ++ ['"'] :=
    String.toList_append
  rw [spelled, List.getLast?_concat]
  decide

namespace Reader

/-- A reader that comes to a line at its place goes on to the place after it. -/
theorem readBy_text (reader : Reader) {line : SourceLine} (writable : line.Writable)
    (arrives : reader.place.ReadAs line.place) :
    (Written.text line).ReadBy reader ∧
      (reader.readLine (Text.ended line.text)).place.ReadAs line.place.next := by
  have unmarked := Token.lead?_scan_ended writable.unbroken writable.unmarked
  refine ⟨⟨arrives, ?_⟩, ?_⟩
  · rw [readLine_eq_readForm]
    exact reader.adds_readForm _
  · rw [readLine_eq_readForm, place_readForm, LineForm.next_of_lead? unmarked]
    exact arrives.next

/-- A reader that begins where it is expected takes all that is written for what it is. -/
theorem inStep_ofLines {reader : Reader} {expected : Place} {lines : List SourceLine}
    (writable : ∀ line ∈ lines, line.Writable)
    (begins : reader.place.ReadAs expected) :
    reader.InStep (Written.ofLines expected lines) := by
  -- The induction is on the lines. What it carries is that the place of the reader is read as the
  -- place expected by the writer: after a line because both go on by one, and after a marker
  -- because it has just been read.
  induction lines generalizing reader expected with
  | nil => trivial
  | cons line rest ih =>
      obtain ⟨first, others⟩ := List.forall_mem_cons.mp writable
      rw [Written.ofLines]
      split
      · next same =>
          obtain ⟨read, goesOn⟩ := reader.readBy_text first (begins.trans_sameAs same)
          exact ⟨read, ih others goesOn⟩
      · have moved : reader.readLine (Text.ended line.place.marker) =
            { reader with place := line.place.reread } := by
          rw [Place.ended_marker]
          exact reader.readLine_marker first.noQuote first.noNewline first.bounded
        obtain ⟨read, goesOn⟩ :=
          readBy_text { reader with place := line.place.reread } first line.place.readAs_reread
        refine ⟨moved, ?_⟩
        rw [Written.spelling, moved]
        exact ⟨read, ih others goesOn⟩

end Reader

end ChipAsm
