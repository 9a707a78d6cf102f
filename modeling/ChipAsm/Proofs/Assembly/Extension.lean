/-
# Statements that follow

Appending statements disturbs nothing that was assembled before them. The first pass goes over
the earlier statements as before, so it binds their labels to the same addresses; the labels of
the later statements come on top. The second pass has more labels now and a longer image. An
instruction that had a word without the further labels has the same word with them, because a
name that was bound is bound as before, and nothing that was written into the shorter image
reaches into the rest of the longer one. What the later statements write lies behind all that.

Nothing is said about statements that do not assemble on their own: they may refer to labels of
the later ones.
-/

import ChipAsm.Proofs.Assembly.Labels
import ChipAsm.Proofs.Assembly.Listing
import ChipAsm.Proofs.Encoding.Meaning
import ChipAsm.Proofs.Placement.Correspondence

namespace ChipAsm

open Outcome

/-! ## More labels -/

/-- Every name that is bound has the same address in the larger table. -/
def SymbolTable.ExtendsTo (symbols larger : SymbolTable) : Prop :=
  ∀ name address, symbols.resolve? name = some address → larger.resolve? name = some address

section

variable {symbols larger : SymbolTable}

/-- An address that can be read without the further labels is read alike with them. -/
theorem Argument.addressValue_of_extendsTo (extended : symbols.ExtendsTo larger) {text : String}
    {value : Int} (read : addressValue symbols text = .ok value) :
    addressValue larger text = .ok value := by
  rw [addressValue_eq_ok_iff] at read ⊢
  refine ⟨?_, read.2⟩
  have known := read.1
  unfold address? at known ⊢
  cases number : Text.number? text with
  | some numeral => rwa [number] at known
  | none =>
      rw [number] at known
      obtain ⟨address, resolves, rfl⟩ := Option.map_eq_some_iff.mp known
      simp only [extended text address resolves, Option.map_some]

/-- An argument that can be read without the further labels is read alike with them. -/
theorem Operand.evaluate_of_extendsTo (extended : symbols.ExtendsTo larger) {operand : Operand}
    {mismatch : Fault} {argument : String} {pieces : List (Slot × Int)}
    (read : operand.evaluate symbols mismatch argument = .ok pieces) :
    operand.evaluate larger mismatch argument = .ok pieces := by
  cases operand with
  | address =>
      obtain ⟨value, found, placed⟩ := bind_eq_ok_iff.mp read
      exact bind_eq_ok_iff.mpr ⟨value, Argument.addressValue_of_extendsTo extended found, placed⟩
  | indirectAddress =>
      obtain ⟨inner, bracketed, rest⟩ := bind_eq_ok_iff.mp read
      obtain ⟨value, found, placed⟩ := bind_eq_ok_iff.mp rest
      exact bind_eq_ok_iff.mpr ⟨inner, bracketed, bind_eq_ok_iff.mpr
        ⟨value, Argument.addressValue_of_extendsTo extended found, placed⟩⟩
  | _ => exact read

/-- An instruction that has a word without the further labels has the same word with them. -/
theorem OpcodeTable.encode_of_extendsTo (extended : symbols.ExtendsTo larger) {table : OpcodeTable}
    {instruction : Instruction} {word : Word}
    (encoded : table.encode symbols instruction = .ok word) :
    table.encode larger instruction = .ok word := by
  unfold encode at encoded ⊢
  split at encoded
  · obtain ⟨composed, kept⟩ := Opcode.encode_eq_ok_iff.mp encoded
    obtain ⟨count, pieces, evaluated, combined⟩ := Opcode.compose_eq_ok_iff.mp composed
    refine Opcode.encode_eq_ok_iff.mpr
      ⟨Opcode.compose_eq_ok_iff.mpr ⟨count, pieces, ?_, combined⟩, kept⟩
    rw [Opcode.evaluate, mapM_eq_ok_iff] at evaluated ⊢
    exact evaluated.imp fun _ _ => Operand.evaluate_of_extendsTo extended
  · cases encoded

end

/-- What the first pass has bound stays bound. -/
theorem Binder.extendsTo_of_run {binder last : Binder} {statements : List Statement}
    (bound : run step binder statements = done last) :
    binder.symbols.ExtendsTo last.symbols := by
  intro name address resolves
  obtain ⟨symbol, known, rfl⟩ := Option.map_eq_some_iff.mp resolves
  rw [run_flatMap step_eq_run_take] at bound
  rw [SymbolTable.resolve?, find?_of_run bound known]
  rfl

/-! ## A longer image -/

/-- The second output is the first one with further labels and a longer image. -/
def Output.ExtendsTo (output other : Output) : Prop :=
  ∃ symbols rest, output.symbols.ExtendsTo symbols ∧
    other = { output with symbols, image := output.image ++ rest }

theorem Output.ExtendsTo.position {output other : Output} (extended : output.ExtendsTo other) :
    Sink.position output = Sink.position other := by
  obtain ⟨symbols, rest, -, rfl⟩ := extended
  rfl

/-- Bytes that the output accepts, the extended output accepts too. -/
theorem Output.ExtendsTo.emit {output last other : Output} {bytes : List UInt8}
    (extended : output.ExtendsTo other) (accepted : output.emit bytes = done last) :
    ∃ following, other.emit bytes = done following ∧ last.ExtendsTo following := by
  obtain ⟨symbols, rest, known, rfl⟩ := extended
  obtain ⟨fits, rfl⟩ := emit_eq_done_iff.mp accepted
  refine ⟨_, emit_eq_done_iff.mpr ⟨?_, rfl⟩, symbols, rest, known, ?_⟩
  · rw [Array.size_append]
    exact Nat.le_trans fits (Nat.le_add_right _ _)
  · simp only [written, writeAt_append_image fits]

/-- An instruction that the output accepts, the extended output accepts too. -/
theorem Output.ExtendsTo.instruction {output last other : Output} {body : Instruction}
    (extended : output.ExtendsTo other) (accepted : output.instruction body = done last) :
    ∃ following, other.instruction body = done following ∧ last.ExtendsTo following := by
  obtain ⟨symbols, rest, known, rfl⟩ := extended
  obtain ⟨word, encoded, fits, rfl⟩ := instruction_eq_done_iff.mp accepted
  have again := OpcodeTable.encode_of_extendsTo known encoded
  have emitted := emit_eq_done_iff.mpr
    ⟨fits, Eq.refl ({ output with words := output.words.push (body, word) }.written
      (Word.bytes word))⟩
  have noted : ({ output with words := output.words.push (body, word) } : Output).ExtendsTo
      { output with
        symbols, image := output.image ++ rest, words := output.words.push (body, word) } :=
    ⟨symbols, rest, known, rfl⟩
  obtain ⟨following, written, kept⟩ := noted.emit emitted
  obtain ⟨room, rfl⟩ := emit_eq_done_iff.mp written
  exact ⟨_, instruction_eq_done_iff.mpr ⟨word, again, room, rfl⟩, kept⟩

/-- An instruction acts alike on the extended output. -/
theorem Instruction.act_of_extendsTo {instruction : Instruction} {output next other : Output}
    (extended : output.ExtendsTo other) (action : instruction.act output = done next) :
    ∃ following, instruction.act other = done following ∧ next.ExtendsTo following := by
  rcases act_cases action with ⟨ordinary, accepted⟩ |
    ⟨directive, target, named, near, ahead, rfl⟩ | ⟨kind, directive, bytes, data, accepted⟩
  · simp only [act, ordinary]
    exact extended.instruction accepted
  · simp only [act, directive]
    rw [extended.position] at ahead
    obtain ⟨symbols, rest, known, rfl⟩ := extended
    exact ⟨_, Placement.seek_eq_done_iff.mpr ⟨target, named, near, ahead, rfl⟩,
      symbols, rest, known, rfl⟩
  · simp only [act, directive]
    obtain ⟨following, emitted, kept⟩ := extended.emit accepted
    exact ⟨following, Placement.insert_eq_done_iff.mpr ⟨bytes, data, emitted⟩, kept⟩

/-- A statement is placed alike on the extended output. -/
theorem Statement.perform_of_extendsTo {statement : Statement} {output last other : Output}
    (extended : output.ExtendsTo other) (through : statement.perform output = done last) :
    ∃ final, statement.perform other = done final ∧ last.ExtendsTo final := by
  cases statement with
  | label mark => exact ⟨other, rfl, done_inj.mp through ▸ extended⟩
  | instruction mark body =>
      have itself : ChipAsm.Corresponds Eq body body := .refl body rfl
      apply itself.perform_related Output.ExtendsTo (fun _ _ => Output.ExtendsTo.position) _
        extended through
      rintro instruction _ rfl sink next other
      exact Instruction.act_of_extendsTo

/-- The second writer has listed the same, and its output is that of the first with further
labels and a longer image. -/
structure Writer.ExtendsTo (writer other : Writer) : Prop where
  output : writer.output.ExtendsTo other.output
  listing : other.listing = writer.listing

/-- The second pass takes a step alike on the extended output. -/
theorem Writer.ExtendsTo.step {writer next other : Writer} {statement : Statement}
    (extended : writer.ExtendsTo other) (stepped : writer.step statement = done next) :
    ∃ following, other.step statement = done following ∧ next.ExtendsTo following := by
  rw [step_eq] at stepped
  obtain ⟨middle, placed, listed⟩ := andThen_eq_done_iff.mp stepped
  obtain ⟨last, performed, rfl⟩ := map_eq_done_iff.mp placed
  obtain rfl := done_inj.mp listed
  have begun : writer.output.begin.ExtendsTo other.output.begin := by
    obtain ⟨symbols, rest, known, same⟩ := extended.output
    exact ⟨symbols, rest, known, by rw [same]; rfl⟩
  obtain ⟨final, followed, symbols, rest, known, rfl⟩ :=
    Statement.perform_of_extendsTo begun performed
  refine ⟨_, by rw [step_eq, followed, map_done, done_andThen],
    ⟨symbols, rest, known, rfl⟩, ?_⟩
  simp only [Writer.list, Output.record, extended.listing]

/-- The second pass goes over statements that it went over before alike if it has further
labels and more room. -/
theorem writeImage_of_extendsTo {table : OpcodeTable} {symbols larger : SymbolTable}
    {size greater : Nat} {statements : List Statement} {writer : Writer}
    (known : symbols.ExtendsTo larger) (room : size ≤ greater)
    (written : writeImage table symbols size statements = done writer) :
    ∃ longer, writeImage table larger greater statements = done longer ∧
      writer.ExtendsTo longer := by
  have blank : Array.replicate greater (0 : UInt8) =
      Array.replicate size 0 ++ Array.replicate (greater - size) 0 := by
    rw [Array.replicate_append_replicate, Nat.add_sub_cancel' room]
  have start : Writer.ExtendsTo { output := Output.ofSize table symbols size }
      { output := Output.ofSize table larger greater } :=
    ⟨⟨larger, Array.replicate (greater - size) 0, known, by rw [Output.ofSize, blank]; rfl⟩, rfl⟩
  have paired : List.Forall₂ Eq statements statements := List.forall₂_same.mpr fun _ _ => rfl
  refine run_related Writer.ExtendsTo ?_ paired start written
  rintro state next counterpart statement _ extended rfl stepped
  exact extended.step stepped

/-! ## What comes later -/

/-- The later writer goes on where the earlier one was: its listing begins with what was listed,
and the image has the same bytes up to where the earlier writer stood. -/
structure Writer.GoesOn (earlier later : Writer) : Prop where
  resting : later.output.Resting
  cursor : earlier.output.cursor ≤ later.output.cursor
  listing : earlier.listing.toList <+: later.listing.toList
  image : later.output.image.extract 0 earlier.output.cursor =
    earlier.output.image.extract 0 earlier.output.cursor

/-- The second pass goes on behind what it has written. -/
theorem Writer.goesOn_of_run {earlier later : Writer} {statements : List Statement}
    (resting : earlier.output.Resting) (written : run step earlier statements = done later) :
    earlier.GoesOn later := by
  refine run_invariant (fun _ writer => earlier.GoesOn writer)
    ⟨resting, Nat.le_refl _, List.prefix_refl _, rfl⟩ ?_ written
  intro _ statement _ writer next _ _ goesOn stepped
  obtain ⟨bytes, lists⟩ := exists_lists_of_step goesOn.resting stepped
  refine ⟨lists.resting, ?_, ?_, ?_⟩
  · exact Nat.le_trans goesOn.cursor (Nat.le_trans (Nat.le_add_right _ _) lists.ends)
  · rw [lists.listing, Array.toList_push]
    exact goesOn.listing.trans (List.prefix_append _ _)
  · rw [lists.image, extract_writeAt_of_le goesOn.cursor]
    exact goesOn.image

/-- Appending statements disturbs nothing that came before. If statements assemble, alone and
with further statements behind them, the longer image begins with the image and the longer
listing with the listing, and every label that was bound keeps its address. -/
theorem assembly_survives_appending (table : OpcodeTable) (statements further : List Statement)
    (assembly longer : Assembly) (assembled : assemble table statements = .ok assembly)
    (extended : assemble table (statements ++ further) = .ok longer) :
    assembly.image.toList <+: longer.image.toList ∧
    assembly.listing <+: longer.listing ∧
    ∀ name address, assembly.symbols.resolve? name = some address →
      longer.symbols.resolve? name = some address := by
  obtain ⟨binder, writer, bound, written, rfl⟩ := assemble_eq_ok_iff.mp assembled
  obtain ⟨larger, last, boundAll, writtenAll, rfl⟩ := assemble_eq_ok_iff.mp extended
  obtain ⟨earlier, reached, later⟩ := run_append_eq_done boundAll
  obtain rfl : binder = earlier := done_inj.mp (bound.symm.trans reached)
  have known : binder.symbols.ExtendsTo larger.symbols := Binder.extendsTo_of_run later
  have room : binder.counter.offset ≤ larger.counter.offset := by
    obtain ⟨same, again, grown⟩ := bindSymbols_append_eq_done boundAll
    rwa [done_inj.mp (again.symm.trans bound)] at grown
  obtain ⟨middle, first, second⟩ := run_append_eq_done writtenAll
  obtain ⟨repeated, rewritten, ⟨symbols, rest, -, output⟩, listing⟩ :=
    writeImage_of_extendsTo known room written
  obtain rfl : middle = repeated := done_inj.mp (first.symm.trans rewritten)
  have faithful := writeImage_faithful bound written
  have tracks := writeImage_tracks bound (List.append_nil statements).symm bound written
  have resting : middle.output.Resting := by
    rw [output]
    exact ⟨faithful.resting.start, faithful.resting.trace⟩
  have goesOn := Writer.goesOn_of_run resting second
  refine ⟨?_, listing ▸ goesOn.listing, known⟩
  have size : middle.output.cursor = writer.output.image.size := by
    rw [output]
    exact tracks.cursor.trans tracks.size.symm
  have beginning : last.output.image.extract 0 writer.output.image.size = writer.output.image := by
    rw [← size, goesOn.image, size, output]
    simp
  rw [← beginning, Array.toList_extract, List.extract_eq_take_drop]
  exact List.take_prefix _ _

/-- A jump to a label at the end, and behind it a gap, a repetition and a jump back. -/
theorem assembly_survives_gap_and_repetition :
    let statements : List Statement :=
      [.instruction (some ⟨"start", default⟩) ⟨"JMP", ["end"], default⟩, .label ⟨"end", default⟩]
    let further : List Statement :=
      [.instruction none ⟨"SEEK", ["8"], default⟩,
        .instruction (some ⟨"more", default⟩) ⟨"DUP", ["2", "db", "7"], default⟩,
        .instruction none ⟨"JMP", ["start"], default⟩]
    let table := (OpcodeTable.ofDefinitions [("10____", "JMP addr")]).toOption.getD default
    ∃ assembly longer, assemble table statements = .ok assembly ∧
      assemble table (statements ++ further) = .ok longer ∧
      assembly.image.size = 3 ∧ longer.image.size = 13 ∧
      assembly.image.toList <+: longer.image.toList ∧ assembly.listing <+: longer.listing ∧
      longer.symbols.resolve? "end" = some 3 := by
  intro statements further table
  have facts : (assemble table statements).toOption.map (fun assembly =>
      (assembly.image.size, assembly.symbols.resolve? "end")) = some (3, some 3) := by
    decide +kernel
  have moreFacts : (assemble table (statements ++ further)).toOption.map (fun assembly =>
      assembly.image.size) = some 13 := by decide +kernel
  obtain ⟨assembly, made, shape⟩ := Option.map_eq_some_iff.mp facts
  obtain ⟨longer, madeLonger, longerSize⟩ := Option.map_eq_some_iff.mp moreFacts
  obtain ⟨size, resolves⟩ := Prod.mk.inj shape
  have assembled := toOption_eq_some_iff.mp made
  have extended := toOption_eq_some_iff.mp madeLonger
  obtain ⟨image, listing, symbols⟩ :=
    assembly_survives_appending table statements further assembly longer assembled extended
  exact ⟨assembly, longer, assembled, extended, size, longerSize, image, listing,
    symbols "end" 3 resolves⟩

end ChipAsm
