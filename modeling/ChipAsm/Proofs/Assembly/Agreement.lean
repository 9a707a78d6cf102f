/-
# Agreement of the passes

The second pass writes into an image whose size the first pass has counted, with the
labels that the first pass has bound. It relies on the two passes agreeing: at every
statement the output has to stand where the counter stood.

The passes agree because the output follows the counter through every action of every
instruction. An action of the counter that ends at or below the size of the image can be
repeated by the output, unless the instruction has no word; the counter does not encode,
so this is the one thing it cannot know. Everything else that could stop the second pass,
a write past the image included, would have stopped the first.
-/

import ChipAsm.Proofs.Assembly.Binding
import ChipAsm.Proofs.Encoding.Refusal
import ChipAsm.Proofs.Output.Writing

namespace ChipAsm

open Outcome

/-- The output stands where the counter stands. What the second pass was given is the
same throughout. -/
structure Tracks (table : OpcodeTable) (symbols : SymbolTable) (size : Nat)
    (counter : Counter) (output : Output) : Prop where
  cursor : output.cursor = counter.offset
  table : output.table = table
  symbols : output.symbols = symbols
  size : output.image.size = size

/-- The stop is that of a machine instruction that has no word. -/
def Instruction.IsRefused (table : OpcodeTable) (symbols : SymbolTable)
    (instruction : Instruction) (halt : Halt Diagnostic) : Prop :=
  Directive.ofMnemonic? instruction.mnemonic = none ∧
    ∃ reason, table.encode symbols instruction = .error reason ∧
      halt = reason.map instruction.diagnostic

/-- The stop is that of the innermost instruction of a statement, which has no word. -/
def Statement.IsRefused (table : OpcodeTable) (symbols : SymbolTable) (statement : Statement)
    (halt : Halt Diagnostic) : Prop :=
  ∃ mark body, statement = .instruction mark body ∧
    body.innermost.IsRefused table symbols halt

section

variable {table : OpcodeTable} {symbols : SymbolTable} {size : Nat}

theorem Tracks.aligned (counter : Counter) (output : Output)
    (tracks : Tracks table symbols size counter output) :
    Sink.position counter = Sink.position output :=
  tracks.cursor.symm

/-- Accepted bytes advance the output as they advance the counter. -/
theorem Tracks.written {counter : Counter} {output : Output}
    (tracks : Tracks table symbols size counter output) (bytes : List UInt8) :
    Tracks table symbols size ⟨counter.offset + bytes.length⟩ (output.written bytes) where
  cursor := by rw [← tracks.cursor]; rfl
  table := tracks.table
  symbols := tracks.symbols
  size := (size_writeAt _ _ _).trans tracks.size

/-- The output follows the counter through one action that ends inside the image. -/
theorem Instruction.act_follows {instruction : Instruction} {counter next : Counter}
    {output : Output} (tracks : Tracks table symbols size counter output)
    (action : instruction.act counter = done next) (fits : next.offset ≤ size) :
    Follows (Tracks table symbols size) (instruction.IsRefused table symbols) next
      (instruction.act output) := by
  rcases act_cases action with ⟨directive, accepted⟩ |
    ⟨directive, target, named, near, ahead, rfl⟩ | ⟨kind, directive, bytes, data, accepted⟩
  · simp only [act, directive]
    have moved : ⟨counter.offset + wordSize⟩ = next := done_inj.mp accepted
    subst moved
    cases encoded : table.encode symbols instruction with
    | error reason =>
        refine .inr ⟨output, reason.map instruction.diagnostic, ?_, directive, reason, encoded,
          rfl⟩
        show output.instruction instruction = _
        rw [Output.instruction, tracks.table, tracks.symbols, encoded]
    | ok word =>
        refine .inl ⟨_, Output.instruction_eq_done_iff.mpr ⟨word, ?_, ?_, rfl⟩, ?_⟩
        · rw [tracks.table, tracks.symbols, encoded]
        · rwa [tracks.cursor, tracks.size]
        · have noted : Tracks table symbols size counter
              { output with words := output.words.push (instruction, word) } := { tracks with }
          exact noted.written (Word.bytes word)
  · simp only [act, directive]
    refine .inl ⟨{ output with cursor := target },
      Placement.seek_eq_done_iff.mpr ⟨target, named, near, ?_, rfl⟩, { tracks with cursor := rfl }⟩
    rwa [← tracks.aligned]
  · simp only [act, directive]
    have moved : ⟨counter.offset + bytes.length⟩ = next := done_inj.mp accepted
    subst moved
    refine .inl ⟨output.written bytes, Placement.insert_eq_done_iff.mpr ⟨bytes, data, ?_⟩,
      tracks.written bytes⟩
    refine Output.emit_eq_done_iff.mpr ⟨?_, rfl⟩
    rwa [tracks.cursor, tracks.size]

/-- The output follows the counter through a statement that ends inside the image. -/
theorem Statement.perform_follows {statement : Statement} {counter next : Counter}
    {output : Output} (tracks : Tracks table symbols size counter output)
    (through : statement.perform counter = done next) (fits : next.offset ≤ size) :
    Follows (Tracks table symbols size) (statement.IsRefused table symbols) next
      (statement.perform output) := by
  cases statement with
  | label mark =>
      obtain rfl : counter = next := done_inj.mp through
      exact .inl ⟨output, rfl, tracks⟩
  | instruction mark body =>
      rcases body.perform_follows Tracks.aligned (fun _ _ _ => Instruction.act_follows) tracks
        through fits with kept | ⟨other, halt, halted, refused⟩
      · exact .inl kept
      · exact .inr ⟨other, halt, halted, mark, body, rfl, refused⟩

end

/-- The second pass places a statement and then lists it. -/
theorem Writer.step_eq (writer : Writer) (statement : Statement) :
    writer.step statement =
      ((statement.perform writer.output.begin).map fun output =>
        ({ output, listing := writer.listing } : Writer)).andThen
          fun writer => done (writer.list statement) := by
  cases statement with
  | label mark => rfl
  | instruction mark body => rfl

section

variable {table : OpcodeTable} {symbols : SymbolTable} {size : Nat}

/-- The second pass follows the first through a statement that ends inside the image. -/
theorem Writer.step_follows {statement : Statement} {counter next : Counter} {writer : Writer}
    (tracks : Tracks table symbols size counter writer.output)
    (through : statement.perform counter = done next) (fits : next.offset ≤ size) :
    Follows (fun counter writer => Tracks table symbols size counter writer.output)
      (statement.IsRefused table symbols) next (writer.step statement) := by
  rw [step_eq]
  have begun : Tracks table symbols size counter writer.output.begin := { tracks with }
  rcases Statement.perform_follows begun through fits with ⟨output, placed, kept⟩ |
    ⟨output, halt, halted, refused⟩
  · rw [placed, map_done, done_andThen]
    exact .inl ⟨_, rfl, { kept with }⟩
  · rw [halted, map_stopped, stopped_andThen]
    exact .inr ⟨_, halt, rfl, refused⟩

end

section

variable {table : OpcodeTable} {statements : List Statement} {binder : Binder}

/-- Wherever the second pass arrives, its output stands where the first pass stood. -/
theorem writeImage_tracks (bound : bindSymbols statements = done binder)
    {before after : List Statement} (whole : statements = before ++ after)
    {earlier : Binder} (reached : bindSymbols before = done earlier) {writer : Writer}
    (written : writeImage table binder.symbols binder.counter.offset before = done writer) :
    Tracks table binder.symbols binder.counter.offset earlier.counter writer.output := by
  suffices invariant : ∀ earlier, bindSymbols before = done earlier →
      Tracks table binder.symbols binder.counter.offset earlier.counter writer.output from
    invariant earlier reached
  refine run_invariant (fun passed writer => ∀ earlier, bindSymbols passed = done earlier →
    Tracks table binder.symbols binder.counter.offset earlier.counter writer.output) ?_ ?_ written
  · intro earlier start
    obtain rfl : ({} : Binder) = earlier := done_inj.mp start
    exact ⟨rfl, rfl, rfl, Array.size_replicate⟩
  · intro passed statement rest writer next split _ tracked stepped later reached
    obtain ⟨earlier, start, through⟩ := bindSymbols_concat_eq_done reached
    -- What follows in the list is what bounds the offset after this statement.
    have resplit : statements = (passed ++ [statement]) ++ (rest ++ after) := by
      rw [whole, split, List.append_assoc, List.append_assoc]
      rfl
    obtain ⟨same, sameReached, fits⟩ := bindSymbols_append_eq_done (resplit ▸ bound)
    obtain rfl : same = later := done_inj.mp (sameReached.symm.trans reached)
    rcases Writer.step_follows (tracked earlier start) through fits with
      ⟨reachedWriter, again, kept⟩ | ⟨last, halt, halted, -⟩
    · obtain rfl : reachedWriter = next := done_inj.mp (again.symm.trans stepped)
      exact kept
    · exact absurd (stepped.symm.trans halted) (done_ne_stopped _ _ _)

/-- The second pass stops at a statement only because its innermost instruction has no
word. -/
theorem writeImage_stops (bound : bindSymbols statements = done binder) {last : Writer}
    {halt : Halt Diagnostic}
    (halted : writeImage table binder.symbols binder.counter.offset statements =
      stopped last halt) :
    ∃ passed statement rest writer, statements = passed ++ statement :: rest ∧
      writeImage table binder.symbols binder.counter.offset passed = done writer ∧
      statement.IsRefused table binder.symbols halt := by
  obtain ⟨passed, statement, rest, writer, rfl, written, stops⟩ :=
    exists_of_run_eq_stopped halted
  refine ⟨passed, statement, rest, writer, rfl, written, ?_⟩
  have resplit : passed ++ statement :: rest = (passed ++ [statement]) ++ rest := by
    rw [List.append_assoc]
    rfl
  obtain ⟨later, reached, fits⟩ := bindSymbols_append_eq_done (resplit ▸ bound)
  obtain ⟨earlier, start, through⟩ := bindSymbols_concat_eq_done reached
  have tracks := writeImage_tracks bound rfl start written
  rcases Writer.step_follows tracks through fits with ⟨next, again, -⟩ |
    ⟨other, reason, haltedHere, refused⟩
  · exact absurd (again.symm.trans stops) (done_ne_stopped _ _ _)
  · obtain ⟨-, rfl⟩ := stopped_inj.mp (haltedHere.symm.trans stops)
    exact refused

/-- If the second pass goes through, its output ends at the size of the image. -/
theorem cursor_eq_of_writeImage (bound : bindSymbols statements = done binder) {writer : Writer}
    (written : writeImage table binder.symbols binder.counter.offset statements = done writer) :
    writer.output.cursor = binder.counter.offset :=
  (writeImage_tracks bound (List.append_nil statements).symm bound written).cursor

/-- Assembling yields what the two passes leave behind when both go through. The assertion
that the second ends where the first did holds. -/
theorem assemble_eq_ok_iff {assembly : Assembly} :
    assemble table statements = .ok assembly ↔
      ∃ binder writer, bindSymbols statements = done binder ∧
        writeImage table binder.symbols binder.counter.offset statements = done writer ∧
        { image := writer.output.image, symbols := binder.symbols,
          listing := writer.listing.toList } = assembly := by
  rw [assemble, Passes.run]
  cases bound : bindSymbols statements with
  | stopped binder halt => simp [stopped, done, Passes.result]
  | done binder =>
      simp only [done, Outcome.mk.injEq, and_true]
      cases written : writeImage table binder.symbols binder.counter.offset statements with
      | stopped writer halt => simp [stopped, Passes.result, written]
      | done writer => simp [done, Passes.result, written, cursor_eq_of_writeImage bound written]

end

/-- The second pass agrees with the first. Before every statement that it reaches, its
output stands where the first pass stood. It can only stop because the innermost
instruction of a statement has no word, never for the form, direction or reach of a
directive and never at a write past the image. If it goes through, its output ends at the
size of the image, which lies inside the address space. -/
theorem writeImage_agrees_with_bindSymbols (table : OpcodeTable) (statements : List Statement)
    (binder : Binder) (bound : bindSymbols statements = done binder) :
    let size := binder.counter.offset
    let pass := writeImage table binder.symbols size
    (∀ before after writer, statements = before ++ after → pass before = done writer →
      ∃ earlier, bindSymbols before = done earlier ∧
        writer.output.cursor = earlier.counter.offset) ∧
    (∀ last halt, pass statements = stopped last halt →
      (∃ before mark body after writer reason,
        statements = before ++ .instruction mark body :: after ∧ pass before = done writer ∧
        Directive.ofMnemonic? body.innermost.mnemonic = none ∧
        table.encode binder.symbols body.innermost = .error reason ∧
        halt = reason.map body.innermost.diagnostic) ∧
      ∀ diagnostic, halt = .fault diagnostic →
        (∀ directive reason, diagnostic.fault ≠ .malformedDirective directive reason) ∧
        (∀ current target, diagnostic.fault ≠ .backwardSeek current target) ∧
        (∀ quantity ∈ [Quantity.seekTarget, .outputOffset, .writeOffset], ∀ value low high,
          diagnostic.fault ≠ .outOfRange quantity value low high)) ∧
    (∀ writer, pass statements = done writer →
      writer.output.cursor = size ∧ writer.output.image.size = size ∧ size ≤ imageLimit) := by
  intro size pass
  refine ⟨?_, ?_, ?_⟩
  · rintro before after writer rfl written
    obtain ⟨earlier, reached, -⟩ := bindSymbols_append_eq_done bound
    exact ⟨earlier, reached, (writeImage_tracks bound rfl reached written).cursor⟩
  · intro last halt halted
    obtain ⟨before, statement, after, writer, split, written, mark, body, rfl, ordinary, reason,
      encoded, rfl⟩ := writeImage_stops bound halted
    refine ⟨⟨before, mark, body, after, writer, reason, split, written, ordinary, encoded, rfl⟩,
      ?_⟩
    intro diagnostic blamed
    obtain ⟨fault, rfl, rfl⟩ := Halt.map_eq_fault_iff.mp blamed
    have encoding : fault.isEncoding = true := OpcodeTable.isEncoding_of_encode encoded
    refine ⟨?_, ?_, ?_⟩
    · rintro directive reason rfl
      exact Bool.noConfusion encoding
    · rintro current target rfl
      exact Bool.noConfusion encoding
    · intro quantity member value low high equal
      change fault = _ at equal
      subst equal
      simp only [List.mem_cons, List.not_mem_nil, or_false] at member
      rcases member with rfl | rfl | rfl <;> exact Bool.noConfusion encoding
  · intro writer written
    have tracks := writeImage_tracks bound (List.append_nil statements).symm bound written
    exact ⟨cursor_eq_of_writeImage bound written, tracks.size, offset_le_imageLimit bound⟩

/-- The agreement on a nested repetition, a gap, a machine instruction and labels. -/
theorem writeImage_agrees_on_nested_repetition :
    let statements : List Statement :=
      [.instruction none ⟨"DUP", ["2", "dup", "2", "db", "1", "2"], default⟩,
        .instruction none ⟨"SEEK", ["0x10"], default⟩,
        .instruction (some ⟨"here", default⟩) ⟨"JMP", ["here"], default⟩,
        .label ⟨"end", default⟩]
    let table := (OpcodeTable.ofDefinitions [("10____", "JMP addr")]).toOption.getD default
    let binder := (bindSymbols statements).state
    let writer := (writeImage table binder.symbols binder.counter.offset statements).state
    bindSymbols statements = done binder ∧
      writeImage table binder.symbols binder.counter.offset statements = done writer ∧
      writer.output.cursor = 19 ∧ writer.output.image.size = 19 := by
  intro statements table binder writer
  have bound : bindSymbols statements = done binder :=
    eq_done_of_fault_eq_none (by decide +kernel)
  have written : writeImage table binder.symbols binder.counter.offset statements = done writer :=
    eq_done_of_fault_eq_none (by decide +kernel)
  have size : binder.counter.offset = 19 := by decide +kernel
  obtain ⟨-, -, finished⟩ := writeImage_agrees_with_bindSymbols table statements binder bound
  obtain ⟨cursor, imageSize, -⟩ := finished writer written
  exact ⟨bound, written, cursor.trans size, imageSize.trans size⟩

end ChipAsm
