/-
# The listing describes the image

The listing is a second account of the image: entry by entry it repeats what each
statement wrote, and where. Neither is computed from the other, since the output keeps the
bytes of the current statement apart from the image.

A statement writes at most one unbroken piece, at the offset where it begins, and the next
statement begins no earlier than that piece ends. So an entry that describes its piece of
the image keeps doing so while later statements write, and bytes that no entry describes
were never written.
-/

import ChipAsm.Proofs.Assembly.Agreement

namespace ChipAsm

open Outcome

/-- The offset that the first pass reaches over the statements. -/
def offsetAfter (statements : List Statement) : Nat :=
  (bindSymbols statements).state.counter.offset

theorem offsetAfter_eq {statements : List Statement} {binder : Binder}
    (bound : bindSymbols statements = done binder) :
    offsetAfter statements = binder.counter.offset := by
  rw [offsetAfter, bound, state_done]

/-- Longer beginnings of a list end further on. -/
theorem offsetAfter_take_le {statements : List Statement} {binder : Binder}
    (bound : bindSymbols statements = done binder) {first second : Nat} (ordered : first ≤ second) :
    offsetAfter (statements.take first) ≤ offsetAfter (statements.take second) := by
  rw [← List.take_append_drop second statements] at bound
  obtain ⟨later, reached, -⟩ := bindSymbols_append_eq_done bound
  have again := reached
  rw [← List.take_append_drop first (statements.take second)] at again
  obtain ⟨earlier, start, grown⟩ := bindSymbols_append_eq_done again
  rw [List.take_take, Nat.min_eq_left ordered] at start
  rwa [offsetAfter_eq start, offsetAfter_eq reached]

/-- The offset behind the bytes of an entry. -/
def ListingEntry.stop (entry : ListingEntry) : Nat :=
  entry.address + entry.bytes.size

/-- The entry tells what the statement with this index wrote into the image: where it began
in the first pass, and the bytes that the image has from there on. They end before the next
statement begins. -/
structure ListingEntry.Describes (entry : ListingEntry) (statements : List Statement)
    (index : Nat) (image : Array UInt8) : Prop where
  source : statements[index]?.map Statement.render = some entry.source
  address : entry.address = offsetAfter (statements.take index)
  ends : entry.stop ≤ offsetAfter (statements.take (index + 1))
  bytes : entry.bytes = image.extract entry.address entry.stop

/-- The entry covers a byte of the image. -/
def ListingEntry.Covers (entry : ListingEntry) (index : Nat) : Prop :=
  entry.address ≤ index ∧ index < entry.stop

/-- What is written behind the end of an entry does not concern it. -/
theorem ListingEntry.Describes.writeAt {entry : ListingEntry} {statements : List Statement}
    {index offset : Nat} {image : Array UInt8} (describes : entry.Describes statements index image)
    (behind : offsetAfter (statements.take (index + 1)) ≤ offset) (bytes : List UInt8) :
    entry.Describes statements index (writeAt image offset bytes) := by
  refine { describes with bytes := ?_ }
  rw [extract_writeAt_of_le (Nat.le_trans describes.ends behind)]
  exact describes.bytes

/-- The output is ready for a statement: nothing is recorded. -/
structure Output.Resting (output : Output) : Prop where
  start : output.start = none
  trace : output.trace = #[]

/-- A statement writes one piece, possibly empty, at the offset where it begins. The output
records the piece and its address. -/
theorem Statement.exists_piece_of_perform {statement : Statement} {output last : Output}
    (resting : output.Resting) (through : statement.perform output.begin = done last) :
    ∃ bytes : List UInt8, last.image = writeAt output.image output.cursor bytes ∧
      (bytes ≠ [] → output.cursor + bytes.length ≤ output.image.size) ∧
      output.cursor + bytes.length ≤ last.cursor ∧
      last.trace = bytes.toArray ∧ last.start.getD last.origin = output.cursor := by
  have moved : output.begin.Jumps last ∨ ∃ bytes, output.begin.Writes bytes last := by
    cases statement with
    | label mark => exact .inl (done_inj.mp through ▸ .refl _)
    | instruction mark body => exact Output.perform_jumps_or_writes through
  rcases moved with ⟨target, ahead, rfl⟩ | ⟨bytes, piece⟩
  · refine ⟨[], rfl, fun nonempty => absurd rfl nonempty, ahead, resting.trace, ?_⟩
    show output.start.getD output.cursor = output.cursor
    rw [resting.start, Option.getD_none]
  · refine ⟨bytes, piece.image, piece.fits, Nat.le_of_eq piece.cursor.symm, ?_, ?_⟩
    · have recorded := piece.trace
      change last.trace = output.trace ++ bytes at recorded
      rw [recorded, resting.trace]
      exact Array.ext' (by simp)
    · have marked := piece.start
      change last.start = some (output.start.getD output.cursor) ∨
        bytes = [] ∧ last.start = output.start at marked
      rw [resting.start, Option.getD_none] at marked
      rcases marked with marked | ⟨-, unmarked⟩
      · rw [marked, Option.getD_some]
      · rw [unmarked, Option.getD_none]
        exact piece.origin

/-- A step of the second pass writes one piece, possibly empty, and lists it at the offset
where the statement began. -/
structure Writer.Lists (writer : Writer) (statement : Statement) (bytes : List UInt8)
    (next : Writer) : Prop where
  listing : next.listing = writer.listing.push
    { address := writer.output.cursor, bytes := bytes.toArray, source := statement.render }
  image : next.output.image = writeAt writer.output.image writer.output.cursor bytes
  fits : bytes ≠ [] → writer.output.cursor + bytes.length ≤ writer.output.image.size
  ends : writer.output.cursor + bytes.length ≤ next.output.cursor
  resting : next.output.Resting

theorem Writer.exists_lists_of_step {writer next : Writer} {statement : Statement}
    (resting : writer.output.Resting) (stepped : writer.step statement = done next) :
    ∃ bytes, writer.Lists statement bytes next := by
  rw [step_eq] at stepped
  obtain ⟨middle, placed, listed⟩ := andThen_eq_done_iff.mp stepped
  obtain ⟨last, performed, rfl⟩ := map_eq_done_iff.mp placed
  obtain rfl := done_inj.mp listed
  obtain ⟨bytes, image, fits, ends, trace, address⟩ :=
    Statement.exists_piece_of_perform resting performed
  refine ⟨bytes, ?_, image, fits, ends, ⟨rfl, rfl⟩⟩
  simp only [Writer.list, Output.record, trace, address]

/-- The state of the second pass after so many statements: every entry describes its
statement, and what no entry covers is still blank. -/
structure Writer.Faithful (statements : List Statement) (count : Nat) (writer : Writer) :
    Prop where
  resting : writer.output.Resting
  length : writer.listing.size = count
  cursor : writer.output.cursor = offsetAfter (statements.take count)
  describes : ∀ (index : Nat) (entry : ListingEntry), writer.listing[index]? = some entry →
    entry.Describes statements index writer.output.image
  blank : ∀ (index : Nat) (byte : UInt8), writer.output.image[index]? = some byte →
    (∀ entry ∈ writer.listing, ¬ entry.Covers index) → byte = 0

/-- Placing and listing one more statement keeps the listing faithful. -/
theorem Writer.Faithful.step {statements : List Statement} {binder : Binder}
    (bound : bindSymbols statements = done binder) {count : Nat} {writer next : Writer}
    {statement : Statement} (faithful : writer.Faithful statements count)
    (here : statements[count]? = some statement) (stepped : writer.step statement = done next)
    (reached : next.output.cursor = offsetAfter (statements.take (count + 1))) :
    next.Faithful statements (count + 1) := by
  obtain ⟨bytes, lists⟩ := Writer.exists_lists_of_step faithful.resting stepped
  refine ⟨lists.resting, ?_, reached, ?_, ?_⟩
  · rw [lists.listing, Array.size_push, faithful.length]
  · intro index entry found
    rw [lists.listing, Array.getElem?_push, faithful.length] at found
    rw [lists.image]
    by_cases newest : index = count
    · -- The newest entry is what was just written.
      rw [if_pos newest, Option.some_inj] at found
      subst newest found
      refine ⟨by rw [here, Option.map_some], faithful.cursor, ?_, ?_⟩
      · rw [← reached, ListingEntry.stop, List.size_toArray]
        exact lists.ends
      · rw [ListingEntry.stop, List.size_toArray]
        by_cases empty : bytes = []
        · rw [empty, List.length_nil, Nat.add_zero, Array.extract_empty_of_stop_le_start]
          exact Nat.le_refl _
        · exact (extract_writeAt (lists.fits empty)).symm
    · -- Older entries end before the offset at which was written.
      rw [if_neg newest] at found
      refine (faithful.describes index entry found).writeAt ?_ bytes
      have old : index < count := by
        have bounded := (Array.getElem?_eq_some_iff.mp found).1
        rwa [faithful.length] at bounded
      rw [faithful.cursor]
      exact offsetAfter_take_le bound old
  · intro index byte found uncovered
    rw [lists.image] at found
    rw [lists.listing] at uncovered
    have outside : index < writer.output.cursor ∨ writer.output.cursor + bytes.length ≤ index := by
      have missed := uncovered _ (Array.mem_push_self ..)
      simp only [ListingEntry.Covers, ListingEntry.stop, List.size_toArray] at missed
      omega
    rw [getElem?_writeAt_outside outside] at found
    exact faithful.blank index byte found fun entry member =>
      uncovered entry (Array.mem_push_of_mem _ member)

/-- The second pass keeps the listing faithful to the image. -/
theorem writeImage_faithful {table : OpcodeTable} {statements : List Statement} {binder : Binder}
    (bound : bindSymbols statements = done binder) {writer : Writer}
    (written : writeImage table binder.symbols binder.counter.offset statements = done writer) :
    writer.Faithful statements statements.length := by
  refine run_invariant (fun passed writer => writer.Faithful statements passed.length) ?_ ?_ written
  · refine ⟨⟨rfl, rfl⟩, rfl, rfl, fun index entry found => ?_, fun index byte found _ => ?_⟩
    · exact absurd found (by simp)
    · obtain ⟨-, rfl⟩ := Array.getElem?_eq_some_iff.mp found
      exact Array.getElem_replicate ..
  · intro passed statement rest writer next whole through faithful stepped
    have here : statements[passed.length]? = some statement := by
      rw [whole, List.getElem?_append_right (Nat.le_refl _), Nat.sub_self, List.getElem?_cons_zero]
    rw [List.length_append]
    refine faithful.step bound here stepped ?_
    -- The cursor is known from the agreement of the passes.
    have resplit : statements = (passed ++ [statement]) ++ rest := by
      rw [whole, List.append_assoc]
      rfl
    have beginning : statements.take (passed.length + 1) = passed ++ [statement] := by
      rw [resplit]
      exact List.take_left' (by rw [List.length_append, List.length_singleton])
    have further : writeImage table binder.symbols binder.counter.offset (passed ++ [statement]) =
        done next := by
      rw [writeImage, run_concat, through, done_andThen, stepped]
    obtain ⟨earlier, reached, -⟩ := bindSymbols_append_eq_done (resplit ▸ bound)
    rw [beginning, offsetAfter_eq reached]
    exact (writeImage_tracks bound resplit reached further).cursor

section

variable {statements : List Statement} {writer : Writer}

/-- The entries of a faithful listing follow one another. -/
theorem Writer.Faithful.pairwise {binder : Binder} (bound : bindSymbols statements = done binder)
    {count : Nat} (faithful : writer.Faithful statements count) :
    writer.listing.toList.Pairwise fun entry later => entry.stop ≤ later.address := by
  rw [List.pairwise_iff_getElem]
  intro first second inFirst inSecond ordered
  have earlier := faithful.describes first _ (Array.getElem?_eq_getElem inFirst)
  have later := faithful.describes second _ (Array.getElem?_eq_getElem inSecond)
  calc (writer.listing.toList[first]).stop
    _ ≤ offsetAfter (statements.take (first + 1)) := earlier.ends
    _ ≤ offsetAfter (statements.take second) := offsetAfter_take_le bound ordered
    _ = (writer.listing.toList[second]).address := later.address.symm

/-- A faithful listing of all statements shows each of them. -/
theorem Writer.Faithful.map_source (faithful : writer.Faithful statements statements.length) :
    writer.listing.toList.map (·.source) = statements.map Statement.render := by
  apply List.ext_getElem?
  intro index
  rw [List.getElem?_map, List.getElem?_map, Array.getElem?_toList]
  cases found : writer.listing[index]? with
  | none =>
      have beyond := Array.getElem?_eq_none_iff.mp found
      rw [faithful.length] at beyond
      rw [List.getElem?_eq_none beyond]
      rfl
  | some entry => exact (faithful.describes index entry found).source.symm

/-- An entry of a faithful listing of all statements ends before the next one begins, the
last one before the offset that the first pass reaches. -/
theorem Writer.Faithful.stop_le (faithful : writer.Faithful statements statements.length)
    {index : Nat} {entry : ListingEntry} (found : writer.listing[index]? = some entry) :
    entry.stop ≤ (writer.listing[index + 1]?.map (·.address)).getD (offsetAfter statements) := by
  refine Nat.le_trans (faithful.describes index entry found).ends ?_
  cases following : writer.listing[index + 1]? with
  | none =>
      have beyond := Array.getElem?_eq_none_iff.mp following
      rw [faithful.length] at beyond
      rw [List.take_of_length_le beyond]
      exact Nat.le_refl _
  | some next => exact Nat.le_of_eq (faithful.describes (index + 1) next following).address.symm

end

/-- The listing of an assembly has one entry for each statement, in order. Each begins at
the offset that the first pass had before its statement, and its bytes are those of the
image from there on; it ends before the next entry begins and inside the image, so that
no two entries share a byte of it. A byte that belongs to no entry is zero. -/
theorem listing_describes_image (table : OpcodeTable) (statements : List Statement)
    (assembly : Assembly) (assembled : assemble table statements = .ok assembly) :
    let listing := assembly.listing
    let image := assembly.image
    listing.length = statements.length ∧
    listing.map (·.source) = statements.map Statement.render ∧
    (∀ index entry, listing[index]? = some entry →
      (∃ earlier, bindSymbols (statements.take index) = done earlier ∧
        entry.address = earlier.counter.offset) ∧
      entry.bytes = image.extract entry.address (entry.address + entry.bytes.size) ∧
      entry.address + entry.bytes.size ≤
        (listing[index + 1]?.map (·.address)).getD image.size) ∧
    listing.Pairwise (fun entry later => entry.address + entry.bytes.size ≤ later.address) ∧
    (∀ index byte, image[index]? = some byte →
      (∀ entry ∈ listing, ¬ (entry.address ≤ index ∧ index < entry.address + entry.bytes.size)) →
      byte = 0) := by
  obtain ⟨binder, writer, bound, written, rfl⟩ := assemble_eq_ok_iff.mp assembled
  have faithful := writeImage_faithful bound written
  have size : writer.output.image.size = offsetAfter statements := by
    rw [offsetAfter_eq bound]
    exact (writeImage_tracks bound (List.append_nil statements).symm bound written).size
  refine ⟨faithful.length, faithful.map_source, ?_, faithful.pairwise bound, ?_⟩
  · intro index entry found
    rw [Array.getElem?_toList] at found ⊢
    have describes := faithful.describes index entry found
    refine ⟨?_, describes.bytes, ?_⟩
    · obtain ⟨earlier, reached, -⟩ :=
        bindSymbols_append_eq_done ((List.take_append_drop index statements).symm ▸ bound)
      exact ⟨earlier, reached, describes.address.trans (offsetAfter_eq reached)⟩
    · rw [size]
      exact faithful.stop_le found
  · intro index byte found uncovered
    exact faithful.blank index byte found fun entry member =>
      uncovered entry (Array.mem_toList_iff.mpr member)

/-- A nested repetition, a repetition of nothing, a gap, a machine instruction behind its
label and a label at the end: the gap is blank and the instruction has its bytes. -/
theorem listing_describes_image_with_gap :
    let statements : List Statement :=
      [.instruction none ⟨"DUP", ["2", "dup", "2", "db", "1", "2"], default⟩,
        .instruction none ⟨"DUP", ["0", "db", "9"], default⟩,
        .instruction none ⟨"SEEK", ["0x10"], default⟩,
        .instruction (some ⟨"here", default⟩) ⟨"JMP", ["here"], default⟩,
        .label ⟨"end", default⟩]
    let table := (OpcodeTable.ofDefinitions [("10____", "JMP addr")]).toOption.getD default
    ∃ assembly, assemble table statements = .ok assembly ∧
      assembly.listing.length = 5 ∧
      (∀ entry, assembly.listing[3]? = some entry →
        entry.bytes = assembly.image.extract entry.address (entry.address + entry.bytes.size)) ∧
      assembly.listing.map (fun entry => (entry.address, entry.bytes.size)) =
        [(0, 8), (8, 0), (8, 0), (16, 3), (19, 0)] ∧
      assembly.image[12]? = some 0 := by
  intro statements table
  have shape : (assemble table statements).toOption.map (fun assembly =>
      (assembly.image.size, assembly.listing.map fun entry => (entry.address, entry.bytes.size))) =
      some (19, [(0, 8), (8, 0), (8, 0), (16, 3), (19, 0)]) := by decide +kernel
  obtain ⟨assembly, found, sizes⟩ := Option.map_eq_some_iff.mp shape
  obtain ⟨imageSize, ranges⟩ := Prod.mk.inj sizes
  have assembled : assemble table statements = .ok assembly := toOption_eq_some_iff.mp found
  obtain ⟨length, -, describes, -, blank⟩ :=
    listing_describes_image table statements assembly assembled
  refine ⟨assembly, assembled, length, fun entry third => (describes 3 entry third).2.1, ranges, ?_⟩
  have inside : 12 < assembly.image.size := by rw [imageSize]; decide
  rw [Array.getElem?_eq_getElem inside, Option.some_inj]
  refine blank 12 _ (Array.getElem?_eq_getElem inside) ?_
  intro entry member covers
  have range : (entry.address, entry.bytes.size) ∈ [(0, 8), (8, 0), (8, 0), (16, 3), (19, 0)] :=
    ranges ▸ List.mem_map_of_mem member
  simp only [List.mem_cons, Prod.mk.injEq, List.not_mem_nil, or_false] at range
  omega

end ChipAsm
