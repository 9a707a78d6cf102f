/-
# Writing into the image

Bytes that are written show up where they were written and nowhere else. The lemmas
on `writeAt` say so for one write and join neighbouring writes into one; the lemmas on
`Output` say exactly when the image accepts what it is given and what it is afterwards.

An instruction can place a whole tower of repetitions. Still it either only moves the
cursor or writes one unbroken piece of the image, since the tower has a single
innermost instruction: `perform_jumps_or_writes` is the one fact about a statement that
the listing needs.
-/

import ChipAsm.Output
import ChipAsm.Proofs.Placement.Movement

namespace ChipAsm

open Outcome

@[simp]
theorem size_writeAt (image : Array UInt8) (offset : Nat) (bytes : List UInt8) :
    (writeAt image offset bytes).size = image.size := by
  induction bytes generalizing image offset with
  | nil => rfl
  | cons byte rest ih => rw [writeAt, ih, Array.size_setIfInBounds]

/-- Writing leaves everything outside the written range alone. -/
theorem getElem?_writeAt_outside {image : Array UInt8} {offset index : Nat} {bytes : List UInt8}
    (outside : index < offset ∨ offset + bytes.length ≤ index) :
    (writeAt image offset bytes)[index]? = image[index]? := by
  induction bytes generalizing image offset with
  | nil => rfl
  | cons byte rest ih =>
      rw [List.length_cons] at outside
      rw [writeAt, ih (by omega), Array.getElem?_setIfInBounds_ne (by omega)]

/-- What was written inside the image is found there. -/
theorem getElem?_writeAt_inside {image : Array UInt8} {offset index : Nat} {bytes : List UInt8}
    (fits : offset + bytes.length ≤ image.size) (inside : index < bytes.length) :
    (writeAt image offset bytes)[offset + index]? = bytes[index]? := by
  induction bytes generalizing image offset index with
  | nil => exact absurd inside (Nat.not_lt_zero index)
  | cons byte rest ih =>
      rw [List.length_cons] at fits inside
      rw [writeAt]
      match index with
      | 0 =>
          rw [getElem?_writeAt_outside (.inl (by omega)), Nat.add_zero,
            Array.getElem?_setIfInBounds_self_of_lt (by omega), List.getElem?_cons_zero]
      | index + 1 =>
          rw [List.getElem?_cons_succ, ← Nat.add_assoc, Nat.add_right_comm]
          exact ih (by rw [Array.size_setIfInBounds]; omega) (by omega)

/-- Two neighbouring writes are one. -/
theorem writeAt_append (image : Array UInt8) (offset : Nat) (first second : List UInt8) :
    writeAt image offset (first ++ second) =
      writeAt (writeAt image offset first) (offset + first.length) second := by
  induction first generalizing image offset with
  | nil => rfl
  | cons byte rest ih =>
      rw [List.cons_append, writeAt, writeAt, ih, List.length_cons]
      congr 1
      omega

/-- The part of the image that was written reads as it was written. -/
theorem extract_writeAt {image : Array UInt8} {offset : Nat} {bytes : List UInt8}
    (fits : offset + bytes.length ≤ image.size) :
    (writeAt image offset bytes).extract offset (offset + bytes.length) = bytes.toArray := by
  apply Array.ext_getElem?
  intro index
  rw [Array.getElem?_extract, size_writeAt]
  by_cases inside : index < bytes.length
  · rw [if_pos (by omega), getElem?_writeAt_inside fits inside]
    exact List.getElem?_toArray.symm
  · rw [if_neg (by omega)]
    exact (Array.getElem?_eq_none (Nat.not_lt.mp inside)).symm

/-- A part of the image that ends before the write reads as before. -/
theorem extract_writeAt_of_le {image : Array UInt8} {offset first last : Nat}
    {bytes : List UInt8} (before : last ≤ offset) :
    (writeAt image offset bytes).extract first last = image.extract first last := by
  apply Array.ext_getElem?
  intro index
  rw [Array.getElem?_extract, Array.getElem?_extract, size_writeAt]
  by_cases inside : index < min last image.size - first
  · rw [if_pos inside, if_pos inside, getElem?_writeAt_outside (.inl (by omega))]
  · rw [if_neg inside, if_neg inside]

/-- Writing inside an image does not reach what is appended to the image. -/
theorem writeAt_append_image {image : Array UInt8} {offset : Nat} {bytes : List UInt8}
    (fits : offset + bytes.length ≤ image.size) (rest : Array UInt8) :
    writeAt (image ++ rest) offset bytes = writeAt image offset bytes ++ rest := by
  induction bytes generalizing image offset with
  | nil => rfl
  | cons byte bytes ih =>
      rw [List.length_cons] at fits
      rw [writeAt, writeAt, Array.setIfInBounds_append_left (by omega)]
      exact ih (by rw [Array.size_setIfInBounds]; omega)

namespace Output

/-- The output after it has accepted bytes. -/
def written (output : Output) (bytes : List UInt8) : Output :=
  { output with
    image := writeAt output.image output.cursor bytes
    cursor := output.cursor + bytes.length
    start := some (output.start.getD output.cursor)
    trace := output.trace ++ bytes }

/-- The output accepts exactly the bytes that fit into the image. -/
theorem emit_eq_done_iff {output last : Output} {bytes : List UInt8} :
    output.emit bytes = done last ↔
      output.cursor + bytes.length ≤ output.image.size ∧ output.written bytes = last := by
  unfold emit
  by_cases fits : output.cursor + bytes.length ≤ output.image.size
  · simp [fits, written]
  · simp [fits]

theorem length_wordBytes (word : Word) : (Word.bytes word).length = wordSize := rfl

/-- The output accepts exactly the instructions that have a word and room for it. -/
theorem instruction_eq_done_iff {output last : Output} {instruction : Instruction} :
    output.instruction instruction = done last ↔
      ∃ word, output.table.encode output.symbols instruction = .ok word ∧
        output.cursor + wordSize ≤ output.image.size ∧
        { output with words := output.words.push (instruction, word) }.written
          (Word.bytes word) = last := by
  unfold Output.instruction
  cases output.table.encode output.symbols instruction with
  | error fault => simp
  | ok word => simp [explain_eq_done_iff, emit_eq_done_iff, length_wordBytes]

instance : LawfulSink Output where
  position_seek _ _ := rfl
  position_emit accepted := by
    rw [← (emit_eq_done_iff.mp accepted).2]
    rfl
  position_instruction accepted := by
    obtain ⟨word, -, -, rfl⟩ := instruction_eq_done_iff.mp accepted
    rfl

/-- The cursor moved ahead and nothing else happened. -/
def Jumps (output last : Output) : Prop :=
  ∃ target, output.cursor ≤ target ∧ last = { output with cursor := target }

/-- One unbroken piece was written at the cursor. An empty piece may or may not have
marked the start of what the statement wrote. -/
structure Writes (output : Output) (bytes : List UInt8) (last : Output) : Prop where
  fits : bytes ≠ [] → output.cursor + bytes.length ≤ output.image.size
  image : last.image = writeAt output.image output.cursor bytes
  cursor : last.cursor = output.cursor + bytes.length
  trace : last.trace = output.trace ++ bytes
  origin : last.origin = output.origin
  start : last.start = some (output.start.getD output.cursor) ∨
    bytes = [] ∧ last.start = output.start

theorem Jumps.refl (output : Output) : Jumps output output :=
  ⟨output.cursor, Nat.le_refl _, rfl⟩

theorem Jumps.trans {first second third : Output} (before : Jumps first second)
    (after : Jumps second third) : Jumps first third := by
  obtain ⟨target, ahead, rfl⟩ := before
  obtain ⟨final, further, rfl⟩ := after
  exact ⟨final, Nat.le_trans ahead further, rfl⟩

theorem Writes.refl (output : Output) : Writes output [] output where
  fits nonempty := absurd rfl nonempty
  image := rfl
  cursor := rfl
  trace := by simp
  origin := rfl
  start := .inr ⟨rfl, rfl⟩

theorem Writes.trans {first second third : Output} {head tail : List UInt8}
    (before : Writes first head second) (after : Writes second tail third) :
    Writes first (head ++ tail) third where
  fits nonempty := by
    have size : second.image.size = first.image.size := by rw [before.image, size_writeAt]
    rw [List.length_append]
    by_cases empty : tail = []
    · rw [empty, List.append_nil] at nonempty
      rw [empty, List.length_nil, Nat.add_zero]
      exact before.fits nonempty
    · have room := after.fits empty
      rw [before.cursor, size] at room
      omega
  image := by rw [after.image, before.image, before.cursor, writeAt_append]
  cursor := by rw [after.cursor, before.cursor, List.length_append, Nat.add_assoc]
  trace := by
    rw [after.trace, before.trace]
    apply Array.ext'
    simp only [Array.toList_appendList, List.append_assoc]
  origin := after.origin.trans before.origin
  start := by
    rcases before.start with marked | ⟨rfl, unmarked⟩
    · left
      rcases after.start with again | ⟨-, kept⟩
      · rw [again, marked, Option.getD_some]
      · rw [kept, marked]
    · rw [List.nil_append, ← unmarked]
      have still : second.cursor = first.cursor := before.cursor
      rw [← still]
      exact after.start

/-- Accepted bytes are one piece. -/
theorem writes_written {output : Output} {bytes : List UInt8}
    (fits : output.cursor + bytes.length ≤ output.image.size) :
    Writes output bytes (output.written bytes) where
  fits _ := fits
  image := rfl
  cursor := rfl
  trace := rfl
  origin := rfl
  start := .inl rfl

/-- What one action of an instruction does to the output. -/
theorem jumps_or_writes_of_act {instruction : Instruction} {output next : Output}
    (action : instruction.act output = done next) :
    if Directive.ofMnemonic? instruction.mnemonic = some .seek then Jumps output next
    else ∃ bytes, Writes output bytes next := by
  rcases Instruction.act_cases action with ⟨directive, accepted⟩ |
    ⟨directive, target, -, -, ahead, rfl⟩ | ⟨kind, directive, bytes, -, accepted⟩
  · rw [directive, if_neg (by decide)]
    obtain ⟨word, -, fits, rfl⟩ := instruction_eq_done_iff.mp accepted
    have piece : Writes { output with words := output.words.push (instruction, word) }
        (Word.bytes word) _ := writes_written fits
    exact ⟨Word.bytes word, { piece with }⟩
  · rw [if_pos directive]
    exact ⟨target, ahead, rfl⟩
  · rw [directive, if_neg (by simp)]
    obtain ⟨fits, rfl⟩ := emit_eq_done_iff.mp accepted
    exact ⟨bytes, writes_written fits⟩

/-- An instruction that was placed either only moved the cursor or wrote one unbroken
piece, however deep its repetitions nest. -/
theorem perform_jumps_or_writes {instruction : Instruction} {output last : Output}
    (through : instruction.perform output = done last) :
    Jumps output last ∨ ∃ bytes, Writes output bytes last := by
  by_cases jump : Directive.ofMnemonic? instruction.innermost.mnemonic = some .seek
  · left
    refine Instruction.perform_induction Jumps Jumps.refl (fun _ _ _ => Jumps.trans) instruction
      (fun output next action _ => ?_) through
    have shape := jumps_or_writes_of_act action
    rwa [if_pos jump] at shape
  · right
    refine Instruction.perform_induction (fun output last => ∃ bytes, Writes output bytes last)
      (fun output => ⟨[], .refl output⟩) ?_ instruction (fun output next action _ => ?_) through
    · rintro first second third ⟨head, before⟩ ⟨tail, after⟩
      exact ⟨head ++ tail, before.trans after⟩
    · have shape := jumps_or_writes_of_act action
      rwa [if_neg jump] at shape

end Output

end ChipAsm
