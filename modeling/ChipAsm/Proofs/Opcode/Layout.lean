/-
# The layout of an opcode

What a definition that is accepted guarantees about the opcode it makes. The two words of
the opcode, its base and its mask, are those of the fixed nibbles of the pattern, and there
is one field for each letter of the pattern, in just the nibbles that are marked with the
letter. So fields meet neither each other nor the fixed nibbles, and this carries over to
the values that are packed into them: a packed value is the value at the capacity of its
field, moved to the nibbles of the field, and has no bit in common with the mask or with a
value packed into another field.
-/

import ChipAsm.Proofs.Opcode.Pattern

namespace ChipAsm

/-! ## What a definition makes -/

/-- A definition that is accepted has well-formed cells, one of which is fixed, a mnemonic
and operands, all letters of which are in the pattern. -/
theorem Opcode.exists_of_define {pattern format : String} {opcode : Opcode}
    (defined : Opcode.define pattern format = .ok opcode) :
    ∃ cells operands, Pattern.cells pattern = .ok cells ∧ Pattern.mask cells ≠ 0 ∧
      (Format.split format).1 ≠ [] ∧ (Format.split format).1.all Char.isUpper = true ∧
      Format.operands (Format.split format).2 = .ok operands ∧
      (∀ letter ∈ operands.flatMap Operand.letters,
        letter ∈ (Pattern.fields cells).map Field.letter) ∧
      opcode = { pattern, format, mnemonic := String.ofList (Format.split format).1, operands,
                 base := Pattern.base cells, mask := Pattern.mask cells,
                 fields := Pattern.fields cells } := by
  simp only [define, bind_eq_ok_iff, guard_eq_ok_iff] at defined
  obtain ⟨cells, read, fixed, named, upper, operands, classified, checked⟩ := defined
  refine ⟨cells, operands, read, fixed, by simpa using named, by simpa using upper, classified, ?_⟩
  split at checked
  · cases checked
  · next bound =>
      refine ⟨?_, (pure_eq_ok_iff.mp checked).symm⟩
      intro letter member
      simpa using List.find?_eq_none.mp bound letter member

/-! ## Fields in a word -/

namespace Field

/-- The nibbles of the field are nibbles of a machine word, and its values are not narrower
than its nibbles. -/
structure Fits (field : Field) : Prop where
  nonempty : 0 < field.nibbles
  above : field.nibbles ≤ field.offset + 1
  inside : field.offset < 6
  wide : 4 * field.nibbles ≤ min field.bits 32

theorem capacity_span (field : Field) : field.span.capacity = 16 ^ field.nibbles := by
  rw [Span.capacity, span, Nat.one_shiftLeft, Nat.pow_mul]

namespace Fits

variable {field other : Field} {word : Word}

/-- A value at the capacity of the field stays below 24 bits when it is moved to its place. -/
theorem moved_lt (fits : field.Fits) (value : Int) :
    (value % (16 ^ field.nibbles : Nat)).toNat * 16 ^ (field.offset + 1 - field.nibbles) <
      2 ^ 24 := by
  have small := field.span.toNat_emod_lt_capacity value
  rw [capacity_span] at small
  calc (value % (16 ^ field.nibbles : Nat)).toNat * 16 ^ (field.offset + 1 - field.nibbles)
    _ < 16 ^ field.nibbles * 16 ^ (field.offset + 1 - field.nibbles) :=
        Nat.mul_lt_mul_of_pos_right small (Nat.pow_pos (by decide))
    _ = 16 ^ (field.offset + 1) := by rw [← Nat.pow_add, Nat.add_sub_cancel' fits.above]
    _ ≤ 16 ^ 6 := Nat.pow_le_pow_right (by decide) fits.inside
    _ = 2 ^ 24 := by decide

/-- A packed value is the value at the capacity of the field, moved to its nibbles. -/
theorem toNat_pack (fits : field.Fits) (value : Int) :
    (field.pack value).toNat =
      (value % (16 ^ field.nibbles : Nat)).toNat * 16 ^ (field.offset + 1 - field.nibbles) := by
  rw [Field.pack_eq_place fits.wide, Span.place, BitVec.toNat_ofNat, capacity_span,
    Nat.shiftLeft_eq, span, Nat.pow_mul]
  apply Nat.mod_eq_of_lt
  exact Nat.lt_trans (fits.moved_lt value) (by decide)

theorem toNat_pack_lt (fits : field.Fits) (value : Int) : (field.pack value).toNat < 2 ^ 24 :=
  fits.toNat_pack value ▸ fits.moved_lt value

/-- What is packed into nibbles that are blank in a word has no bit in common with it. -/
theorem pack_and_eq_zero (fits : field.Fits)
    (blank : ∀ index, field.Occupies index → Word.nibble word index = 0) (value : Int) :
    field.pack value &&& word = 0#32 := by
  rw [Field.pack_eq_place fits.wide]
  apply Span.place_and_eq_zero
  apply Nat.eq_of_testBit_eq
  intro bit
  rw [Span.testBit_read, Nat.zero_testBit]
  by_cases within : bit < field.span.width
  · rw [Word.getLsbD_eq_testBit_nibble, blank, Nat.zero_testBit, Bool.and_false]
    have above := fits.above
    simp only [Occupies, span] at within ⊢
    omega
  · rw [decide_eq_false within, Bool.false_and]

/-- Fields that share no nibble have spans that lie apart. -/
theorem apart_span (fits : field.Fits) (fitsOther : other.Fits)
    (separate : ∀ index, field.Occupies index → ¬ other.Occupies index) :
    field.span.Apart other.span := by
  obtain ⟨some, above, -, -⟩ := fits
  obtain ⟨someOther, aboveOther, -, -⟩ := fitsOther
  by_contra meet
  -- If the spans meet, then the higher one of their lowest nibbles belongs to both.
  have shared := separate
    (max (field.offset + 1 - field.nibbles) (other.offset + 1 - other.nibbles))
  simp only [Span.Apart, span, Occupies] at meet shared
  omega

/-- Values packed into fields that share no nibble have no bit in common. -/
theorem pack_and_pack_eq_zero (fits : field.Fits) (fitsOther : other.Fits)
    (separate : ∀ index, field.Occupies index → ¬ other.Occupies index) (value another : Int) :
    field.pack value &&& other.pack another = 0#32 := by
  rw [Field.pack_eq_place fits.wide, Field.pack_eq_place fitsOther.wide]
  apply Span.place_and_eq_zero
  exact Span.read_place_of_apart (fits.apart_span fitsOther separate) another

end Fits

end Field

/-! ## Fields and fixed nibbles of a pattern -/

namespace Pattern

variable {pattern : String} {cells : List Cell}

theorem map_letter_fields (cells : List Cell) :
    (fields cells).map Field.letter = letters cells := by
  rw [fields, List.map_map]
  exact List.map_id _

/-- Every letter has one field. -/
theorem nodup_letters (cells : List Cell) : (letters cells).Nodup := by
  rw [letters]
  generalize cells.filterMap _ = occurrences
  -- What is erased after a letter is erased from a shorter list.
  induction size : occurrences.length using Nat.strongRecOn generalizing occurrences with
  | ind length ih =>
      cases occurrences with
      | nil => simp
      | cons first rest =>
          rw [List.eraseDups_cons, List.nodup_cons]
          constructor
          · simp
          · refine ih _ ?_ _ rfl
            rw [← size]
            exact Nat.lt_succ_of_le (List.length_filter_le _ _)

namespace Writes

theorem slot_of_mem_fields {field : Field} (member : field ∈ fields cells) :
    Cell.slot field.letter ∈ cells ∧ Pattern.field cells field.letter = field := by
  obtain ⟨letter, among, rfl⟩ := List.mem_map.mp member
  exact ⟨mem_letters_iff.mp among, rfl⟩

theorem fits (writes : Writes pattern cells) {field : Field} (member : field ∈ fields cells) :
    field.Fits := by
  obtain ⟨present, same⟩ := slot_of_mem_fields member
  have some := List.count_pos_iff.mpr present
  have inside := writes.idxOf_add_count_le present
  rw [← same]
  simp only [Pattern.size] at inside
  refine ⟨some, ?_, ?_, ?_⟩
  · simp only [Pattern.field, Pattern.size]
    omega
  · simp only [Pattern.field, Pattern.size]
    omega
  · simp only [Pattern.field, bitsFor]
    split
    · omega
    · split <;> omega

/-- The nibbles of a field are those marked with its letter. -/
theorem occupies_iff_mark? (writes : Writes pattern cells) {field : Field}
    (member : field ∈ fields cells) (index : Nat) :
    field.Occupies index ↔ mark? pattern index = some field.letter.char := by
  obtain ⟨present, same⟩ := slot_of_mem_fields member
  rw [← writes.occupies_iff present, same]

/-- A nibble with a digit is fixed to the digit. -/
theorem nibble_of_digit (writes : Writes pattern cells) {index : Nat} {c : Char}
    {digit : Fin 16} (mark : mark? pattern index = some c)
    (known : Text.hexDigit? c = some digit) :
    Word.nibble (mask cells) index = 15 ∧ Word.nibble (base cells) index = digit.val := by
  have short : cells.length ≤ 8 := by rw [writes.length_cells]; decide
  rw [nibble_mask short, nibble_base short, writes.getElem?_cells, mark, Option.bind_some,
    Cell.ofChar?_eq_fixed_iff.mpr known]
  exact ⟨rfl, rfl⟩

/-- A nibble without a digit is not fixed. -/
theorem nibble_of_no_digit (writes : Writes pattern cells) {index : Nat}
    (unmarked : ∀ c, mark? pattern index = some c → Text.hexDigit? c = none) :
    Word.nibble (mask cells) index = 0 ∧ Word.nibble (base cells) index = 0 := by
  have short : cells.length ≤ 8 := by rw [writes.length_cells]; decide
  rw [nibble_mask short, nibble_base short]
  cases found : cells.reverse[index]? with
  | none => exact ⟨rfl, rfl⟩
  | some cell =>
      cases cell with
      | fixed digit =>
          rw [writes.getElem?_cells] at found
          obtain ⟨c, mark, isFixed⟩ := Option.bind_eq_some_iff.mp found
          rw [Cell.ofChar?_eq_fixed_iff, unmarked c mark] at isFixed
          cases isFixed
      | slot letter => exact ⟨rfl, rfl⟩
      | ignored => exact ⟨rfl, rfl⟩

/-- A nibble is either fixed to a digit or blank in both words. -/
theorem nibble_cases (writes : Writes pattern cells) (index : Nat) :
    Word.nibble (mask cells) index = 15 ∨
      Word.nibble (mask cells) index = 0 ∧ Word.nibble (base cells) index = 0 := by
  rcases digit_or_none pattern index with ⟨c, digit, mark, known⟩ | unmarked
  · exact .inl (writes.nibble_of_digit mark known).1
  · exact .inr (writes.nibble_of_no_digit unmarked)

theorem nibble_of_high (writes : Writes pattern cells) {index : Nat} (high : 6 ≤ index) :
    Word.nibble (mask cells) index = 0 ∧ Word.nibble (base cells) index = 0 := by
  apply writes.nibble_of_no_digit
  intro c mark
  have inside := (List.getElem?_eq_some_iff.mp mark).1
  have length : pattern.toList.length = 6 := writes.length
  rw [List.length_reverse] at inside
  omega

/-- The base has no bits outside the mask. -/
theorem base_and_not_mask (writes : Writes pattern cells) :
    base cells &&& ~~~mask cells = 0#32 := by
  apply BitVec.eq_of_getLsbD_eq
  intro index inside
  rw [BitVec.getLsbD_and, BitVec.getLsbD_not, BitVec.getLsbD_zero,
    Word.getLsbD_eq_testBit_nibble (base cells), Word.getLsbD_eq_testBit_nibble (mask cells)]
  rcases writes.nibble_cases (index / 4) with fixed | ⟨-, blank⟩
  · rw [fixed, Word.testBit_fifteen (Nat.mod_lt index (by decide)), Bool.not_true, Bool.and_false,
      Bool.and_false]
  · rw [blank, Nat.zero_testBit, Bool.false_and]

end Writes

end Pattern

/-! ## Opcodes -/

/-- The opcode is laid out as the pattern says. -/
structure Opcode.LaidOut (opcode : Opcode) (pattern : String) : Prop where
  /-- The base and the mask have 24 bits. -/
  base_lt : opcode.base.toNat < 2 ^ 24
  mask_lt : opcode.mask.toNat < 2 ^ 24
  /-- Something is fixed, and the base has no bits elsewhere. -/
  mask_ne_zero : opcode.mask ≠ 0#32
  base_and_not_mask : opcode.base &&& ~~~opcode.mask = 0#32
  /-- The fixed nibbles are those marked with a digit, which is the nibble of the base. -/
  fixed : ∀ index c digit, Pattern.mark? pattern index = some c → Text.hexDigit? c = some digit →
    Word.nibble opcode.mask index = 15 ∧ Word.nibble opcode.base index = digit.val
  free : ∀ index, (∀ c, Pattern.mark? pattern index = some c → Text.hexDigit? c = none) →
    Word.nibble opcode.mask index = 0
  /-- There is one field for each letter of the pattern. -/
  nodup_letters : (opcode.fields.map Field.letter).Nodup
  mem_letters_iff : ∀ letter : Letter,
    letter ∈ opcode.fields.map Field.letter ↔ letter.char ∈ pattern.toList
  /-- The field of a letter has the nibbles that are marked with the letter. -/
  occupies_iff : ∀ field ∈ opcode.fields, ∀ index,
    field.Occupies index ↔ Pattern.mark? pattern index = some field.letter.char
  /-- Fields meet neither each other nor the fixed nibbles. -/
  separate : ∀ field ∈ opcode.fields, ∀ other ∈ opcode.fields, field ≠ other → ∀ index,
    field.Occupies index → ¬ other.Occupies index
  unfixed : ∀ field ∈ opcode.fields, ∀ index,
    field.Occupies index → Word.nibble opcode.mask index = 0
  /-- No field reaches below the lowest nibble. -/
  nibbles_le : ∀ field ∈ opcode.fields, field.nibbles ≤ field.offset + 1
  /-- A packed value is the value at the capacity of its field, moved to its nibbles. -/
  toNat_pack : ∀ field ∈ opcode.fields, ∀ value : Int,
    (field.pack value).toNat =
      (value % (16 ^ field.nibbles : Nat)).toNat * 16 ^ (field.offset + 1 - field.nibbles)
  /-- Packed values meet neither the mask nor each other. -/
  pack_and_mask : ∀ field ∈ opcode.fields, ∀ value : Int,
    field.pack value &&& opcode.mask = 0#32
  pack_and_pack : ∀ field ∈ opcode.fields, ∀ other ∈ opcode.fields, field ≠ other →
    ∀ value another : Int, field.pack value &&& other.pack another = 0#32
  /-- Every letter of an operand has a field. -/
  exists_field : ∀ operand ∈ opcode.operands, ∀ letter ∈ operand.letters,
    ∃ field, opcode.field? letter = some field

namespace Pattern.Writes

variable {pattern : String} {cells : List Cell}

/-- A nibble has one mark, so it belongs to one field at most. -/
theorem separate (writes : Writes pattern cells) {field other : Field}
    (member : field ∈ fields cells) (memberOther : other ∈ fields cells) (differ : field ≠ other)
    (index : Nat) (occupied : field.Occupies index) : ¬ other.Occupies index := by
  intro occupiedOther
  rw [writes.occupies_iff_mark? member] at occupied
  rw [writes.occupies_iff_mark? memberOther] at occupiedOther
  have sameLetter := Letter.char_inj (Option.some.inj (occupied.symm.trans occupiedOther))
  apply differ
  rw [← (slot_of_mem_fields member).2, ← (slot_of_mem_fields memberOther).2, sameLetter]

/-- No letter is a digit, so the nibbles of a field are not fixed. -/
theorem unfixed (writes : Writes pattern cells) {field : Field} (member : field ∈ fields cells)
    (index : Nat) (occupied : field.Occupies index) : Word.nibble (mask cells) index = 0 := by
  refine (writes.nibble_of_no_digit ?_).1
  intro c mark
  rw [(writes.occupies_iff_mark? member index).mp occupied] at mark
  obtain rfl := Option.some.inj mark
  cases field.letter <;> rfl

end Pattern.Writes

/-- The fields of a definition that is accepted fit into a word. -/
theorem Opcode.fits_of_define {pattern format : String} {opcode : Opcode}
    (defined : Opcode.define pattern format = .ok opcode) {field : Field}
    (member : field ∈ opcode.fields) : field.Fits := by
  obtain ⟨cells, operands, read, -, -, -, -, -, rfl⟩ := exists_of_define defined
  exact (Pattern.writes_of_cells read).fits member

/-- A definition that is accepted makes an opcode that is laid out as its pattern says. -/
theorem Opcode.laidOut_of_define {pattern format : String} {opcode : Opcode}
    (defined : Opcode.define pattern format = .ok opcode) : opcode.LaidOut pattern := by
  obtain ⟨cells, operands, read, fixed, -, -, -, bound, rfl⟩ := exists_of_define defined
  have writes := Pattern.writes_of_cells read
  constructor
  case base_lt => exact Word.toNat_lt_of_nibble fun _ high => (writes.nibble_of_high high).2
  case mask_lt => exact Word.toNat_lt_of_nibble fun _ high => (writes.nibble_of_high high).1
  case mask_ne_zero => exact fixed
  case base_and_not_mask => exact writes.base_and_not_mask
  case fixed => exact fun _ _ _ => writes.nibble_of_digit
  case free => exact fun _ unmarked => (writes.nibble_of_no_digit unmarked).1
  case nodup_letters =>
    rw [Pattern.map_letter_fields]
    exact Pattern.nodup_letters cells
  case mem_letters_iff =>
    intro letter
    rw [Pattern.map_letter_fields, Pattern.mem_letters_iff, writes.mem_slot_iff]
  case occupies_iff => exact fun _ member => writes.occupies_iff_mark? member
  case separate => exact fun _ member _ memberOther => writes.separate member memberOther
  case unfixed => exact fun _ member => writes.unfixed member
  case nibbles_le => exact fun _ member => (writes.fits member).above
  case toNat_pack => exact fun _ member => (writes.fits member).toNat_pack
  case pack_and_mask =>
    intro field member
    exact (writes.fits member).pack_and_eq_zero (writes.unfixed member)
  case pack_and_pack =>
    intro field member other memberOther differ
    apply (writes.fits member).pack_and_pack_eq_zero (writes.fits memberOther)
    exact writes.separate member memberOther differ
  case exists_field =>
    intro operand member letter needed
    apply Option.isSome_iff_exists.mp
    obtain ⟨field, among, isLetter⟩ := List.mem_map.mp
      (bound letter (List.mem_flatMap.mpr ⟨operand, member, needed⟩))
    exact List.find?_isSome.mpr ⟨field, among, decide_eq_true isLetter⟩

end ChipAsm
