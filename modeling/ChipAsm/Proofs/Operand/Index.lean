/-
# Spellings of indexed arguments

An indexed argument is `[I`, the digit of its index register, what is added to the index, and `]`.
There are four ways to add to an index: nothing, a register of bank `B`, such a register and an
offset, or an offset alone. An offset is any text that is not empty, whatever signs and brackets
it has; only an offset alone must not begin as a register does, since it would be read as one.

The reader accepts exactly these spellings, no two of them are the same text, and what is read
gives the argument back up to the case of its digits. Nothing is said about the number that the
text of an offset may stand for.
-/

import ChipAsm.Proofs.Operand.Shape

namespace ChipAsm

namespace Argument

/-- A character that is a hexadecimal digit, in either case. -/
@[ext]
structure Digit where
  char : Char
  value : Fin 16
  spelled : Text.IsDigit 16 char value

namespace Digit

theorem hexDigit?_char (digit : Digit) : Text.hexDigit? digit.char = some digit.value :=
  Text.hexDigit?_eq_some_iff.mpr digit.spelled

theorem exists_of_hexDigit? {c : Char} {value : Fin 16} (known : Text.hexDigit? c = some value) :
    ∃ digit : Digit, digit.char = c ∧ digit.value = value :=
  ⟨⟨c, value, Text.hexDigit?_eq_some_iff.mp known⟩, rfl, rfl⟩

theorem eq_of_char_eq {first second : Digit} (same : first.char = second.char) :
    first = second := by
  have values : first.value = second.value := by
    apply Option.some.inj
    rw [← first.hexDigit?_char, ← second.hexDigit?_char, same]
  exact Digit.ext same values

end Digit

/-- The text is a register of bank `B`, or goes on with a plus sign after one. -/
def BeginsAsRegister (text : List Char) : Prop :=
  ∃ digit : Digit, text = ['B', digit.char] ∨ ['B', digit.char, '+'] <+: text

/-- A way to write what is added to an index. -/
inductive Addition
  | nothing
  /-- A register, such as `+B3`. -/
  | register (digit : Digit)
  /-- A register and an offset, such as `+B3+1`. -/
  | registerOffset (digit : Digit) (body : List Char) (nonempty : body ≠ [])
  /-- An offset alone, such as `+1`. -/
  | offset (body : List Char) (nonempty : body ≠ []) (alone : ¬BeginsAsRegister body)

namespace Addition

/-- How the addition is written. -/
def text : Addition → List Char
  | nothing => []
  | register digit => ['+', 'B', digit.char]
  | registerOffset digit body _ => '+' :: 'B' :: digit.char :: '+' :: body
  | offset body _ _ => '+' :: body

/-- The number of the register that is added. -/
def addend? : Addition → Option (Fin 16)
  | nothing => none
  | register digit => some digit.value
  | registerOffset digit _ _ => some digit.value
  | offset _ _ _ => none

/-- The text of the offset that is added. -/
def offset? : Addition → Option (List Char)
  | nothing => none
  | register _ => none
  | registerOffset _ body _ => some body
  | offset body _ _ => some body

end Addition

theorem addend?_eq_some_iff {text : List Char} {value : Fin 16} {offset : Option (List Char)} :
    addend? text = some (value, offset) ↔
      ∃ digit : Digit, digit.value = value ∧
        (text = ['B', digit.char] ∧ offset = none ∨
          ∃ more, text = 'B' :: digit.char :: '+' :: more ∧ offset = some more) := by
  constructor
  · intro read
    unfold addend? at read
    split at read
    · next c =>
        obtain ⟨known, hex, same⟩ := Option.map_eq_some_iff.mp read
        obtain ⟨digit, rfl, rfl⟩ := Digit.exists_of_hexDigit? hex
        cases same
        exact ⟨digit, rfl, .inl ⟨rfl, rfl⟩⟩
    · next c more =>
        obtain ⟨known, hex, same⟩ := Option.map_eq_some_iff.mp read
        obtain ⟨digit, rfl, rfl⟩ := Digit.exists_of_hexDigit? hex
        cases same
        exact ⟨digit, rfl, .inr ⟨more, rfl, rfl⟩⟩
    · cases read
  · rintro ⟨digit, rfl, ⟨rfl, rfl⟩ | ⟨more, rfl, rfl⟩⟩
    · simp only [addend?, digit.hexDigit?_char, Option.map_some]
    · simp only [addend?, digit.hexDigit?_char, Option.map_some]

/-- A text is taken for an offset exactly if it does not begin as a register does. -/
theorem addend?_eq_none_iff {text : List Char} :
    addend? text = none ↔ ¬BeginsAsRegister text := by
  rw [Option.eq_none_iff_forall_ne_some, ← not_exists, not_iff_not, Prod.exists]
  constructor
  · rintro ⟨value, offset, read⟩
    obtain ⟨digit, -, ⟨alone, -⟩ | ⟨more, followed, -⟩⟩ := addend?_eq_some_iff.mp read
    · exact ⟨digit, .inl alone⟩
    · exact ⟨digit, .inr ⟨more, followed.symm⟩⟩
  · rintro ⟨digit, alone | ⟨more, followed⟩⟩
    · exact ⟨digit.value, none, addend?_eq_some_iff.mpr ⟨digit, rfl, .inl ⟨alone, rfl⟩⟩⟩
    · exact ⟨digit.value, some more,
        addend?_eq_some_iff.mpr ⟨digit, rfl, .inr ⟨more, followed.symm, rfl⟩⟩⟩

/-- An addition is read back from its text. -/
theorem added?_text (addition : Addition) :
    added? addition.text = some (addition.addend?, addition.offset?) := by
  cases addition with
  | nothing => rfl
  | register digit =>
      have read : addend? ['B', digit.char] = some (digit.value, none) :=
        addend?_eq_some_iff.mpr ⟨digit, rfl, .inl ⟨rfl, rfl⟩⟩
      simp only [Addition.text, added?, read, Addition.addend?, Addition.offset?]
  | registerOffset digit body nonempty =>
      obtain ⟨first, rest, rfl⟩ := List.exists_cons_of_ne_nil nonempty
      have read : addend? ('B' :: digit.char :: '+' :: first :: rest) =
          some (digit.value, some (first :: rest)) :=
        addend?_eq_some_iff.mpr ⟨digit, rfl, .inr ⟨_, rfl, rfl⟩⟩
      simp only [Addition.text, added?, read, Addition.addend?, Addition.offset?]
  | offset body nonempty alone =>
      have read : addend? body = none := addend?_eq_none_iff.mpr alone
      simp only [Addition.text, added?, read, if_neg nonempty, Addition.addend?, Addition.offset?]

/-- What is read as an addition is the text of one. -/
theorem exists_of_added? {text : List Char} {addend : Option (Fin 16)}
    {offset : Option (List Char)} (read : added? text = some (addend, offset)) :
    ∃ addition : Addition,
      addition.text = text ∧ addition.addend? = addend ∧ addition.offset? = offset := by
  unfold added? at read
  split at read
  · cases read
    exact ⟨.nothing, rfl, rfl, rfl⟩
  · next rest =>
      split at read
      · cases read
      · next nonempty known =>
          cases read
          obtain ⟨digit, rfl, ⟨rfl, rfl⟩ | ⟨body, rfl, rfl⟩⟩ := addend?_eq_some_iff.mp known
          · exact ⟨.register digit, rfl, rfl, rfl⟩
          · exact ⟨.registerOffset digit body fun empty => nonempty (congrArg some empty),
              rfl, rfl, rfl⟩
      · next none =>
          split at read
          · cases read
          · next nonempty =>
              cases read
              exact ⟨.offset rest nonempty (addend?_eq_none_iff.mp none), rfl, rfl, rfl⟩
  · cases read

/-- Two additions are not written alike. -/
theorem Addition.text_injective : Function.Injective Addition.text := by
  intro first second same
  -- Which way it is tells from what is read, so only additions of one way are compared.
  have read := (added?_text first).symm.trans ((congrArg added? same).trans (added?_text second))
  obtain ⟨addends, offsets⟩ := Prod.mk.inj (Option.some.inj read)
  cases first with
  | nothing =>
      cases second with
      | nothing => rfl
      | register _ => cases addends
      | registerOffset _ _ _ => cases addends
      | offset _ _ _ => cases offsets
  | register digit =>
      cases second with
      | nothing => cases addends
      | register other =>
          have chars : digit.char = other.char := by simpa [text] using same
          rw [Digit.eq_of_char_eq chars]
      | registerOffset _ _ _ => cases offsets
      | offset _ _ _ => cases offsets
  | registerOffset digit body nonempty =>
      cases second with
      | nothing => cases addends
      | register _ => cases offsets
      | registerOffset other _ _ =>
          obtain ⟨chars, rfl⟩ : digit.char = other.char ∧ body = _ := by simpa [text] using same
          obtain rfl := Digit.eq_of_char_eq chars
          rfl
      | offset _ _ _ => cases addends
  | offset body nonempty alone =>
      cases second with
      | nothing => cases offsets
      | register _ => cases offsets
      | registerOffset _ _ _ => cases addends
      | offset _ _ _ =>
          obtain rfl := Option.some.inj offsets
          rfl

/-! ## Whole arguments -/

/-- A way to write an indexed argument. -/
@[ext]
structure IndexedSpelling where
  index : Digit
  addition : Addition

namespace IndexedSpelling

/-- How the argument is written. -/
def text (spelling : IndexedSpelling) : String :=
  String.ofList ('[' :: 'I' :: spelling.index.char :: (spelling.addition.text ++ [']']))

/-- What the argument consists of. -/
def parts (spelling : IndexedSpelling) : Indexed where
  index := spelling.index.value
  addend := spelling.addition.addend?
  offset := spelling.addition.offset?.map String.ofList

/-- Two indexed arguments are not written alike. -/
theorem text_injective : Function.Injective text := by
  intro first second same
  have chars := congrArg String.toList same
  rw [text, text, String.toList_ofList, String.toList_ofList] at chars
  obtain ⟨indices, additions⟩ : first.index.char = second.index.char ∧
      first.addition.text = second.addition.text := by simpa using chars
  exact IndexedSpelling.ext (Digit.eq_of_char_eq indices) (Addition.text_injective additions)

end IndexedSpelling

/-- What is read as an indexed argument is the text of one, and each is read back. -/
theorem indexed?_eq_some_iff_spelled {argument : String} {parts : Indexed} :
    indexed? argument = some parts ↔
      ∃ spelling : IndexedSpelling, spelling.text = argument ∧ spelling.parts = parts := by
  rw [indexed?_eq_some_iff]
  constructor
  · rintro ⟨c, rest, offset, rfl, known, added, written⟩
    obtain ⟨digit, rfl, value⟩ := Digit.exists_of_hexDigit? known
    obtain ⟨addition, rfl, addend, rfl⟩ := exists_of_added? added
    refine ⟨⟨digit, addition⟩, rfl, ?_⟩
    rw [IndexedSpelling.parts, value, addend, ← written]
  · rintro ⟨⟨digit, addition⟩, rfl, rfl⟩
    exact ⟨digit.char, addition.text, addition.offset?, rfl, digit.hexDigit?_char,
      added?_text addition, rfl⟩

/-! ## Rendering -/

/-- The characters that a digit can be written with. -/
def digitChars (value : Fin 16) : List Char :=
  [value.val.digitChar, value.val.digitChar.toUpper]

theorem Digit.char_mem (digit : Digit) : digit.char ∈ digitChars digit.value := by
  simpa [digitChars] using digit.spelled.2

namespace Indexed

/-- The ways to write the register that is added, digits in either case. -/
def renderAddend (parts : Indexed) : List (List Char) :=
  match parts.addend with
  | none => [[]]
  | some value => (digitChars value).map fun digit => ['+', 'B', digit]

/-- How the offset is written. -/
def renderOffset (parts : Indexed) : List Char :=
  match parts.offset with
  | none => []
  | some body => '+' :: body.toList

/-- The texts that consist of these parts. They are the same up to the case of the digits. -/
def renderings (parts : Indexed) : List String :=
  (digitChars parts.index).flatMap fun digit =>
    parts.renderAddend.map fun addend =>
      String.ofList ('[' :: 'I' :: digit :: (addend ++ parts.renderOffset ++ [']']))

end Indexed

/-- The text of an indexed argument is a rendering of its parts. -/
theorem IndexedSpelling.text_mem_renderings (spelling : IndexedSpelling) :
    spelling.text ∈ spelling.parts.renderings := by
  obtain ⟨index, addition⟩ := spelling
  have split : ∃ addend ∈ (parts ⟨index, addition⟩).renderAddend,
      addend ++ (parts ⟨index, addition⟩).renderOffset = addition.text := by
    cases addition with
    | nothing => exact ⟨[], List.mem_singleton_self [], rfl⟩
    | register digit =>
        exact ⟨['+', 'B', digit.char], List.mem_map_of_mem digit.char_mem, rfl⟩
    | registerOffset digit body nonempty =>
        refine ⟨['+', 'B', digit.char], List.mem_map_of_mem digit.char_mem, ?_⟩
        simp [Indexed.renderOffset, parts, Addition.offset?, Addition.text]
    | offset body nonempty alone =>
        refine ⟨[], List.mem_singleton_self [], ?_⟩
        simp [Indexed.renderOffset, parts, Addition.offset?, Addition.text]
  obtain ⟨addend, written, joined⟩ := split
  refine List.mem_flatMap.mpr ⟨index.char, index.char_mem, ?_⟩
  exact List.mem_map.mpr ⟨addend, written, by rw [joined, text]⟩

/-- Indexed arguments are read uniquely. A text is read as one if and only if it is written in one
of the ways to write an indexed argument, and the parts are those that are written; each text is
written in at most one way; what is read gives the argument back up to the case of the digits; and
no argument suits both an index with an offset and a sum of registers, while whatever suits an
index alone also suits an index with an offset. -/
theorem indexed_arguments_read_uniquely :
    (∀ (argument : String) (parts : Indexed), indexed? argument = some parts ↔
        ∃ spelling : IndexedSpelling, spelling.text = argument ∧ spelling.parts = parts) ∧
      Function.Injective IndexedSpelling.text ∧
      (∀ (argument : String) (parts : Indexed), indexed? argument = some parts →
        argument ∈ parts.renderings) ∧
      ∀ argument : String,
        ¬(OperandKind.indexedOffset.accepts argument = true ∧
          OperandKind.indexedSum.accepts argument = true) ∧
        (OperandKind.indexed.accepts argument = true →
          OperandKind.indexedOffset.accepts argument = true) := by
  refine ⟨fun argument parts => indexed?_eq_some_iff_spelled, IndexedSpelling.text_injective,
    ?_, ?_⟩
  · intro argument parts read
    obtain ⟨spelling, rfl, rfl⟩ := indexed?_eq_some_iff_spelled.mp read
    exact spelling.text_mem_renderings
  · intro argument
    obtain ⟨shape, fits⟩ := Shape.exists_fits argument
    have apart : ∀ shape ∈ Shape.all,
        ¬(.indexedOffset ∈ shape.kinds ∧ .indexedSum ∈ shape.kinds) ∧
          (.indexed ∈ shape.kinds → .indexedOffset ∈ shape.kinds) := by decide
    rw [fits, fits, fits]
    exact apart shape (Shape.mem_all shape)

/-- An offset may go on after something that looks like a register, and a bracket does not end it;
a register may be followed by an offset that looks like another one. -/
theorem indexed_arguments_read_with_doubtful_offsets :
    indexed? "[If+BA1+]]" = some ⟨15, none, some "BA1+]"⟩ ∧
      indexed? "[I1+Ba+B2]" = some ⟨1, some 10, some "B2"⟩ ∧
      "[I1+Ba+B2]" ∈ Indexed.renderings ⟨1, some 10, some "B2"⟩ ∧
      OperandKind.indexed.accepts "[IC]" = true ∧
      OperandKind.indexedOffset.accepts "[IC]" = true := by
  obtain ⟨reads, -, renders, suits⟩ := indexed_arguments_read_uniquely
  have sum : indexed? "[I1+Ba+B2]" = some ⟨1, some 10, some "B2"⟩ :=
    (reads _ _).mpr ⟨⟨⟨'1', 1, by decide⟩,
      .registerOffset ⟨'a', 10, by decide⟩ "B2".toList (by decide)⟩, by decide, by decide⟩
  have offset : indexed? "[If+BA1+]]" = some ⟨15, none, some "BA1+]"⟩ :=
    (reads _ _).mpr ⟨⟨⟨'f', 15, by decide⟩,
      .offset "BA1+]".toList (by decide) (addend?_eq_none_iff.mp (by decide))⟩,
      by decide, by decide⟩
  have index : OperandKind.indexed.accepts "[IC]" = true := by decide
  exact ⟨offset, sum, renders _ _ sum, index, (suits "[IC]").2 index⟩

end Argument

end ChipAsm
