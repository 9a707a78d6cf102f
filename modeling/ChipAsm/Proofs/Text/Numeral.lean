/-
# The grammar of numerals

A numeral is an unsigned numeral of at most 63 bits, alone or after one sign. An unsigned numeral
is a mark and hexadecimal digits, a zero and octal digits, a lone zero, or decimal digits that
begin with no zero. The grammar is stated by relations on texts, apart from the reader; the digits
are those that numbers are written with, in either case.

The reader accepts exactly the numerals, so every spelling of a number in one of the three bases
is read back, and a name is no numeral. Nothing is said about numbers of more than 63 bits but
that they are not read.
-/

import ChipAsm.Proofs.Text.Name
import Mathlib.Data.List.Forall2
import Mathlib.Data.Nat.Digits.Defs

namespace ChipAsm.Text

/-! ## Digits -/

/-- The character is the digit for this value below `size`, in either case. -/
def IsDigit (size : Nat) (c : Char) (value : Nat) : Prop :=
  value < size ∧ (c = value.digitChar ∨ c = value.digitChar.toUpper)

instance (size : Nat) (c : Char) (value : Nat) : Decidable (IsDigit size c value) :=
  inferInstanceAs (Decidable (_ ∧ _))

theorem bounds_of_digitValue? {c : Char} {value : Nat} (read : digitValue? c = some value) :
    c.toNat < 128 ∧ value < 16 := by
  unfold digitValue? at read
  split at read
  · next range =>
      obtain ⟨low, high⟩ : 48 ≤ c.toNat ∧ c.toNat ≤ 57 := range
      have known : c.toNat - 48 = value := Option.some.inj read
      omega
  · split at read
    · next range =>
        obtain ⟨low, high⟩ : 97 ≤ c.toNat ∧ c.toNat ≤ 102 := range
        have known : c.toNat - 97 + 10 = value := Option.some.inj read
        omega
    · split at read
      · next range =>
          obtain ⟨low, high⟩ : 65 ≤ c.toNat ∧ c.toNat ≤ 70 := range
          have known : c.toNat - 65 + 10 = value := Option.some.inj read
          omega
      · cases read

/-- The value of a character is that of the digit it is. -/
theorem digitValue?_eq_some_iff {c : Char} {value : Nat} :
    digitValue? c = some value ↔ IsDigit 16 c value := by
  constructor
  · intro read
    have table : ∀ code < 128, ∀ value < 16, digitValue? (Char.ofNat code) = some value →
        IsDigit 16 (Char.ofNat code) value := by decide +kernel
    obtain ⟨ascii, small⟩ := bounds_of_digitValue? read
    have entry := table c.toNat ascii value small
    rw [Char.ofNat_toNat] at entry
    exact entry read
  · rintro ⟨small, spelled⟩
    have lower : ∀ value < 16, digitValue? value.digitChar = some value := by decide
    have upper : ∀ value < 16, digitValue? value.digitChar.toUpper = some value := by decide
    rcases spelled with rfl | rfl
    · exact lower value small
    · exact upper value small

/-- The hexadecimal digits are those of base sixteen. -/
theorem hexDigit?_eq_some_iff {c : Char} {value : Fin 16} :
    hexDigit? c = some value ↔ IsDigit 16 c value := by
  rw [hexDigit?, Option.map_eq_some_iff]
  constructor
  · rintro ⟨number, read, rfl⟩
    have digit := digitValue?_eq_some_iff.mp read
    have same : (Fin.ofNat 16 number).val = number := Nat.mod_eq_of_lt digit.1
    rwa [same]
  · intro digit
    exact ⟨value, digitValue?_eq_some_iff.mpr digit, Fin.ofNat_val_eq_self value⟩

theorem Base.digit?_eq_some_iff {base : Base} {c : Char} {value : Nat} :
    base.digit? c = some value ↔ IsDigit base.size c value := by
  have within : base.size ≤ 16 := by cases base <;> decide
  rw [digit?, Option.filter_eq_some_iff, digitValue?_eq_some_iff, decide_eq_true_eq]
  constructor
  · rintro ⟨⟨-, spelled⟩, small⟩
    exact ⟨small, spelled⟩
  · rintro ⟨small, spelled⟩
    exact ⟨⟨by omega, spelled⟩, small⟩

/-- Decimal digits are digits. -/
theorem IsDigit.isDigit {c : Char} {value : Nat} (digit : IsDigit 10 c value) :
    c.isDigit = true := by
  have table : ∀ value < 10, value.digitChar.isDigit = true ∧
      value.digitChar.toUpper.isDigit = true := by decide
  obtain ⟨small, spelled⟩ := digit
  rcases spelled with rfl | rfl
  · exact (table value small).1
  · exact (table value small).2

/-- The characters are digits, the most significant first, that spell the number. -/
def Spells (size : Nat) (text : List Char) (number : Nat) : Prop :=
  text ≠ [] ∧ ∃ values, List.Forall₂ (IsDigit size) text values ∧
    Nat.ofDigits size values.reverse = number

theorem mapM_digit?_eq_some_iff {base : Base} {text : List Char} {values : List Nat} :
    text.mapM base.digit? = some values ↔ List.Forall₂ (IsDigit base.size) text values := by
  induction text generalizing values with
  | nil => simp [eq_comm]
  | cons c rest ih =>
      simp only [List.mapM_cons, List.forall₂_cons_left_iff, ← ih, ← Base.digit?_eq_some_iff]
      simp only [Option.bind_eq_bind, Option.bind_eq_some_iff, Option.pure_def, Option.some_inj,
        exists_and_left, @eq_comm _ _ values]

theorem ofDigits_eq (base : Base) (values : List Nat) :
    ofDigits base values = Nat.ofDigits base.size values.reverse := by
  rw [ofDigits, Nat.ofDigits_eq_foldr, List.foldr_reverse]
  simp only [Nat.cast_id, Nat.mul_comm, Nat.add_comm]

theorem magnitude?_eq_some_iff {base : Base} {digits : List Char} {magnitude : Nat} :
    magnitude? base digits = some magnitude ↔
      Spells base.size digits magnitude ∧ magnitude ≤ 2 ^ 63 - 1 := by
  have bound : maxMagnitude = 2 ^ 63 - 1 := rfl
  unfold magnitude? Spells
  by_cases empty : digits = []
  · simp [empty]
  · simp [empty, mapM_digit?_eq_some_iff, ofDigits_eq, Option.filter_eq_some_iff, bound]

/-- The opposite of a number of 63 bits is a number of 64 bits with a sign. -/
theorem toInt_neg_ofNat {magnitude : Nat} (bounded : magnitude ≤ 2 ^ 63 - 1) :
    (-Int64.ofNat magnitude).toInt = -(magnitude : Int) := by
  rw [Int64.toInt_neg, Int64.toInt_ofNat_of_lt (by omega)]
  apply Int.bmod_eq_of_le <;> omega

/-! ## The grammar -/

/-- The text is an unsigned numeral of this magnitude. -/
inductive Unsigned : List Char → Nat → Prop
  | hexadecimal {mark : Char} {digits : List Char} {magnitude : Nat}
      (marked : mark = 'x' ∨ mark = 'X') (spelled : Spells 16 digits magnitude) :
      Unsigned ('0' :: mark :: digits) magnitude
  | octal {digits : List Char} {magnitude : Nat} (spelled : Spells 8 digits magnitude) :
      Unsigned ('0' :: digits) magnitude
  | zero : Unsigned ['0'] 0
  | decimal {digits : List Char} {magnitude : Nat} (lead : digits.head? ≠ some '0')
      (spelled : Spells 10 digits magnitude) : Unsigned digits magnitude

/-- The text is a numeral of this value. -/
inductive Numeral : List Char → Int → Prop
  | bare {text : List Char} {magnitude : Nat} (unsigned : Unsigned text magnitude)
      (bounded : magnitude ≤ 2 ^ 63 - 1) : Numeral text magnitude
  | plus {text : List Char} {magnitude : Nat} (unsigned : Unsigned text magnitude)
      (bounded : magnitude ≤ 2 ^ 63 - 1) : Numeral ('+' :: text) magnitude
  | minus {text : List Char} {magnitude : Nat} (unsigned : Unsigned text magnitude)
      (bounded : magnitude ≤ 2 ^ 63 - 1) : Numeral ('-' :: text) (-magnitude)

/-- A text of digits begins with a digit. -/
theorem Spells.exists_isDigit {size : Nat} {c : Char} {rest : List Char} {number : Nat}
    (spelled : Spells size (c :: rest) number) : ∃ value, IsDigit size c value := by
  obtain ⟨-, values, digits, -⟩ := spelled
  cases digits with
  | cons first _ => exact ⟨_, first⟩

/-- The mark of hexadecimal digits is no octal digit. -/
theorem not_spells_of_mark {mark : Char} (marked : mark = 'x' ∨ mark = 'X') {digits : List Char}
    {magnitude : Nat} : ¬Spells 8 (mark :: digits) magnitude := by
  intro spelled
  obtain ⟨value, digit⟩ := spelled.exists_isDigit
  have none : ∀ value < 8, ¬IsDigit 8 'x' value ∧ ¬IsDigit 8 'X' value := by decide
  rcases marked with rfl | rfl
  · exact (none value digit.1).1 digit
  · exact (none value digit.1).2 digit

theorem spells_zero_iff {magnitude : Nat} : Spells 10 ['0'] magnitude ↔ magnitude = 0 := by
  constructor
  · rintro ⟨-, values, digits, rfl⟩
    cases digits with
    | @cons _ value _ _ first none =>
        cases none
        have only : ∀ value < 10, IsDigit 10 '0' value → value = 0 := by decide
        rw [only value first.1 first]
        rfl
  · rintro rfl
    exact ⟨by simp, [0], .cons ⟨by decide, .inl rfl⟩ .nil, rfl⟩

/-- A marked text is a numeral by its digits after the mark and in no other way. -/
theorem unsigned_marked_iff {mark : Char} (marked : mark = 'x' ∨ mark = 'X') {digits : List Char}
    {magnitude : Nat} :
    Unsigned ('0' :: mark :: digits) magnitude ↔ Spells 16 digits magnitude := by
  constructor
  · intro unsigned
    cases unsigned with
    | hexadecimal _ spelled => exact spelled
    | octal spelled => exact absurd spelled (not_spells_of_mark marked)
    | decimal lead _ => exact absurd rfl lead
  · exact .hexadecimal marked

/-- The digits that remain when the base is known spell the magnitude. -/
theorem spells_splitBase_iff {text : List Char} {magnitude : Nat} :
    Spells (splitBase text).1.size (splitBase text).2 magnitude ↔ Unsigned text magnitude := by
  unfold splitBase
  split
  · exact (unsigned_marked_iff (.inl rfl)).symm
  · exact (unsigned_marked_iff (.inr rfl)).symm
  · next digit digits noLower noUpper =>
      constructor
      · exact .octal
      · intro unsigned
        cases unsigned with
        | hexadecimal marked _ => exact absurd marked (by simp_all)
        | octal spelled => exact spelled
        | decimal lead _ => exact absurd rfl lead
  · next noLower noUpper single =>
      -- A zero at the beginning stands alone, or the text would have another base.
      constructor
      · intro spelled
        by_cases lead : text.head? = some '0'
        · obtain ⟨rest, rfl⟩ := List.head?_eq_some_iff.mp lead
          cases rest with
          | nil =>
              rw [spells_zero_iff.mp spelled]
              exact .zero
          | cons digit digits => exact absurd rfl (single digit digits)
        · exact .decimal lead spelled
      · intro unsigned
        cases unsigned with
        | hexadecimal _ _ => exact absurd rfl (single _ _)
        | octal spelled =>
            obtain ⟨digit, rest, rfl⟩ := List.exists_cons_of_ne_nil spelled.1
            exact absurd rfl (single digit rest)
        | zero => exact spells_zero_iff.mpr rfl
        | decimal _ spelled => exact spelled

/-- An unsigned numeral begins with a digit. -/
theorem Unsigned.isDigit {c : Char} {rest : List Char} {magnitude : Nat}
    (unsigned : Unsigned (c :: rest) magnitude) : c.isDigit = true := by
  cases unsigned with
  | hexadecimal _ _ => rfl
  | octal _ => rfl
  | zero => rfl
  | decimal _ spelled =>
      obtain ⟨value, digit⟩ := spelled.exists_isDigit
      exact digit.isDigit

theorem numeralValue?_eq_some_iff {text : List Char} {value : Int} :
    numeralValue? text = some value ↔ Numeral text value := by
  have signed : numeralValue? text = some value ↔
      ∃ magnitude : Nat, (Unsigned (splitSign text).2 magnitude ∧ magnitude ≤ 2 ^ 63 - 1) ∧
        (if (splitSign text).1 then -(magnitude : Int) else magnitude) = value := by
    simp only [numeralValue?, Option.map_eq_some_iff, Option.bind_eq_bind, Option.pure_def,
      Option.bind_eq_some_iff, Option.some_inj, magnitude?_eq_some_iff, spells_splitBase_iff,
      exists_exists_and_eq_and]
  rw [signed]
  unfold splitSign
  -- A sign is no digit, so a numeral with a sign is not a bare one.
  split
  · next rest =>
      constructor
      · rintro ⟨magnitude, ⟨unsigned, bounded⟩, rfl⟩
        exact .minus unsigned bounded
      · intro numeral
        cases numeral with
        | bare unsigned _ => exact absurd unsigned.isDigit (by decide)
        | minus unsigned bounded => exact ⟨_, ⟨unsigned, bounded⟩, rfl⟩
  · next rest =>
      constructor
      · rintro ⟨magnitude, ⟨unsigned, bounded⟩, rfl⟩
        exact .plus unsigned bounded
      · intro numeral
        cases numeral with
        | bare unsigned _ => exact absurd unsigned.isDigit (by decide)
        | plus unsigned bounded => exact ⟨_, ⟨unsigned, bounded⟩, rfl⟩
  · next noMinus noPlus =>
      constructor
      · rintro ⟨magnitude, ⟨unsigned, bounded⟩, rfl⟩
        exact .bare unsigned bounded
      · intro numeral
        cases numeral with
        | bare unsigned bounded => exact ⟨_, ⟨unsigned, bounded⟩, rfl⟩
        | plus _ _ => exact absurd rfl (noPlus _)
        | minus _ _ => exact absurd rfl (noMinus _)

/-- The reader accepts exactly the numerals. -/
theorem number?_eq_some_iff {text : String} {value : Int} :
    number? text = some value ↔ Numeral text.toList value :=
  numeralValue?_eq_some_iff

/-- What begins with neither a digit nor a sign is no numeral. -/
theorem number?_eq_none {text : String} {c : Char} (first : text.toList.head? = some c)
    (noDigit : c.isDigit = false) (noSign : c ≠ '-' ∧ c ≠ '+') : number? text = none := by
  obtain ⟨rest, spelled⟩ := List.head?_eq_some_iff.mp first
  rw [Option.eq_none_iff_forall_ne_some]
  intro value read
  have numeral := number?_eq_some_iff.mp read
  rw [spelled] at numeral
  cases numeral with
  | bare unsigned _ => exact absurd (unsigned.isDigit.symm.trans noDigit) (by decide)
  | plus _ _ => exact noSign.2 rfl
  | minus _ _ => exact noSign.1 rfl

/-- A name is no numeral. -/
theorem number?_eq_none_of_isName {text : String} (name : isName text = true) :
    number? text = none := by
  obtain ⟨nonempty, first, whole⟩ := isName_iff.mp name
  rw [Ne, ← String.toList_eq_nil_iff] at nonempty
  obtain ⟨c, rest, spelled⟩ := List.exists_cons_of_ne_nil nonempty
  rw [spelled] at first whole
  have letter : isNameChar c = true := whole c List.mem_cons_self
  refine number?_eq_none (congrArg List.head? spelled) (first c rfl) ⟨?_, ?_⟩
  · rintro rfl
    exact absurd letter (by decide)
  · rintro rfl
    exact absurd letter (by decide)

/-! ## Spellings of a number -/

theorem Spells.single {size value : Nat} {c : Char} (digit : IsDigit size c value) :
    Spells size [c] value :=
  ⟨by simp, [value], .cons digit .nil, by simp⟩

theorem Spells.concat {size number value : Nat} {text : List Char} {c : Char}
    (spelled : Spells size text number) (digit : IsDigit size c value) :
    Spells size (text ++ [c]) (size * number + value) := by
  obtain ⟨-, values, digits, rfl⟩ := spelled
  refine ⟨by simp, values ++ [value], List.rel_append digits (.cons digit .nil), ?_⟩
  rw [List.reverse_concat, Nat.ofDigits_cons, Nat.add_comm]

/-- A number is spelled by its digits, as they are or in capitals. -/
theorem spells_toDigits {size : Nat} (two : 1 < size) (write : Char → Char)
    (either : ∀ c, write c = c ∨ write c = c.toUpper) (number : Nat) :
    Spells size ((Nat.toDigits size number).map write) number := by
  have digit (value : Nat) (small : value < size) : IsDigit size (write value.digitChar) value :=
    ⟨small, either value.digitChar⟩
  induction number using Nat.strongRecOn with
  | ind number ih =>
      by_cases small : number < size
      · rw [Nat.toDigits_of_lt_base small]
        exact .single (digit number small)
      · have large := Nat.not_lt.mp small
        have earlier := ih (number / size) (Nat.div_lt_self (by omega) two)
        have spelled := earlier.concat (digit (number % size) (Nat.mod_lt _ (by omega)))
        rwa [Nat.div_add_mod, ← List.map_singleton, ← List.map_append,
          ← Nat.toDigits_of_base_le two large] at spelled

/-- The spelling of a positive number does not begin with a zero. -/
theorem head?_toDigits_ne_zero {n : Nat} (positive : 0 < n) :
    (Nat.toDigits 10 n).head? ≠ some '0' := by
  induction n using Nat.strongRecOn with
  | ind n ih =>
      by_cases small : n < 10
      · rw [Nat.toDigits_of_lt_base small, List.head?_cons, ne_eq, Option.some_inj,
          Nat.digitChar_eq_zero]
        exact Nat.ne_of_gt positive
      · rw [Nat.toDigits_of_base_le (by decide) (Nat.not_lt.mp small), List.head?_append]
        have earlier := ih (n / 10) (by omega) (by omega)
        cases lead : (Nat.toDigits 10 (n / 10)).head? with
        | none => exact absurd (List.head?_eq_none_iff.mp lead) Nat.toDigits_ne_nil
        | some first => rwa [lead] at earlier

/-- The ways to spell a magnitude: in decimal digits, in hexadecimal digits of either case behind
either mark, and in octal digits behind a zero. -/
def spellings (magnitude : Nat) : List (List Char) :=
  let digits := Nat.toDigits 16 magnitude
  [Nat.toDigits 10 magnitude,
    '0' :: 'x' :: digits, '0' :: 'x' :: digits.map Char.toUpper,
    '0' :: 'X' :: digits, '0' :: 'X' :: digits.map Char.toUpper,
    '0' :: Nat.toDigits 8 magnitude]

/-- The signs that a number can be written with. -/
def signs (value : Int) : List (List Char) :=
  if value < 0 then [['-']] else [[], ['+']]

/-- The texts that spell a number. -/
def renderings (value : Int) : List String :=
  (signs value).flatMap fun sign =>
    (spellings value.natAbs).map fun body => String.ofList (sign ++ body)

theorem unsigned_of_mem_spellings {magnitude : Nat} {body : List Char}
    (member : body ∈ spellings magnitude) : Unsigned body magnitude := by
  have lower {size : Nat} (two : 1 < size) :
      Spells size (Nat.toDigits size magnitude) magnitude := by
    simpa using spells_toDigits two id (fun _ => .inl rfl) magnitude
  have upper : Spells 16 ((Nat.toDigits 16 magnitude).map Char.toUpper) magnitude :=
    spells_toDigits (by decide) Char.toUpper (fun _ => .inr rfl) magnitude
  simp only [spellings, List.mem_cons, List.not_mem_nil, or_false] at member
  rcases member with rfl | rfl | rfl | rfl | rfl | rfl
  · cases magnitude with
    | zero => exact .zero
    | succ n => exact .decimal (head?_toDigits_ne_zero n.succ_pos) (lower (by decide))
  · exact .hexadecimal (.inl rfl) (lower (by decide))
  · exact .hexadecimal (.inl rfl) upper
  · exact .hexadecimal (.inr rfl) (lower (by decide))
  · exact .hexadecimal (.inr rfl) upper
  · exact .octal (lower (by decide))

/-- Every spelling of a number of 63 bits is a numeral of its value. -/
theorem numeral_of_mem_renderings {value : Int} (bounded : value.natAbs ≤ 2 ^ 63 - 1)
    {text : String} (member : text ∈ renderings value) : Numeral text.toList value := by
  obtain ⟨sign, signed, body, spelled, rfl⟩ : ∃ sign ∈ signs value,
      ∃ body ∈ spellings value.natAbs, String.ofList (sign ++ body) = text := by
    simpa only [renderings, List.mem_flatMap, List.mem_map] using member
  have unsigned := unsigned_of_mem_spellings spelled
  rw [String.toList_ofList]
  unfold signs at signed
  split at signed
  · next negative =>
      have opposite : value = -(value.natAbs : Int) := by omega
      rw [List.mem_singleton.mp signed, opposite]
      exact .minus unsigned bounded
  · next natural =>
      have same : value = (value.natAbs : Int) := by omega
      rw [same]
      simp only [List.mem_cons, List.not_mem_nil, or_false] at signed
      rcases signed with rfl | rfl
      · exact .bare unsigned bounded
      · exact .plus unsigned bounded

/-- The spelling of a number has decimal digits only. -/
theorem isDigit_of_mem_toDigits {n : Nat} {c : Char} (member : c ∈ Nat.toDigits 10 n) :
    c.isDigit = true :=
  Nat.isDigit_of_mem_toDigits (by decide) (by decide) member

/-- A number is read back from its spelling. -/
theorem number?_toString {n : Nat} (bounded : n ≤ maxMagnitude) :
    number? (toString n) = some (n : Int) := by
  have spelled : (toString n).toList = Nat.toDigits 10 n := Nat.toList_repr
  rw [number?_eq_some_iff, spelled]
  exact .bare (unsigned_of_mem_spellings (by simp [spellings])) bounded

theorem natural?_toString {n : Nat} (bounded : n ≤ maxMagnitude) :
    natural? (toString n) = some n := by
  rw [natural?, number?_toString bounded]
  rfl

/-- Numerals are read exactly. A text is read as a number if and only if it is a numeral of that
value; what is read fits in 64 bits with a sign, and so does its opposite; each spelling of a
number of 63 bits is read back; and no text is both a numeral and a name. -/
theorem numerals_read_exactly :
    (∀ (text : String) (value : Int), number? text = some value ↔ Numeral text.toList value) ∧
      (∀ (base : Base) (digits : List Char) (magnitude : Nat),
        magnitude? base digits = some magnitude →
          (-Int64.ofNat magnitude).toInt = -(magnitude : Int)) ∧
      (∀ value : Int, value.natAbs ≤ 2 ^ 63 - 1 →
        ∀ text ∈ renderings value, number? text = some value) ∧
      ∀ text : String, ¬(isNumber text = true ∧ isName text = true) := by
  refine ⟨fun text value => number?_eq_some_iff, ?_, ?_, ?_⟩
  · intro base digits magnitude read
    exact toInt_neg_ofNat (magnitude?_eq_some_iff.mp read).2
  · intro value bounded text member
    exact number?_eq_some_iff.mpr (numeral_of_mem_renderings bounded member)
  · rintro text ⟨number, name⟩
    rw [isNumber, number?_eq_none_of_isName name] at number
    cases number

/-- The least number is read from its hexadecimal digits in capitals and the greatest from its
octal digits, whose opposite does not overflow. -/
theorem numerals_read_at_the_bounds :
    number? "-0x7FFFFFFFFFFFFFFF" = some (-9223372036854775807) ∧
      number? "+0777777777777777777777" = some 9223372036854775807 ∧
      (-Int64.ofNat 9223372036854775807).toInt = -9223372036854775807 := by
  obtain ⟨-, opposite, spelled, -⟩ := numerals_read_exactly
  refine ⟨spelled _ (by decide) _ (by decide +kernel), spelled _ (by decide) _ (by decide +kernel),
    ?_⟩
  exact opposite .decimal "9223372036854775807".toList 9223372036854775807 (by decide +kernel)

end ChipAsm.Text
