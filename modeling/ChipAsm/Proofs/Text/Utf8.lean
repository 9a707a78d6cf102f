/-
# Bytes of texts

A text is shown as itself by its bytes. Other bytes are shown by a text that has bytes of
its own; these are the given ones with the broken characters mended. Mending keeps each ASCII
byte where it stands, since no ASCII byte belongs to a longer character or to a broken one.
So bytes can be mended piece by piece between ASCII bytes.
-/

import ChipAsm.Text.Utf8
import Mathlib.Data.List.Basic

namespace ChipAsm.Text

/-! ## Characters at the beginning -/

/-- A byte with its top bit set. -/
theorem le_ofNat_add {low high : Nat} (large : 128 ≤ high) (small : low + high < 256) :
    0x80 ≤ UInt8.ofNat (low + high) := by
  rw [UInt8.le_iff_toNat_le, UInt8.toNat_ofNat_of_lt' small]
  exact Nat.le_trans large (Nat.le_add_left high low)

/-- No byte of a longer character is ASCII. -/
theorem le_of_mem_utf8EncodeChar {c : Char} (wide : 127 < c.val.toNat) {byte : UInt8}
    (member : byte ∈ String.utf8EncodeChar c) : 0x80 ≤ byte := by
  simp only [String.utf8EncodeChar, if_neg (Nat.not_le.mpr wide)] at member
  split at member
  · simp only [List.mem_cons, List.not_mem_nil, or_false] at member
    rcases member with rfl | rfl <;> exact le_ofNat_add (by omega) (by omega)
  · split at member
    · simp only [List.mem_cons, List.not_mem_nil, or_false] at member
      rcases member with rfl | rfl | rfl <;> exact le_ofNat_add (by omega) (by omega)
    · simp only [List.mem_cons, List.not_mem_nil, or_false] at member
      rcases member with rfl | rfl | rfl | rfl <;> exact le_ofNat_add (by omega) (by omega)

/-- A character with an ASCII byte has no other byte. -/
theorem utf8EncodeChar_eq_of_mem {c : Char} {byte : UInt8}
    (member : byte ∈ String.utf8EncodeChar c) (ascii : byte < 0x80) :
    String.utf8EncodeChar c = [byte] := by
  by_cases wide : 127 < c.val.toNat
  · exact absurd (le_of_mem_utf8EncodeChar wide member) (UInt8.not_le.mpr ascii)
  · have narrow : c.val ≤ 127 := UInt32.le_iff_toNat_le.mpr (Nat.not_lt.mp wide)
    rw [String.utf8EncodeChar_eq_singleton (Char.utf8Size_eq_one_iff.mpr narrow)] at member ⊢
    rw [List.mem_singleton.mp member]

/-- A character stands at the beginning if its bytes do. -/
theorem beginning?_eq_some_iff {bytes : List UInt8} {c : Char} :
    beginning? bytes = some c ↔ String.utf8EncodeChar c <+: bytes := by
  constructor
  · intro decoded
    have split := ByteArray.eq_of_utf8DecodeChar?_eq_some decoded
    have leads : String.utf8EncodeChar c <+: bytes.take 4 := by
      have lists := congrArg (fun array => array.data.toList) split
      simp only [List.data_toByteArray, ByteArray.data_append, Array.toList_append] at lists
      exact ⟨_, lists.symm⟩
    exact leads.trans (List.take_prefix 4 bytes)
  · rintro ⟨rest, rfl⟩
    have short : (String.utf8EncodeChar c).length ≤ 4 := by
      rw [String.length_utf8EncodeChar]
      exact c.utf8Size_le_four
    rw [beginning?, List.take_append, List.take_of_length_le short, List.toByteArray_append]
    exact ByteArray.utf8DecodeChar?_utf8EncodeChar_append

/-- What is shown for bytes that begin with a character is the character. -/
theorem firstChar_utf8EncodeChar_append (c : Char) (rest : List UInt8) :
    firstChar (String.utf8EncodeChar c ++ rest) = (c, c.utf8Size) := by
  rw [firstChar, beginning?_eq_some_iff.mpr (List.prefix_append _ rest)]

/-- Bytes that belong to a character read before are passed over. -/
theorem charsFrom_length_append (taken rest : List UInt8) :
    charsFrom taken.length (taken ++ rest) = charsFrom 0 rest := by
  induction taken with
  | nil => rfl
  | cons byte taken ih => exact ih

theorem charsFrom_utf8EncodeChar_append (c : Char) (rest : List UInt8) :
    charsFrom 0 (String.utf8EncodeChar c ++ rest) = c :: charsFrom 0 rest := by
  have size := String.length_utf8EncodeChar c
  have first := firstChar_utf8EncodeChar_append c rest
  cases bytes : String.utf8EncodeChar c with
  | nil =>
      rw [bytes] at size
      exact absurd size (Nat.ne_of_lt c.utf8Size_pos)
  | cons byte others =>
      rw [bytes] at size first
      have left : c.utf8Size - 1 = others.length := by
        rw [← size, List.length_cons, Nat.add_sub_cancel]
      rw [List.cons_append] at first ⊢
      simp only [charsFrom, first, left, charsFrom_length_append]

/-- A text is shown as itself by its bytes. -/
@[simp] theorem lossy_utf8 (text : String) : lossy (utf8 text) = text := by
  have chars (list : List Char) :
      charsFrom 0 (list.flatMap String.utf8EncodeChar) = list := by
    induction list with
    | nil => rfl
    | cons c list ih => rw [List.flatMap_cons, charsFrom_utf8EncodeChar_append, ih]
  rw [lossy, utf8, chars, String.ofList_toList]

/-- Bytes that begin a character are broken off together. -/
example : lossy [0x64, 0xFF, 0x2F, 0xE2, 0x82, 0x78] = "d\uFFFD/\uFFFDx" := by decide +kernel

/-! ## Bytes around an ASCII byte -/

/-- The second byte of a character is not ASCII. -/
theorem le_low_of_sequel? {first : UInt8} {sequel : Sequel} (found : sequel? first = some sequel) :
    0x80 ≤ sequel.low := by
  unfold sequel? at found
  split_ifs at found <;> cases found <;> decide

/-- A character that stands at the beginning stands before an ASCII byte that is not its
first one. -/
theorem prefix_append_ascii_iff {c : Char} {first byte : UInt8} (ascii : byte < 0x80)
    (front rest : List UInt8) :
    String.utf8EncodeChar c <+: first :: (front ++ byte :: rest) ↔
      String.utf8EncodeChar c <+: first :: front := by
  constructor
  · intro leads
    by_cases short : (String.utf8EncodeChar c).length ≤ (first :: front).length
    · exact List.prefix_of_prefix_length_le leads (List.prefix_append (first :: front) _) short
    · have covers : first :: (front ++ [byte]) <+: String.utf8EncodeChar c := by
        apply List.prefix_of_prefix_length_le _ leads
        · simpa using Nat.succ_le_of_lt (Nat.not_le.mp short)
        · simp
      have member : byte ∈ String.utf8EncodeChar c := covers.subset (by simp)
      rw [utf8EncodeChar_eq_of_mem member ascii] at short
      simp at short
  · intro leads
    exact leads.trans (List.prefix_append (first :: front) _)

theorem beginning?_append_ascii {first byte : UInt8} (ascii : byte < 0x80)
    (front rest : List UInt8) :
    beginning? (first :: (front ++ byte :: rest)) = beginning? (first :: front) := by
  apply Option.ext
  intro c
  rw [beginning?_eq_some_iff, beginning?_eq_some_iff, prefix_append_ascii_iff ascii]

/-- The bytes that go on with a character end before an ASCII byte. -/
theorem takeWhile_isContinuation_append_ascii {byte : UInt8} (ascii : byte < 0x80)
    (front rest : List UInt8) (count : Nat) :
    ((front ++ byte :: rest).take count).takeWhile isContinuation =
      (front.take count).takeWhile isContinuation := by
  have ends (count : Nat) : ((byte :: rest).take count).takeWhile isContinuation = [] := by
    have other : isContinuation byte = false := by
      simp [isContinuation, UInt8.not_le.mpr ascii]
    cases count with
    | zero => rfl
    | succ count => rw [List.take_succ_cons, List.takeWhile_cons, other]; rfl
  rw [List.take_append, List.takeWhile_append, ends]
  split
  · next all =>
      rw [List.append_nil]
      exact ((List.takeWhile_prefix _).eq_of_length all).symm
  · rfl

theorem brokenLength_append_ascii {first byte : UInt8} (ascii : byte < 0x80)
    (front rest : List UInt8) :
    brokenLength (first :: (front ++ byte :: rest)) = brokenLength (first :: front) := by
  cases front with
  | nil =>
      cases found : sequel? first with
      | none => simp [brokenLength, found]
      | some sequel =>
          have outside : ¬sequel.low ≤ byte := fun inside =>
            UInt8.not_lt.mpr (UInt8.le_trans (le_low_of_sequel? found) inside) ascii
          simp [brokenLength, found, outside]
  | cons next front =>
      simp only [List.cons_append, brokenLength, takeWhile_isContinuation_append_ascii ascii]

theorem brokenLength_le (first : UInt8) (rest : List UInt8) :
    brokenLength (first :: rest) ≤ rest.length + 1 := by
  cases rest with
  | nil => exact Nat.le_refl 1
  | cons next rest =>
      have shorter (count : Nat) :
          ((rest.take count).takeWhile isContinuation).length ≤ rest.length :=
        ((List.takeWhile_prefix _).trans (List.take_prefix count rest)).length_le
      simp only [brokenLength, List.length_cons]
      cases sequel? first with
      | none => exact Nat.le_add_left 1 _
      | some sequel =>
          have := shorter sequel.further
          dsimp only
          split <;> omega

/-- What is shown first takes no more bytes than there are. -/
theorem snd_firstChar_le (first : UInt8) (rest : List UInt8) :
    (firstChar (first :: rest)).2 ≤ rest.length + 1 := by
  unfold firstChar
  split
  · next c found =>
      have leads := beginning?_eq_some_iff.mp found
      rw [← String.length_utf8EncodeChar]
      exact leads.length_le
  · exact brokenLength_le first rest

/-- Bytes before an ASCII byte are shown as they are without it. -/
theorem charsFrom_append_ascii {byte : UInt8} (ascii : byte < 0x80) {front : List UInt8}
    {taken : Nat} (fits : taken ≤ front.length) (rest : List UInt8) :
    charsFrom taken (front ++ byte :: rest) =
      charsFrom taken front ++ charsFrom 0 (byte :: rest) := by
  induction front generalizing taken with
  | nil => rw [Nat.le_zero.mp fits]; rfl
  | cons first front ih =>
      cases taken with
      | succ taken => exact ih (Nat.le_of_succ_le_succ fits)
      | zero =>
          have same : firstChar (first :: (front ++ byte :: rest)) =
              firstChar (first :: front) := by
            simp only [firstChar, beginning?_append_ascii ascii, brokenLength_append_ascii ascii]
          have remaining : (firstChar (first :: front)).2 - 1 ≤ front.length :=
            Nat.sub_le_of_le_add (snd_firstChar_le first front)
          simp only [List.cons_append, charsFrom, same, ih remaining]

/-- A character of one byte that is shown first has the first byte. -/
theorem eq_of_firstChar {c : Char} {byte first : UInt8} {rest : List UInt8}
    (own : String.utf8EncodeChar c = [byte]) (shown : (firstChar (first :: rest)).1 = c) :
    first = byte := by
  unfold firstChar at shown
  split at shown
  · next found decoded =>
      have leads := beginning?_eq_some_iff.mp decoded
      obtain rfl : found = c := shown
      rw [own, List.cons_prefix_cons] at leads
      exact leads.1.symm
  · obtain rfl : replacement = c := shown
    exact nomatch (congrArg List.length own : 3 = 1)

/-- A character of one byte is shown for that byte only. -/
theorem mem_of_mem_charsFrom {c : Char} {byte : UInt8} (own : String.utf8EncodeChar c = [byte])
    (bytes : List UInt8) (taken : Nat) (shown : c ∈ charsFrom taken bytes) : byte ∈ bytes := by
  induction bytes generalizing taken with
  | nil => cases taken <;> cases shown
  | cons first rest ih =>
      cases taken with
      | succ taken => exact List.mem_cons_of_mem first (ih taken shown)
      | zero =>
          rcases List.mem_cons.mp shown with same | later
          · rw [eq_of_firstChar own same.symm]
            exact List.mem_cons_self
          · exact List.mem_cons_of_mem first (ih _ later)

theorem mem_of_mem_lossy {c : Char} {byte : UInt8} (own : String.utf8EncodeChar c = [byte])
    {bytes : List UInt8} (shown : c ∈ (lossy bytes).toList) : byte ∈ bytes := by
  rw [lossy, String.toList_ofList] at shown
  exact mem_of_mem_charsFrom own bytes 0 shown

/-! ## Mended bytes -/

/-- The bytes of the text that shows the bytes. -/
def mended (bytes : List UInt8) : List UInt8 :=
  utf8 (lossy bytes)

theorem mended_eq_flatMap (bytes : List UInt8) :
    mended bytes = (charsFrom 0 bytes).flatMap String.utf8EncodeChar := by
  rw [mended, utf8, lossy, String.toList_ofList]

theorem mended_cons_ascii {byte : UInt8} (ascii : byte < 0x80) (rest : List UInt8) :
    mended (byte :: rest) = byte :: mended rest := by
  have table : ∀ code < 128,
      String.utf8EncodeChar (Char.ofNat code) = [UInt8.ofNat code] := by decide +kernel
  have own := table byte.toNat (UInt8.lt_iff_toNat_lt.mp ascii)
  rw [UInt8.ofNat_toNat] at own
  have shown := charsFrom_utf8EncodeChar_append (Char.ofNat byte.toNat) rest
  rw [own] at shown
  rw [mended_eq_flatMap, mended_eq_flatMap, ← List.singleton_append, shown, List.flatMap_cons, own,
    List.singleton_append]

/-- Bytes can be mended apart before and after an ASCII byte. -/
theorem mended_append_ascii {byte : UInt8} (ascii : byte < 0x80) (front rest : List UInt8) :
    mended (front ++ byte :: rest) = mended front ++ byte :: mended rest := by
  rw [← mended_cons_ascii ascii, mended_eq_flatMap, mended_eq_flatMap, mended_eq_flatMap,
    charsFrom_append_ascii ascii (Nat.zero_le _), List.flatMap_append]

theorem mem_of_mem_mended {byte : UInt8} (ascii : byte < 0x80) {bytes : List UInt8}
    (member : byte ∈ mended bytes) : byte ∈ bytes := by
  rw [mended_eq_flatMap, List.mem_flatMap] at member
  obtain ⟨c, shown, member⟩ := member
  exact mem_of_mem_charsFrom (utf8EncodeChar_eq_of_mem member ascii) bytes 0 shown

@[simp] theorem mended_eq_nil_iff {bytes : List UInt8} : mended bytes = [] ↔ bytes = [] := by
  cases bytes with
  | nil => exact Iff.rfl
  | cons first rest => simp [mended_eq_flatMap, charsFrom]

/-- Mended bytes begin with an ASCII byte only if the bytes do: the first character that is shown
has that byte, so it has no other. -/
theorem eq_of_mended_cons {byte first : UInt8} (ascii : byte < 0x80) {rest tail : List UInt8}
    (opens : mended (first :: rest) = byte :: tail) : first = byte := by
  simp only [mended_eq_flatMap, charsFrom, List.flatMap_cons] at opens
  generalize shown : (firstChar (first :: rest)).1 = c at opens
  cases spelled : String.utf8EncodeChar c with
  | nil => exact absurd spelled String.utf8EncodeChar_ne_nil
  | cons lead others =>
      rw [spelled] at opens
      obtain rfl : lead = byte := (List.cons.inj opens).1
      have own := utf8EncodeChar_eq_of_mem (spelled ▸ List.mem_cons_self) ascii
      exact eq_of_firstChar own shown

theorem mended_eq_cons_iff {byte : UInt8} (ascii : byte < 0x80) {bytes tail : List UInt8} :
    mended bytes = byte :: tail ↔ ∃ rest, bytes = byte :: rest ∧ mended rest = tail := by
  constructor
  · intro opens
    cases bytes with
    | nil => cases opens
    | cons first rest =>
        have same := eq_of_mended_cons ascii opens
        rw [same, mended_cons_ascii ascii] at opens
        exact ⟨rest, congrArg (· :: rest) same, (List.cons.inj opens).2⟩
  · rintro ⟨rest, rfl, rfl⟩
    exact mended_cons_ascii ascii rest

theorem head?_mended_eq_iff {byte : UInt8} (ascii : byte < 0x80) {bytes : List UInt8} :
    (mended bytes).head? = some byte ↔ bytes.head? = some byte := by
  simp only [List.head?_eq_some_iff, mended_eq_cons_iff ascii]
  constructor
  · rintro ⟨_, rest, opens, -⟩
    exact ⟨rest, opens⟩
  · rintro ⟨rest, opens⟩
    exact ⟨_, rest, opens, rfl⟩

/-- What comes after an ASCII byte is mended on its own. -/
theorem tail_mended {byte : UInt8} (ascii : byte < 0x80) {bytes : List UInt8}
    (opens : bytes.head? = some byte) : (mended bytes).tail = mended bytes.tail := by
  obtain ⟨rest, rfl⟩ := List.head?_eq_some_iff.mp opens
  rw [mended_cons_ascii ascii, List.tail_cons, List.tail_cons]

end ChipAsm.Text
