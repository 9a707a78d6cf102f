/-
# Paths that are shown

A message or a marker shows a path as a text. The path of that text is the shown path if any
text spells it. Otherwise it is another path, whose pieces are the pieces of the first one,
each mended: slashes and dots are kept. So paths that name the same place are shown by texts
whose paths do.
-/

import ChipAsm.Path
import ChipAsm.Proofs.Text.Utf8

namespace ChipAsm.Path

/-- The path of the text that shows the path. -/
def reread (path : Path) : Path :=
  ofText path.shown

/-- A text spells the path. -/
def IsText (path : Path) : Prop :=
  ∃ text, ofText text = path

@[simp] theorem shown_ofText (text : String) : (ofText text).shown = text :=
  Text.lossy_utf8 text

@[simp] theorem reread_ofText (text : String) : (ofText text).reread = ofText text := by
  rw [reread, shown_ofText]

theorem isText_ofText (text : String) : (ofText text).IsText :=
  ⟨text, rfl⟩

/-- A path is a text if it can be read from what shows it. -/
theorem isText_iff {path : Path} : path.IsText ↔ path.reread = path := by
  constructor
  · rintro ⟨text, rfl⟩
    exact reread_ofText text
  · intro same
    exact ⟨path.shown, same⟩

instance : DecidablePred IsText := fun path =>
  decidable_of_iff (path.reread = path) isText_iff.symm

/-- Once it is read as a text, a path stays as it is. -/
theorem reread_reread (path : Path) : path.reread.reread = path.reread :=
  reread_ofText path.shown

theorem shown_reread (path : Path) : path.reread.shown = path.shown :=
  shown_ofText path.shown

theorem bytes_reread (path : Path) : path.reread.bytes = Text.mended path.bytes := rfl

/-- A character with a byte of its own is shown for that byte only. -/
theorem not_mem_shown {c : Char} {byte : UInt8} (own : String.utf8EncodeChar c = [byte])
    {path : Path} (absent : byte ∉ path.bytes) : c ∉ path.shown.toList :=
  fun member => absent (Text.mem_of_mem_lossy own member)

/-- The paths can be told apart by the texts that show them. -/
def ToldApart (paths : List Path) : Prop :=
  ∀ first ∈ paths, ∀ second ∈ paths,
    first.reread.sameAs second.reread = true → first.sameAs second = true

/-- Paths that are texts can be told apart. -/
theorem toldApart_of_isText {paths : List Path} (texts : ∀ path ∈ paths, path.IsText) :
    ToldApart paths := by
  intro first member second other same
  rwa [isText_iff.mp (texts first member), isText_iff.mp (texts second other)] at same

/-! ## Pieces -/

theorem splitOn_append_slash (front rest : List UInt8) :
    (front ++ slash :: rest).splitOn slash = front.splitOn slash ++ rest.splitOn slash :=
  List.splitOnP_append_cons front rest (beq_self_eq_true slash)

/-- The pieces between slashes can be mended one by one. -/
theorem splitOn_mended (bytes : List UInt8) :
    (Text.mended bytes).splitOn slash = (bytes.splitOn slash).map Text.mended := by
  by_cases parted : slash ∈ bytes
  · obtain ⟨front, rest, parts, -⟩ := List.eq_append_cons_of_mem parted
    have shorter : front.length < bytes.length ∧ rest.length < bytes.length := by
      rw [parts, List.length_append, List.length_cons]
      omega
    rw [parts, Text.mended_append_ascii (by decide), splitOn_append_slash, splitOn_append_slash,
      List.map_append, splitOn_mended front, splitOn_mended rest]
  · have unparted : slash ∉ Text.mended bytes :=
      fun member => parted (Text.mem_of_mem_mended (by decide) member)
    rw [List.splitOn_eq_singleton parted, List.splitOn_eq_singleton unparted]
    rfl
termination_by bytes.length
decreasing_by
  · exact shorter.1
  · exact shorter.2

theorem mended_eq_dot_iff {bytes : List UInt8} :
    Text.mended bytes = [dot] ↔ bytes = [dot] := by
  simp [Text.mended_eq_cons_iff (show dot < 0x80 by decide)]

/-- A mended piece names something exactly if the piece does. -/
theorem isNamePiece_mended (piece : List UInt8) :
    isNamePiece (Text.mended piece) = isNamePiece piece := by
  rw [Bool.eq_iff_iff]
  simp [isNamePiece, mended_eq_dot_iff]

/-- The leading component is kept, and what comes after it is mended. -/
theorem splitLead_mended (bytes : List UInt8) :
    splitLead (Text.mended bytes) =
      ((splitLead bytes).1, Text.mended (splitLead bytes).2) := by
  have slashAscii : slash < 0x80 := by decide
  have dotAscii : dot < 0x80 := by decide
  unfold splitLead
  by_cases rooted : bytes.head? = some slash
  · rw [if_pos rooted, if_pos ((Text.head?_mended_eq_iff slashAscii).mpr rooted),
      Text.tail_mended slashAscii rooted]
  · rw [if_neg rooted, if_neg (rooted ∘ (Text.head?_mended_eq_iff slashAscii).mp)]
    by_cases dotted : bytes.head? = some dot
    · simp only [Text.tail_mended dotAscii dotted, Text.mended_eq_nil_iff,
        Text.head?_mended_eq_iff slashAscii, Text.head?_mended_eq_iff dotAscii]
      split <;> rfl
    · rw [if_neg (dotted ∘ And.left),
        if_neg (dotted ∘ (Text.head?_mended_eq_iff dotAscii).mp ∘ And.left)]

/-- The component as it is read where the given one was shown. -/
def Component.reread : Component → Component
  | root => root
  | here => here
  | name bytes => name (Text.mended bytes)

theorem reread_of_mem_splitLead {bytes : List UInt8} {component : Component}
    (leads : (splitLead bytes).1 = some component) : component.reread = component := by
  unfold splitLead at leads
  dsimp only at leads
  split_ifs at leads <;> cases leads <;> rfl

/-- The components are shown one by one. -/
theorem components_reread (path : Path) :
    path.reread.components = path.components.map Component.reread := by
  have lead : (splitLead path.bytes).1.toList.map Component.reread =
      (splitLead path.bytes).1.toList := by
    cases found : (splitLead path.bytes).1 with
    | none => rfl
    | some component => exact congrArg ([·]) (reread_of_mem_splitLead found)
  have named : isNamePiece ∘ Text.mended = isNamePiece := funext isNamePiece_mended
  simp only [components, bytes_reread, splitLead_mended, splitOn_mended, List.map_append,
    List.filter_map, List.map_map, lead, named]
  rfl

/-- Paths that name the same place are shown by texts whose paths do. -/
theorem sameAs_reread {first second : Path} (same : first.sameAs second = true) :
    first.reread.sameAs second.reread = true := by
  rw [sameAs, beq_iff_eq] at same ⊢
  rw [components_reread, components_reread, same]

end ChipAsm.Path
