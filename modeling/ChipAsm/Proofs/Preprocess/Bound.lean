/-
# Bounds of expansion

Macros may lead back to themselves, and their texts may double at each level. Still the expansion
of a line ends, because no macro is expanded inside its own expansion and only so many are
expanded at once, and it is not much longer than the line, because its size is checked at the end
of every word.

What is copied is not checked. In the text of a macro it counts all the same when the word ends
that the text replaces, so that only what the line itself has copied comes on top of the limit.

`Begun` says which expansions are begun while a line is expanded: its own and those of the texts of
macros, also where the line is refused in the end. No other is of consequence
(`Begun.expandInto_eq`). Nothing is said about how many there are.
-/

import ChipAsm.Proofs.Preprocess.Completeness

namespace ChipAsm

open Piece

namespace Macros

variable {macros : Macros}

/-! ## The size of an expansion -/

/-- What stands expanded behind pieces is within the limit, or it was beyond it before, up to what
the pieces themselves have. -/
theorem utf8ByteSize_le_of_foldlM {expanding : List String}
    {deeper : String → String → String → Except ExpansionFault String} {pieces : List Piece}
    {expanded result : String}
    (success : pieces.foldlM (macros.expandPiece expanding deeper) expanded = .ok result) :
    result.utf8ByteSize ≤ max maxExpansion expanded.utf8ByteSize +
      (String.join (pieces.map Piece.text)).utf8ByteSize := by
  induction pieces generalizing expanded with
  | nil =>
      rw [List.foldlM_nil, pure_eq_ok_iff] at success
      subst success
      exact Nat.le_add_right_of_le (Nat.le_max_right _ _)
  | cons piece rest ih =>
      rw [List.foldlM_cons, bind_eq_ok_iff] at success
      obtain ⟨next, stepped, success⟩ := success
      have behind := ih success
      rw [List.map_cons, String.join_cons, String.utf8ByteSize_append]
      cases piece with
      | copied text =>
          rw [← Except.ok.inj stepped, String.utf8ByteSize_append] at behind
          rw [Piece.text]
          omega
      | word word =>
          have within := (expandPiece_word_cases stepped).1
          omega

/-- An expansion is longer than its line by no more than the limit. -/
theorem utf8ByteSize_le_of_expand {line out : String} (success : macros.expand line = .ok out) :
    out.utf8ByteSize ≤ maxExpansion + line.utf8ByteSize := by
  rw [expand, maxNesting, expandInto] at success
  have bounded := utf8ByteSize_le_of_foldlM success
  rwa [join_ofLine, String.utf8ByteSize_empty, Nat.max_zero] at bounded

/-! ## The expansions that are begun -/

/-- Expanding the pieces comes to a word in whose place `value` is to be expanded, with
`reached` expanded before it. -/
def ComesTo (macros : Macros) (expanding : List String)
    (deeper : String → String → String → Except ExpansionFault String) (expanded : String)
    (pieces : List Piece) (word value reached : String) : Prop :=
  ∃ before after, pieces = before ++ .word word :: after ∧
    before.foldlM (macros.expandPiece expanding deeper) expanded = .ok reached ∧
    macros.replacement? expanding word = some value

/-- While the line is expanded, the expansion of `text` is begun with `expanded` before it, where
`expanding` are the macros being expanded and `levels` more may be. -/
inductive Begun (macros : Macros) (line : String) :
    (levels : Nat) → (expanding : List String) → (expanded text : String) → Prop
  /-- The line itself. -/
  | line : Begun macros line maxNesting [] "" line
  /-- The text of a macro, in the place of a word of a text that is being expanded. -/
  | inner {levels : Nat} {expanding : List String} {expanded text word value reached : String}
      (outer : Begun macros line (levels + 1) expanding expanded text)
      (comes : macros.ComesTo expanding
        (fun name value expanded => macros.expandInto levels (name :: expanding) expanded value)
        expanded (ofLine text) word value reached) :
      Begun macros line levels (word :: expanding) reached value

/-- Expanding pieces depends only on the expansions that it comes to. -/
theorem foldlM_expandPiece_congr {expanding : List String}
    {deeper other : String → String → String → Except ExpansionFault String}
    {pieces : List Piece} {expanded : String}
    (same : ∀ word value reached,
      macros.ComesTo expanding deeper expanded pieces word value reached →
        other word value reached = deeper word value reached) :
    pieces.foldlM (macros.expandPiece expanding other) expanded =
      pieces.foldlM (macros.expandPiece expanding deeper) expanded := by
  induction pieces generalizing expanded with
  | nil => rfl
  | cons piece rest ih =>
      have here : macros.expandPiece expanding other expanded piece =
          macros.expandPiece expanding deeper expanded piece := by
        cases piece with
        | copied text => rfl
        | word word =>
            cases replaced : macros.replacement? expanding word with
            | none => simp only [expandPiece, replaced]
            | some value =>
                have comes := same word value expanded ⟨[], rest, rfl, rfl, replaced⟩
                simp only [expandPiece, replaced, comes]
      rw [List.foldlM_cons, List.foldlM_cons, here]
      cases stepped : macros.expandPiece expanding deeper expanded piece with
      | error fault => rfl
      | ok next =>
          rw [ok_bind, ok_bind]
          apply ih
          rintro word value reached ⟨before, after, rfl, success, replaced⟩
          apply same
          refine ⟨piece :: before, after, rfl, ?_, replaced⟩
          rw [List.foldlM_cons, stepped, ok_bind, success]

/-- An expansion depends on no other expansions than those that are begun. -/
theorem Begun.expandInto_eq {line : String} {levels : Nat} {expanding : List String}
    {expanded text : String} (begun : macros.Begun line (levels + 1) expanding expanded text)
    {other : String → String → String → Except ExpansionFault String}
    (same : ∀ word value reached, macros.Begun line levels (word :: expanding) reached value →
      other word value reached = macros.expandInto levels (word :: expanding) reached value) :
    (ofLine text).foldlM (macros.expandPiece expanding other) expanded =
      macros.expandInto (levels + 1) expanding expanded text := by
  rw [expandInto]
  apply foldlM_expandPiece_congr
  intro word value reached comes
  exact same word value reached (.inner begun comes)

/-- The macros that are expanded at once are defined and distinct, and with those that may still
be they come to the limit. -/
theorem Begun.expanding_distinct {line : String} {levels : Nat} {expanding : List String}
    {expanded text : String} (begun : macros.Begun line levels expanding expanded text) :
    expanding.Nodup ∧ (∀ name ∈ expanding, macros.Defines name) ∧
      expanding.length + levels = maxNesting := by
  induction begun with
  | line => exact ⟨List.nodup_nil, List.forall_mem_nil _, rfl⟩
  | inner outer comes ih =>
      obtain ⟨distinct, defined, counted⟩ := ih
      obtain ⟨before, after, -, -, replaced⟩ := comes
      obtain ⟨⟨-, other⟩, -⟩ := replacement?_eq_some_iff.mp replaced
      refine ⟨List.nodup_cons.mpr ⟨other, distinct⟩, ?_, ?_⟩
      · exact List.forall_mem_cons.mpr ⟨.of_replacement? replaced, defined⟩
      · rw [List.length_cons]
        omega

/-- Expansion stays small whatever the macros are. A line is refused, or it is expanded to a text
that has at most 65536 bytes more; and whenever an expansion is begun, that of the line or that of
the text of a macro, the macros being expanded are distinct, defined and at most 32. -/
theorem expansion_stays_small (macros : Macros) (line : String) :
    ((∃ fault, macros.expand line = .error fault) ∨
        ∃ out, macros.expand line = .ok out ∧ out.utf8ByteSize ≤ 65536 + line.utf8ByteSize) ∧
      ∀ (levels : Nat) (expanding : List String) (expanded text : String),
        macros.Begun line levels expanding expanded text →
          expanding.Nodup ∧ (∀ name ∈ expanding, macros.Defines name) ∧
            expanding.length ≤ 32 := by
  constructor
  · cases expanded : macros.expand line with
    | error fault => exact .inl ⟨fault, rfl⟩
    | ok out => exact .inr ⟨out, rfl, utf8ByteSize_le_of_expand expanded⟩
  · intro levels expanding expanded text begun
    obtain ⟨distinct, defined, counted⟩ := begun.expanding_distinct
    exact ⟨distinct, defined, (Nat.le_add_right _ _).trans_eq counted⟩

/-- Two macros that lead to each other and both have a comment are expanded once at each place, and
when the second one is begun at the second place the first is still being expanded. -/
theorem expansion_stays_small_around_cycle :
    let macros : Macros := { entries := [("A", "B,A ;B"), ("B", "A;A")] }
    let line := "A+A"
    let out := "A;A,A ;B+A;A,A ;B"
    (macros.expand line = .ok out ∧ out.utf8ByteSize ≤ 65536 + line.utf8ByteSize) ∧
      macros.Begun line 30 ["B", "A"] "A;A,A ;B+" "A;A" ∧ ["B", "A"].Nodup ∧
      (∀ name ∈ ["B", "A"], macros.Defines name) ∧ ["B", "A"].length ≤ 32 := by
  intro macros line out
  have expanded : macros.expand line = .ok out := by decide +kernel
  have first : macros.Begun line 31 ["A"] "A;A,A ;B+" "B,A ;B" :=
    .inner .line ⟨[.word "A", .copied "+"], [], by decide +kernel, by decide +kernel,
      by decide +kernel⟩
  have second : macros.Begun line 30 ["B", "A"] "A;A,A ;B+" "A;A" :=
    .inner first ⟨[], [.copied ",", .word "A", .copied " ", .copied ";B"], by decide +kernel, rfl,
      by decide +kernel⟩
  obtain ⟨refused | ⟨other, success, small⟩, sound⟩ := expansion_stays_small macros line
  · obtain ⟨fault, refused⟩ := refused
    cases expanded.symm.trans refused
  · obtain rfl := Except.ok.inj (expanded.symm.trans success)
    exact ⟨⟨expanded, small⟩, second, sound 30 ["B", "A"] _ _ second⟩

end Macros

end ChipAsm
