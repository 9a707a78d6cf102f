/-
# Inclusion and pasting

Including a file amounts to pasting its lines. An included file has conditional groups of its
own, while pasted lines stand inside the groups that are open at that point. If the included
file goes through, it closes every group that it opens and no other, so its lines never see the
groups around them but for the question whether they are in force, and at a line that includes
they are.

The comparison is about the texts that are passed on. The places differ, since the pasted lines
belong to another file. A file that includes further files is left out: they would be looked for
beside another file than before.
-/

import ChipAsm.Proofs.Preprocess.Outline
import ChipAsm.Proofs.Preprocess.Place

namespace ChipAsm.Preprocess

namespace Outline

/-- The outline of the same work inside further groups. -/
def inside (outline : Outline) (outer : List Group) : Outline :=
  { outline with groups := outline.groups ++ outer }

/-- Further groups that are in force make no difference. -/
theorem inForce_append {outer : List Group} (active : inForce outer = true)
    (groups : List Group) : inForce (groups ++ outer) = inForce groups := by
  cases groups with
  | nil => exact active
  | cons innermost rest => rfl

section

variable {outer : List Group}

theorem update_inside (active : inForce outer = true) {act : Gist → Option Gist}
    {outline next : Outline} (updated : outline.update act = some next) :
    (outline.inside outer).update act = some (next.inside outer) := by
  unfold update at updated ⊢
  rw [inside, inForce_append active]
  by_cases here : inForce outline.groups = true
  · rw [if_pos here] at updated ⊢
    obtain ⟨gist, acted, rfl⟩ := Option.map_eq_some_iff.mp updated
    exact Option.map_eq_some_iff.mpr ⟨gist, acted, rfl⟩
  · rw [if_neg here] at updated ⊢
    rw [← Option.some.inj updated]
    rfl

/-- A control line that includes nothing is obeyed alike inside further groups. -/
theorem obey_inside (active : inForce outer = true) {control : Control}
    (plain : ∀ target, control ≠ .inclusion target) {library : Library}
    {enter other : Option (Path → String → Gist → Option Gist)} {file elsewhere : Path}
    {outline next : Outline} (obeyed : outline.obey library enter file control = some next) :
    (outline.inside outer).obey library other elsewhere control = some (next.inside outer) := by
  cases control with
  | opening defined name =>
      simp only [obey, openGroup, Option.ite_none_right_eq_some, Option.some_inj] at obeyed
      obtain ⟨named, rfl⟩ := obeyed
      simp only [obey, openGroup, if_pos named, inside, inForce_append active, List.cons_append]
  | otherwise =>
      cases groups : outline.groups with
      | nil => simp [obey, switchBranch, groups] at obeyed
      | cons innermost rest =>
          by_cases seen : innermost.seenElse = true
          · simp [obey, switchBranch, groups, seen] at obeyed
          · simp only [obey, switchBranch, groups, if_neg seen, Option.some_inj] at obeyed
            simp only [obey, switchBranch, inside, groups, List.cons_append, if_neg seen, ← obeyed]
  | closing =>
      cases groups : outline.groups with
      | nil => simp [obey, closeGroup, groups] at obeyed
      | cons innermost rest =>
          simp only [obey, closeGroup, groups, Option.some_inj] at obeyed
          simp only [obey, closeGroup, inside, groups, List.cons_append, ← obeyed]
  | define name value =>
      rw [obey] at obeyed ⊢
      exact update_inside active obeyed
  | undefine name =>
      rw [obey] at obeyed ⊢
      exact update_inside active obeyed
  | inclusion target => exact absurd rfl (plain target)
  | position line name =>
      rw [obey] at obeyed ⊢
      exact update_inside active obeyed
  | unknown name =>
      rw [obey] at obeyed ⊢
      exact update_inside active obeyed

/-- Lines that include nothing are worked through alike inside further groups, whichever file
they stand in. -/
theorem foldlM_inside (active : inForce outer = true) {library : Library}
    {enter other : Option (Path → String → Gist → Option Gist)} {file elsewhere : Path}
    {lines : List String}
    (plain : ∀ line ∈ lines, ∀ target, Control.ofLine? line ≠ some (.inclusion target))
    {outline last : Outline}
    (through : lines.foldlM (read library enter file) outline = some last) :
    lines.foldlM (read library other elsewhere) (outline.inside outer) =
      some (last.inside outer) := by
  induction lines generalizing outline with
  | nil => exact congrArg (Option.map (inside · outer)) through
  | cons line rest ih =>
      obtain ⟨first, others⟩ := List.forall_mem_cons.mp plain
      rw [List.foldlM_cons] at through ⊢
      obtain ⟨next, taken, remaining⟩ := Option.bind_eq_some_iff.mp through
      refine Option.bind_eq_some_iff.mpr ⟨next.inside outer, ?_, ih others remaining⟩
      unfold read at taken ⊢
      cases found : Control.ofLine? line with
      | none =>
          simp only [found] at taken ⊢
          exact update_inside active taken
      | some control =>
          simp only [found] at taken ⊢
          exact obey_inside active (fun target same => first target (by rw [found, same])) taken

end

end Outline

/-- The lines of a file that goes through on its own lead to the same gist inside any groups that
are in force, and leave these groups as they were. -/
theorem Gist.foldlM_of_readLines {library : Library}
    {enter other : Option (Path → String → Gist → Option Gist)} {path file : Path}
    {lines : List String} {gist result : Gist}
    (through : readLines library enter path lines gist = some result)
    (plain : ∀ line ∈ lines, ∀ target, Control.ofLine? line ≠ some (.inclusion target))
    {groups : List Group} (active : Outline.inForce groups = true) :
    lines.foldlM (Outline.read library other file) { groups, gist } =
      some { groups, gist := result } := by
  obtain ⟨last, worked, finished⟩ := Option.bind_eq_some_iff.mp through
  unfold Outline.finish at finished
  by_cases closed : last.groups = []
  · rw [if_pos closed, Option.some_inj] at finished
    have inner : Outline.inside { groups := [], gist } groups = { groups, gist } := rfl
    have framed : last.inside groups = { groups, gist := result } := by
      rw [Outline.inside, closed, finished, List.nil_append]
    rw [← inner, ← framed]
    exact Outline.foldlM_inside active plain worked
  · rw [if_neg closed] at finished
    cases finished

section

variable {library : Library} {file path : Path} {content raw : String}
  {before after : List String} {target : IncludeTarget}

/-- Lines with a line that includes a file lead to the same gist as the lines with those of the
included file in its place. -/
theorem Gist.readLines_of_pasting {depth : Nat} {gist result : Gist}
    (control : Control.ofLine? raw = some (.inclusion (some target)))
    (located : library.locate? (candidates library file target) = some (path, content))
    (plain : ∀ line ∈ Text.lines content, ∀ target,
      Control.ofLine? line ≠ some (.inclusion target))
    (active : ∀ outline, before.foldlM
      (Outline.read library (enterAt library (depth + 1)) file) { groups := [], gist } =
        some outline → Outline.inForce outline.groups = true)
    (through : readLines library (enterAt library (depth + 1)) file (before ++ raw :: after) gist =
      some result) :
    readLines library (enterAt library (depth + 1)) file
      (before ++ Text.lines content ++ after) gist = some result := by
  obtain ⟨last, worked, finished⟩ := Option.bind_eq_some_iff.mp through
  refine Option.bind_eq_some_iff.mpr ⟨last, ?_, finished⟩
  rw [List.foldlM_append] at worked
  obtain ⟨reached, started, remaining⟩ := Option.bind_eq_some_iff.mp worked
  rw [List.foldlM_cons] at remaining
  obtain ⟨next, included, rest⟩ := Option.bind_eq_some_iff.mp remaining
  have here := active reached started
  have entered : ∃ inner, readFile library depth path content reached.gist = some inner ∧
      { reached with gist := inner } = next := by
    simp only [Outline.read, control, Outline.obey, Outline.update, if_pos here] at included
    obtain ⟨inner, entered, same⟩ := Option.map_eq_some_iff.mp included
    refine ⟨inner, ?_, same⟩
    simpa [includeFile, enterAt, located] using entered
  obtain ⟨inner, through, rfl⟩ := entered
  rw [readFile_eq_readLines] at through
  rw [List.append_assoc, List.foldlM_append]
  refine Option.bind_eq_some_iff.mpr ⟨reached, started, ?_⟩
  rw [List.foldlM_append]
  exact Option.bind_eq_some_iff.mpr
    ⟨{ reached with gist := inner }, foldlM_of_readLines through plain here, rest⟩

end

/-- What is written for lines is markers and the lines, each ended by a newline. -/
theorem render_eq_join (file : Path) (lines : List SourceLine) :
    SourceLine.render file lines = String.join ((Written.ofLines { file, line := 1 } lines).map
      fun item => item.spelling ++ "\n") := by
  rw [SourceLine.render, ← Written.map_spelling_ofLines, List.map_map]
  rfl

/-- Including a file is the same as pasting it. Take a source with a line in force that includes
a file which includes nothing itself, and the source with the lines of that file in place of the
line. If the first goes through the preprocessor, so does the second, and the same texts are
passed on. The two results consist of these texts in this order, with markers between them. -/
theorem inclusion_same_as_pasting (library : Library) (macros : Macros) (file path : Path)
    (source pasted content raw out : String) (before after : List String)
    (target : IncludeTarget) (split : Text.lines source = before ++ raw :: after)
    (control : Control.ofLine? raw = some (.inclusion (some target)))
    (active : (reached library (maxIncludeDepth - 1) file { macros }
      (before.zipIdx 1)).isActive = true)
    (found : (find library
      (reached library (maxIncludeDepth - 1) file { macros } (before.zipIdx 1)).state
      (candidates library file target)).1 = some (path, content))
    (plain : ∀ line ∈ Text.lines content, ∀ target,
      Control.ofLine? line ≠ some (.inclusion target))
    (replaced : Text.lines pasted = before ++ Text.lines content ++ after)
    (preprocessed : preprocess library macros file source = .ok out) :
    let passed := fun source => (run library macros file source).lines.toList
    ∃ other, preprocess library macros file pasted = .ok other ∧
      (passed pasted).map (·.text) = (passed source).map (·.text) ∧
      ∃ written rewritten : List Written,
        out = String.join (written.map fun item => item.spelling ++ "\n") ∧
        other = String.join (rewritten.map fun item => item.spelling ++ "\n") ∧
        written.filterMap Written.passed? = passed source ∧
        rewritten.filterMap Written.passed? = passed pasted := by
  intro passed
  obtain ⟨⟨gist, goesThrough⟩, rendered⟩ := State.result_eq_ok_iff.mp preprocessed
  have inForce : ∀ outline, before.foldlM
      (Outline.read library (Gist.enterAt library (maxIncludeDepth - 1)) file)
      { groups := [], gist := { macros, texts := [] } } = some outline →
      Outline.inForce outline.groups = true := by
    intro outline worked
    rw [← outline?_reached] at worked
    rw [Scan.inForce_of_outline? worked]
    exact active
  have again : (run library macros file pasted).gist? = some gist := by
    rw [gist?_run, split] at goesThrough
    rw [fst_find] at found
    rw [gist?_run, replaced]
    exact Gist.readLines_of_pasting control found plain inForce goesThrough
  refine ⟨_, State.result_eq_ok_iff.mpr ⟨⟨gist, again⟩, rfl⟩, ?_, _, _,
    rendered.symm.trans (render_eq_join file _), render_eq_join file _,
    Written.filterMap_passed?_ofLines _ _, Written.filterMap_passed?_ofLines _ _⟩
  rw [State.map_text_of_gist? again, State.map_text_of_gist? goesThrough]

/-- A file with a guard, included inside a group and after a macro was defined, and the same
lines pasted. -/
theorem inclusion_same_as_pasting_of_guard :
    let content := "#ifndef IO\n#define IO 0x40\nport: dw IO, SIZE\n#else\nnop\n#endif"
    let library : Library :=
      { load := fun path => if path = .ofText "lib/io" then some content else none
        directories := [.ofText "lib"] }
    let source := "#define SIZE 8\n#ifdef SIZE\n#include <io>\n db IO\n#endif"
    let pasted := "#define SIZE 8\n#ifdef SIZE\n" ++ content ++ "\n db IO\n#endif"
    let out := "#line 3 \"lib/io\"\nport: dw 0x40, 8\n#line 4 \"main\"\n db 0x40\n"
    preprocess library {} (.ofText "main") source = .ok out ∧
      ∃ other, preprocess library {} (.ofText "main") pasted = .ok other ∧
        (run library {} (.ofText "main") pasted).lines.toList.map (·.text) =
          (run library {} (.ofText "main") source).lines.toList.map (·.text) := by
  intro content library source pasted out
  have preprocessed : preprocess library {} (.ofText "main") source = .ok out := by decide +kernel
  have controls : (Text.lines content).map Control.ofLine? =
      [some (.opening false "IO"), some (.define "IO" "0x40"), none, some .otherwise, none,
        some .closing] := by decide +kernel
  have plain : ∀ line ∈ Text.lines content, ∀ target,
      Control.ofLine? line ≠ some (.inclusion target) := by
    intro line member target same
    have among : Control.ofLine? line ∈ (Text.lines content).map Control.ofLine? :=
      List.mem_map_of_mem member
    rw [controls, same] at among
    simp at among
  obtain ⟨other, goesThrough, texts, -⟩ := inclusion_same_as_pasting library {}
    (.ofText "main") (.ofText "lib/io") source pasted content "#include <io>" out
    ["#define SIZE 8", "#ifdef SIZE"] [" db IO", "#endif"] { name := "io", isLocal := false }
    (by decide +kernel) (by decide +kernel) (by decide +kernel) (by decide +kernel) plain
    (by decide +kernel) preprocessed
  exact ⟨preprocessed, other, goesThrough, texts⟩

end ChipAsm.Preprocess
