/-
# Texts that stand on one line

What the preprocessor passes on has no newlines, provided that the macros defined beforehand have
none. A line of a file has none, the text of a macro that is defined is part of such a line, and an
expansion has only characters of a line and of the texts of macros.

Places play no part in this, so it is shown for the gist of a run.
-/

import ChipAsm.Proofs.Preprocess.Expansion
import ChipAsm.Proofs.Preprocess.Outline
import ChipAsm.Proofs.Text.Blank
import ChipAsm.Proofs.Text.Line

namespace ChipAsm

/-! ## What control lines define -/

namespace Control

theorem beforeComment_subset (quoted : Bool) (text : List Char) :
    beforeComment quoted text ⊆ text := by
  induction text generalizing quoted with
  | nil => exact List.Subset.refl []
  | cons c rest ih =>
      rw [beforeComment]
      split
      · exact List.nil_subset _
      · exact List.cons_subset_cons c (ih _)

theorem stripComment_subset (text : List Char) : stripComment text ⊆ text :=
  List.Subset.trans (Text.trimEnd_subset _) (beforeComment_subset false text)

/-- The arguments of a control line are part of it. -/
theorem splitName_subset (text : List Char) : (splitName text).2 ⊆ text := by
  unfold splitName
  cases cut : Text.cut? Text.isBlank text with
  | none => exact List.nil_subset _
  | some parts =>
      apply List.Subset.trans (stripComment_subset _)
      apply List.Subset.trans (Text.trim_subset _)
      exact Text.subset_of_cut? cut

/-- What follows the first argument is part of the arguments. -/
theorem splitWord_subset (arguments : List Char) : (splitWord arguments).2 ⊆ arguments := by
  unfold splitWord
  cases cut : Text.cut? Text.isBlank arguments with
  | none => exact List.nil_subset _
  | some parts =>
      apply List.Subset.trans (Text.trim_subset _)
      exact Text.subset_of_cut? cut

/-- The text of a macro is what follows the first argument. -/
theorem eq_of_ofParts_define {directive name value : String} {arguments : List Char}
    (defines : ofParts directive arguments = .define name value) :
    value = String.ofList (splitWord arguments).2 := by
  cases words : splitWord arguments with
  | mk first rest =>
      simp only [ofParts, words] at defines
      split at defines <;> cases defines
      rfl

/-- The text of a macro is part of the line that defines it. -/
theorem value_subset_of_define {line name value : String}
    (defines : ofLine? line = some (.define name value)) : value.toList ⊆ line.toList := by
  unfold ofLine? at defines
  split at defines
  · next rest opens =>
      rw [eq_of_ofParts_define (Option.some.inj defines), String.toList_ofList]
      apply List.Subset.trans (splitWord_subset _)
      apply List.Subset.trans (splitName_subset _)
      apply List.Subset.trans (Text.trimStart_subset rest)
      intro c member
      apply Text.trimStart_subset
      rw [opens]
      exact List.mem_cons_of_mem _ member
  · cases defines

end Control

/-! ## What a run keeps on one line -/

namespace Macros

/-- The texts of the macros stand on one line each. -/
def Unbroken (macros : Macros) : Prop :=
  ∀ entry ∈ macros.entries, '\n' ∉ entry.2.toList

instance : DecidablePred Unbroken := fun macros =>
  inferInstanceAs (Decidable (∀ entry ∈ macros.entries, '\n' ∉ entry.2.toList))

theorem Unbroken.undefine {macros : Macros} (unbroken : macros.Unbroken) (name : String) :
    (macros.undefine name).Unbroken :=
  fun entry member => unbroken entry (List.mem_of_mem_filter member)

theorem Unbroken.define {macros : Macros} (unbroken : macros.Unbroken) {value : String}
    (given : '\n' ∉ value.toList) (name : String) : (macros.define name value).Unbroken :=
  List.forall_mem_cons.mpr ⟨given, unbroken.undefine name⟩

end Macros

namespace Preprocess

/-- The texts of the macros and the texts passed on stand on one line each. -/
structure Gist.Unbroken (gist : Gist) : Prop where
  macros : gist.macros.Unbroken
  texts : ∀ text ∈ gist.texts, '\n' ∉ text.toList

namespace Gist.Unbroken

variable {gist next : Gist}

theorem pass (unbroken : gist.Unbroken) {text : String} (given : '\n' ∉ text.toList)
    (passed : gist.pass text = some next) : next.Unbroken := by
  obtain ⟨expansion, expanded, rfl⟩ := Option.map_eq_some_iff.mp passed
  rw [toOption_eq_some_iff] at expanded
  refine ⟨unbroken.macros, ?_⟩
  intro text member
  rcases List.mem_append.mp member with earlier | last
  · exact unbroken.texts text earlier
  · rw [List.mem_singleton.mp last]
    exact Macros.not_mem_of_expand unbroken.macros given expanded

theorem define (unbroken : gist.Unbroken) {name value : String} (given : '\n' ∉ value.toList)
    (defined : gist.define name value = some next) : next.Unbroken := by
  unfold Gist.define at defined
  split at defined
  · cases defined
  · split at defined
    · cases defined
    · rw [← Option.some.inj defined]
      exact ⟨unbroken.macros.define given name, unbroken.texts⟩

theorem undefine (unbroken : gist.Unbroken) {name : String}
    (undefined : gist.undefine name = some next) : next.Unbroken := by
  unfold Gist.undefine at undefined
  split at undefined
  · rw [← Option.some.inj undefined]
    exact ⟨unbroken.macros.undefine name, unbroken.texts⟩
  · cases undefined

end Gist.Unbroken

/-- Working through included files keeps texts on one line. -/
def KeepsUnbroken (enter : Option (Path → String → Gist → Option Gist)) : Prop :=
  ∀ act, enter = some act → ∀ path source gist next, gist.Unbroken →
    act path source gist = some next → next.Unbroken

section

variable {library : Library} {enter : Option (Path → String → Gist → Option Gist)} {file : Path}

theorem Gist.Unbroken.includeFile (deeper : KeepsUnbroken enter)
    {target : Option IncludeTarget} {gist next : Gist} (unbroken : gist.Unbroken)
    (included : Gist.includeFile library enter file target gist = some next) :
    next.Unbroken := by
  obtain ⟨act, entered, rest⟩ := Option.bind_eq_some_iff.mp included
  obtain ⟨name, -, rest⟩ := Option.bind_eq_some_iff.mp rest
  obtain ⟨found, -, worked⟩ := Option.bind_eq_some_iff.mp rest
  exact deeper act entered _ _ gist next unbroken worked

/-- What keeps texts on one line does so in lines in force. -/
theorem Outline.unbroken_update {act : Gist → Option Gist}
    (keeps : ∀ gist next, gist.Unbroken → act gist = some next → next.Unbroken)
    {outline next : Outline} (unbroken : outline.gist.Unbroken)
    (updated : outline.update act = some next) : next.gist.Unbroken := by
  unfold update at updated
  split at updated
  · obtain ⟨gist, acted, rfl⟩ := Option.map_eq_some_iff.mp updated
    exact keeps outline.gist gist unbroken acted
  · rw [← Option.some.inj updated]
    exact unbroken

/-- A control line keeps texts on one line, if the text that it defines is on one. -/
theorem Outline.unbroken_obey (deeper : KeepsUnbroken enter) {control : Control}
    (given : ∀ name value, control = .define name value → '\n' ∉ value.toList)
    {outline next : Outline} (unbroken : outline.gist.Unbroken)
    (obeyed : outline.obey library enter file control = some next) : next.gist.Unbroken := by
  cases control with
  | opening defined name =>
      simp only [obey, openGroup, Option.ite_none_right_eq_some, Option.some_inj] at obeyed
      obtain ⟨-, rfl⟩ := obeyed
      exact unbroken
  | otherwise =>
      rw [obey] at obeyed
      unfold switchBranch at obeyed
      split at obeyed
      · cases obeyed
      · split at obeyed
        · cases obeyed
        · rw [← Option.some.inj obeyed]
          exact unbroken
  | closing =>
      rw [obey] at obeyed
      unfold closeGroup at obeyed
      split at obeyed
      · cases obeyed
      · rw [← Option.some.inj obeyed]
        exact unbroken
  | define name value =>
      exact unbroken_update (fun gist next whole => whole.define (given name value rfl)) unbroken
        obeyed
  | undefine name =>
      exact unbroken_update (fun gist next whole => whole.undefine) unbroken obeyed
  | inclusion target =>
      exact unbroken_update (fun gist next whole => whole.includeFile deeper) unbroken obeyed
  | position line name =>
      rw [obey] at obeyed
      refine unbroken_update (fun gist next whole moved => ?_) unbroken obeyed
      obtain ⟨number, -, rfl⟩ := Option.map_eq_some_iff.mp moved
      exact whole
  | unknown name =>
      rw [obey] at obeyed
      exact unbroken_update (fun gist next whole refused => by cases refused) unbroken obeyed

/-- A line keeps texts on one line. -/
theorem Outline.unbroken_read (deeper : KeepsUnbroken enter) {text : String}
    (given : '\n' ∉ text.toList) {outline next : Outline} (unbroken : outline.gist.Unbroken)
    (taken : outline.read library enter file text = some next) : next.gist.Unbroken := by
  unfold read at taken
  cases found : Control.ofLine? text with
  | none =>
      simp only [found] at taken
      exact unbroken_update (fun gist next whole => whole.pass given) unbroken taken
  | some control =>
      simp only [found] at taken
      refine unbroken_obey deeper ?_ unbroken taken
      rintro name value rfl broken
      exact given (Control.value_subset_of_define found broken)

/-- Lines that are worked through keep texts on one line. -/
theorem Outline.unbroken_foldlM (deeper : KeepsUnbroken enter) {lines : List String}
    (given : ∀ line ∈ lines, '\n' ∉ line.toList) {outline last : Outline}
    (unbroken : outline.gist.Unbroken)
    (through : lines.foldlM (read library enter file) outline = some last) :
    last.gist.Unbroken := by
  induction lines generalizing outline with
  | nil =>
      rw [← Option.some.inj through]
      exact unbroken
  | cons line rest ih =>
      obtain ⟨first, others⟩ := List.forall_mem_cons.mp given
      rw [List.foldlM_cons] at through
      obtain ⟨next, taken, remaining⟩ := Option.bind_eq_some_iff.mp through
      exact ih others (unbroken_read deeper first unbroken taken) remaining

/-- A file keeps texts on one line. -/
theorem Gist.unbroken_readLines (deeper : KeepsUnbroken enter) {source : String}
    {gist next : Gist} (unbroken : gist.Unbroken)
    (worked : readLines library enter file (Text.lines source) gist = some next) :
    next.Unbroken := by
  obtain ⟨last, through, finished⟩ := Option.bind_eq_some_iff.mp worked
  have ends : last.gist.Unbroken := Outline.unbroken_foldlM deeper
    (fun line => Text.newline_not_mem_of_mem_lines) unbroken through
  unfold Outline.finish at finished
  split at finished
  · rw [← Option.some.inj finished]
    exact ends
  · cases finished

end

/-- Included files keep texts on one line, however deep they are nested. -/
theorem keepsUnbroken_enterAt (library : Library) (depth : Nat) :
    KeepsUnbroken (Gist.enterAt library depth) := by
  induction depth with
  | zero =>
      intro act none
      cases none
  | succ depth ih =>
      intro act same path source gist next unbroken worked
      rw [← Option.some.inj same, Gist.readFile_eq_readLines] at worked
      exact Gist.unbroken_readLines ih unbroken worked

/-- What a run passes on stands on one line each. -/
theorem newline_not_mem_of_mem_run {library : Library} {macros : Macros} {file : Path}
    {source out : String} (unbroken : macros.Unbroken)
    (preprocessed : preprocess library macros file source = .ok out) :
    ∀ line ∈ (run library macros file source).lines.toList, '\n' ∉ line.text.toList := by
  obtain ⟨⟨gist, found⟩, -⟩ := State.result_eq_ok_iff.mp preprocessed
  have texts := State.map_text_of_gist? found
  rw [gist?_run] at found
  have whole : gist.Unbroken := Gist.unbroken_readLines (keepsUnbroken_enterAt library _)
    ⟨unbroken, fun text member => absurd member List.not_mem_nil⟩ found
  intro line member
  apply whole.texts
  rw [← texts]
  exact List.mem_map_of_mem member

end Preprocess

end ChipAsm
