/-
# Runs that fail

A run that fails writes nothing, unless what fails is the last thing it does. Exit code 2
stands for a source that is rejected, exit code 1 for trouble with the options or the files.
-/

import ChipAsm.Proofs.Command.Course

namespace ChipAsm.Command

section

variable {options : Options} {macros : Macros} {load : Path → Option String} {source : String}

/-- A source that is rejected is not printed after preprocessing. -/
theorem Rejects.not_printed (rejects : Rejects options macros load source) {text : String}
    (only : options.preprocessOnly = true) :
    preprocessed options macros load source ≠ .ok text := by
  intro passed
  cases rejects with
  | preprocessing failed => cases failed.symm.trans passed
  | parsing full _ _ => cases full.symm.trans only
  | assembling full _ _ _ _ => cases full.symm.trans only

/-- A source that is rejected yields no assembly. -/
theorem Rejects.not_yields (rejects : Rejects options macros load source) (assembly : Assembly) :
    ¬ Yields options macros load source assembly := by
  rintro ⟨-, text, statements, table, passed, parsed, built, assembled⟩
  cases rejects with
  | preprocessing failed => cases failed.symm.trans passed
  | parsing _ same failed =>
      cases same.symm.trans passed
      cases failed.symm.trans parsed
  | assembling _ same reparsed rebuilt failed =>
      cases same.symm.trans passed
      cases reparsed.symm.trans parsed
      cases rebuilt.symm.trans built
      cases failed.symm.trans assembled

end

section

variable {σ : Type} {system : FileSystem σ} {options : Options} {state final : σ}
  {exitCode : UInt32}

theorem Delivered.exitCode_ne_two {assembly : Assembly}
    (delivered : Delivered system options assembly state exitCode final) : exitCode ≠ 2 := by
  cases delivered <;> decide

/-- Delivering fails with the files as they were, or after the image was written. -/
theorem Delivered.of_exitCode_one {assembly : Assembly}
    (delivered : Delivered system options assembly state 1 final) :
    final = state ∨ ∃ path fault, options.listing = some path ∧
      system.write state options.output assembly.image = .ok final ∧
      system.write final path (listingContents assembly) = .error fault := by
  cases delivered with
  | refused _ => exact .inl rfl
  | listingRefused written asked failed => exact .inr ⟨_, _, asked, written, failed⟩

/-- A run that stops without writing has exit code 2 exactly if the source is rejected. -/
theorem Course.exitCode_eq_two_iff {input : Except FileFault String} {load : Path → Option String}
    {output source : String} {macros : Macros}
    (course : Course options input load (.stop exitCode output)) (read : input = .ok source)
    (defined : macrosOf options = .ok macros) :
    exitCode = 2 ↔ Rejects options macros load source := by
  cases course with
  | unread failed => cases failed.symm.trans read
  | undefined _ failed => cases failed.symm.trans defined
  | rejected sameInput sameMacros rejects =>
      cases sameInput.symm.trans read
      cases sameMacros.symm.trans defined
      exact iff_of_true rfl rejects
  | printed sameInput sameMacros only passed =>
      cases sameInput.symm.trans read
      cases sameMacros.symm.trans defined
      exact iff_of_false (by decide) fun rejects => rejects.not_printed only passed

end

/-- A run that ends with exit code 2, or that only preprocesses, leaves all files as they were.
One that ends with exit code 1 does so too, unless the image was written and writing the
listing failed. Once the input is read and all definitions are well formed, the exit code is 2
exactly if the source is rejected. -/
theorem failed_run_writes_nothing {σ : Type} (system : FileSystem σ) (options : Options)
    (state : σ) (report : Report) (final : σ)
    (ran : system.run options state = (report, final)) :
    (report.exitCode = 2 ∨ options.preprocessOnly = true → final = state) ∧
    (report.exitCode = 1 → final = state ∨
      ∃ assembly path fault, system.Assembles options state assembly ∧
        options.listing = some path ∧
        system.write state options.output assembly.image = .ok final ∧
        system.write final path (listingContents assembly) = .error fault) ∧
    ∀ source, system.readText state options.input = .ok source →
      (∀ text ∈ options.definitions, (Macros.readDefinition? text).isSome = true) →
      (report.exitCode = 2 ↔
        Rejects options (Macros.ofList (options.definitions.filterMap Macros.readDefinition?))
          (system.load state) source) := by
  have cases := run_cases system options state ran
  generalize report.exitCode = exitCode at cases ⊢
  rcases cases with ⟨output, course, rfl⟩ | ⟨assembly, assembles, delivered⟩
  · refine ⟨fun _ => rfl, fun _ => .inl rfl, ?_⟩
    intro source read wellFormed
    exact course.exitCode_eq_two_iff read (macrosOf_eq_ok wellFormed)
  · obtain ⟨source, macros, read, defined, yields⟩ := assembles
    refine ⟨?_, ?_, ?_⟩
    · rintro (two | only)
      · exact absurd two delivered.exitCode_ne_two
      · cases only.symm.trans yields.full
    · rintro rfl
      refine delivered.of_exitCode_one.imp_right ?_
      rintro ⟨path, fault, asked, written, failed⟩
      exact ⟨assembly, path, fault, ⟨source, macros, read, defined, yields⟩, asked, written, failed⟩
    · intro sameSource sameRead wellFormed
      cases sameRead.symm.trans read
      cases (macrosOf_eq_ok wellFormed).symm.trans defined
      exact iff_of_false delivered.exitCode_ne_two fun rejects =>
        rejects.not_yields assembly yields

/-- A listing that goes to a directory that does not exist: the image was written before. And a
source with an unbound label: nothing is written. -/
theorem listing_refused_after_image :
    let options : Options :=
      { input := .ofText "m.asm", output := .ofText "a.out",
        listing := some (.ofText "lists/m.lst"), definitions := ["X=1"], directories := [],
        preprocessOnly := false, verbosity := .errors }
    let tree : FileTree := ⟨[([Text.utf8 "m.asm"], "DB X\n".toUTF8.data)]⟩
    let broken : FileTree := ⟨[([Text.utf8 "m.asm"], "JMP X\nJMP away\n".toUTF8.data)]⟩
    (∃ report final assembly, FileTree.system.run options tree = (report, final) ∧
      report.exitCode = 1 ∧ FileTree.system.Assembles options tree assembly ∧
      tree.write (.ofText "a.out") assembly.image = .ok final) ∧
    ∃ report, FileTree.system.run options broken = (report, broken) ∧ report.exitCode = 2 ∧
      Rejects options (Macros.ofList [("X", "1")]) (FileTree.system.load broken)
        "JMP X\nJMP away\n" := by
  intro options tree broken
  have facts : (FileTree.system.run options tree).1.exitCode = 1 ∧
      (FileTree.system.run options tree).2 ≠ tree ∧
      (FileTree.system.run options broken).1.exitCode = 2 ∧
      (broken.readText (.ofText "m.asm")).toOption = some "JMP X\nJMP away\n" ∧
      Macros.readDefinition? "X=1" = some ("X", "1") := by
    decide +kernel
  obtain ⟨refused, changed, rejected, text, definition⟩ := facts
  have ran := (Prod.eta (FileTree.system.run options tree)).symm
  have ranBroken := (Prod.eta (FileTree.system.run options broken)).symm
  constructor
  · rcases (failed_run_writes_nothing _ options tree _ _ ran).2.1 refused with
      same | ⟨assembly, path, fault, assembles, asked, written, failed⟩
    · exact absurd same changed
    · exact ⟨_, _, assembly, ran, refused, assembles, written⟩
  · obtain ⟨unchanged, -, two⟩ := failed_run_writes_nothing _ options broken _ _ ranBroken
    have wellFormed : ∀ text ∈ options.definitions,
        (Macros.readDefinition? text).isSome = true := by
      simp [options, definition]
    have rejects := (two _ (toOption_eq_some_iff.mp text) wellFormed).mp rejected
    rw [unchanged (.inl rejected)] at ranBroken
    refine ⟨_, ranBroken, rejected, ?_⟩
    simpa only [options, List.filterMap_cons_some definition, List.filterMap_nil] using rejects

end ChipAsm.Command
