/-
# Runs that succeed

A run that succeeds has written the image and, if one was asked for, the listing, in this
order. So the listing is always found where it was asked for, while the image is found only
if the listing did not go to the same file: two paths that lead to one file are not told
apart.
-/

import ChipAsm.Proofs.Command.Course
import ChipAsm.Proofs.Command.FileTree

namespace ChipAsm.Command

/-- A run that succeeds, and not only in preprocessing, has delivered an assembly. -/
theorem delivered_of_success {σ : Type} {system : FileSystem σ} {options : Options}
    {state final : σ} {report : Report} (ran : system.run options state = (report, final))
    (full : options.preprocessOnly = false) (success : report.exitCode = 0) :
    ∃ assembly, system.Assembles options state assembly ∧
      Delivered system options assembly state 0 final := by
  rcases run_cases system options state ran with ⟨output, course, -⟩ | delivered
  · rw [success] at course
    cases course with
    | printed _ _ only _ => cases full.symm.trans only
  · rwa [success] at delivered

/-- After a run that succeeds the listing is found at its path. The image is found at its path
too, unless the path of the listing leads to the same file. All other files are as they
were. The null device keeps nothing of what is written to it. -/
theorem successful_run_delivers (options : Options) (tree : FileTree) (report : Report)
    (final : FileTree) (ran : runOn options tree = (report, final))
    (full : options.preprocessOnly = false) (success : report.exitCode = 0) :
    ∃ assembly, FileTree.system.Assembles options tree assembly ∧
      (final.resolve options.output ≠ .ok FileTree.nullDevice →
        (∀ path, options.listing = some path →
          final.resolve path ≠ final.resolve options.output) →
        final.read options.output = .ok assembly.image) ∧
      (∀ path, options.listing = some path → final.resolve path ≠ .ok FileTree.nullDevice →
        final.read path = .ok (listingContents assembly)) ∧
      ∀ names, final.resolve options.output ≠ .ok names →
        (∀ path, options.listing = some path → final.resolve path ≠ .ok names) →
        final.node names = tree.node names := by
  rw [runOn_eq_run] at ran
  obtain ⟨assembly, assembles, delivered⟩ := delivered_of_success ran full success
  refine ⟨assembly, assembles, ?_⟩
  cases delivered with
  | unlisted written asked =>
      obtain ⟨imageNames, writes⟩ := FileTree.exists_writes written
      have found := writes.resolve_next
      refine ⟨?_, ?_, ?_⟩
      · intro kept _
        exact writes.read_next fun isNull => kept (found.trans (congrArg _ isNull))
      · intro path sameAsked
        cases asked.symm.trans sameAsked
      · intro names differ _
        exact writes.node_next_of_ne fun same => differ (found.trans (congrArg _ same.symm))
  | @listed middle _ path written asked listed =>
      obtain ⟨imageNames, first⟩ := FileTree.exists_writes written
      obtain ⟨listingNames, second⟩ := FileTree.exists_writes listed
      have imageFound := second.sameDirectories.resolve first.resolve_next
      have listingFound := second.resolve_next
      refine ⟨?_, ?_, ?_⟩
      · intro kept apart
        have differ : imageNames ≠ listingNames := by
          rintro rfl
          exact apart path asked (listingFound.trans imageFound.symm)
        rw [FileTree.read_eq_ok_iff]
        refine ⟨imageNames, imageFound, ?_⟩
        rw [second.node_next_of_ne differ]
        exact first.node_next fun isNull => kept (imageFound.trans (congrArg _ isNull))
      · intro samePath sameAsked kept
        cases asked.symm.trans sameAsked
        exact second.read_next fun isNull => kept (listingFound.trans (congrArg _ isNull))
      · intro names notImage notListing
        have afterListing := second.node_next_of_ne fun same =>
          notListing path asked (listingFound.trans (congrArg _ same.symm))
        have afterImage := first.node_next_of_ne fun same =>
          notImage (imageFound.trans (congrArg _ same.symm))
        exact afterListing.trans afterImage

/-- An image that goes to the working directory by way of another directory, into which the
listing goes. -/
theorem files_delivered_through_directories :
    let options : Options :=
      { input := .ofText "m.asm", output := .ofText "lists/../a.out",
        listing := some (.ofText "./lists//m.lst"), definitions := ["X=1"], directories := [],
        preprocessOnly := false, verbosity := .errors }
    let tree : FileTree := ⟨[([Text.utf8 "m.asm"], "DB X\n".toUTF8.data),
      ([Text.utf8 "lists", Text.utf8 "old"], #[])]⟩
    ∃ report final assembly, runOn options tree = (report, final) ∧ report.exitCode = 0 ∧
      FileTree.system.Assembles options tree assembly ∧
      final.read (.ofText "lists/../a.out") = .ok assembly.image ∧
      final.read (.ofText "./lists//m.lst") = .ok (listingContents assembly) ∧
      final.node [Text.utf8 "lists", Text.utf8 "old"] = .file #[] := by
  intro options tree
  have facts : (runOn options tree).1.exitCode = 0 ∧
      ((runOn options tree).2.resolve (.ofText "lists/../a.out")).toOption =
        some [Text.utf8 "a.out"] ∧
      ((runOn options tree).2.resolve (.ofText "./lists//m.lst")).toOption =
        some [Text.utf8 "lists", Text.utf8 "m.lst"] := by
    decide +kernel
  simp only [toOption_eq_some_iff] at facts
  obtain ⟨success, imageFound, listingFound⟩ := facts
  have ran := (Prod.eta (runOn options tree)).symm
  obtain ⟨assembly, assembles, image, listing, others⟩ :=
    successful_run_delivers options tree _ _ ran rfl success
  refine ⟨_, _, assembly, ran, success, assembles, ?_, ?_, ?_⟩
  · apply image
    · rw [imageFound]
      decide
    · rintro _ ⟨⟩
      rw [imageFound, listingFound]
      decide
  · apply listing _ rfl
    rw [listingFound]
    decide
  · apply others
    · rw [imageFound]
      decide
    · rintro _ ⟨⟩
      rw [listingFound]
      decide

/-- The assembly that is to be delivered. -/
def Decision.assembly? : Decision → Option Assembly
  | .stop _ _ => none
  | .deliver assembly => some assembly

theorem Decision.eq_deliver {decision : Decision} {assembly : Assembly}
    (delivers : decision.assembly? = some assembly) : decision = .deliver assembly := by
  cases decision with
  | stop exitCode output => cases delivers
  | deliver same => rw [Option.some.inj delivers]

/-- The path of the listing leads to the image, which it replaces although the run succeeds. -/
theorem listing_replaces_image :
    let options : Options :=
      { input := .ofText "m.asm", output := Options.defaultOutput,
        listing := some (.ofText "a.out"), definitions := [], directories := [],
        preprocessOnly := false, verbosity := .errors }
    let tree : FileTree := ⟨[([Text.utf8 "m.asm"], "DB 1\n".toUTF8.data)]⟩
    ∃ report final assembly, runOn options tree = (report, final) ∧ report.exitCode = 0 ∧
      FileTree.system.Assembles options tree assembly ∧
      final.read options.output ≠ .ok assembly.image := by
  intro options tree
  have facts : (runOn options tree).1.exitCode = 0 ∧
      ((runOn options tree).2.read options.output).toOption ≠ some #[1] ∧
      (judge options (FileTree.system.readText tree options.input)
        (FileTree.system.load tree)).decision.assembly?.any (fun assembly =>
          decide (assembly.image = #[1])) = true := by
    decide +kernel
  obtain ⟨success, replaced, decided⟩ := facts
  have course := course_judge options (FileTree.system.readText tree options.input)
    (FileTree.system.load tree)
  obtain ⟨assembly, delivers, image⟩ := (Option.any_eq_true _ _).mp decided
  rw [Decision.eq_deliver delivers] at course
  refine ⟨_, _, assembly, (Prod.eta (runOn options tree)).symm, success, course.assembles, ?_⟩
  rw [of_decide_eq_true image]
  intro kept
  exact replaced (toOption_eq_some_iff.mpr kept)

end ChipAsm.Command
