/-
# The course of a run

A run reads its input and its macros, judges the source, and writes files only if the
source is accepted. `Course` says what leads to each decision, without the messages on the
way, and `Delivered` what can become of the files once there is an assembly to deliver.

Files are left open here. A file system has a state, of which texts are read and which
writing changes; both may fail, and writing that fails leaves the state as it is. A run on
a file tree is a run on such a system.
-/

import ChipAsm.Command.Run
import ChipAsm.Proofs.InstructionSet

namespace ChipAsm.Command

/-! ## Decisions -/

/-- If all texts are definitions, then the macros are those that they define. -/
theorem macrosOf_eq_ok {options : Options}
    (each : ∀ text ∈ options.definitions, (Macros.readDefinition? text).isSome = true) :
    macrosOf options =
      .ok (Macros.ofList (options.definitions.filterMap Macros.readDefinition?)) := by
  rw [macrosOf, bind_eq_ok_iff]
  refine ⟨_, mapM_eq_ok_iff.mpr ?_, rfl⟩
  generalize options.definitions = texts at each
  induction texts with
  | nil => exact .nil
  | cons text rest ih =>
      obtain ⟨first, others⟩ := List.forall_mem_cons.mp each
      obtain ⟨definition, read⟩ := Option.isSome_iff_exists.mp first
      rw [List.filterMap_cons_some read]
      exact .cons (by rw [read]) (ih others)

/-- The text that the preprocessor makes of a source. -/
def preprocessed (options : Options) (macros : Macros) (load : Path → Option String)
    (source : String) : Except (List Diagnostic) String :=
  (runPreprocessor options macros load source).result options.input

/-- The source does not pass: preprocessing fails, or else parsing or assembling the
preprocessed text fails, where these are asked for. -/
inductive Rejects (options : Options) (macros : Macros) (load : Path → Option String)
    (source : String) : Prop
  | preprocessing {faults : List Diagnostic}
      (failed : preprocessed options macros load source = .error faults)
  | parsing {text : String} {faults : List Diagnostic} (full : options.preprocessOnly = false)
      (passed : preprocessed options macros load source = .ok text)
      (failed : parse options.input text = .error faults)
  | assembling {text : String} {statements : List Statement} {table : OpcodeTable}
      {halt : Halt Diagnostic} (full : options.preprocessOnly = false)
      (passed : preprocessed options macros load source = .ok text)
      (parsed : parse options.input text = .ok statements)
      (built : InstructionSet.table = .ok table)
      (failed : assemble table statements = .error halt)

/-- The source passes all stages and yields the assembly. -/
structure Yields (options : Options) (macros : Macros) (load : Path → Option String)
    (source : String) (assembly : Assembly) : Prop where
  full : options.preprocessOnly = false
  stages : ∃ text statements table, preprocessed options macros load source = .ok text ∧
    parse options.input text = .ok statements ∧ InstructionSet.table = .ok table ∧
    assemble table statements = .ok assembly

/-- What leads to each decision. -/
inductive Course (options : Options) (input : Except FileFault String)
    (load : Path → Option String) : Decision → Prop
  | unread {fault : FileFault} (failed : input = .error fault) :
      Course options input load (.stop 1 "")
  | undefined {source text : String} (read : input = .ok source)
      (failed : macrosOf options = .error text) : Course options input load (.stop 1 "")
  | rejected {source : String} {macros : Macros} (read : input = .ok source)
      (defined : macrosOf options = .ok macros) (rejects : Rejects options macros load source) :
      Course options input load (.stop 2 "")
  | printed {source text : String} {macros : Macros} (read : input = .ok source)
      (defined : macrosOf options = .ok macros) (only : options.preprocessOnly = true)
      (passed : preprocessed options macros load source = .ok text) :
      Course options input load (.stop 0 text)
  | accepted {source : String} {macros : Macros} {assembly : Assembly} (read : input = .ok source)
      (defined : macrosOf options = .ok macros)
      (yields : Yields options macros load source assembly) :
      Course options input load (.deliver assembly)

theorem decision_after (messages : List Message) (verdict : Verdict) :
    (verdict.after messages).decision = verdict.decision := rfl

/-- Messages aside, the verdict on statements is that of the assembler. -/
theorem decision_judgeStatements (table : OpcodeTable) (statements : List Statement) :
    (judgeStatements table statements).decision =
      match assemble table statements with
      | .ok assembly => .deliver assembly
      | .error (.fault _) => .stop 2 ""
      | .error .assertion => .stop assertionCode "" := by
  rw [judgeStatements, ← assemble]
  cases assemble table statements with
  | ok assembly => rfl
  | error halt => cases halt <;> rfl

/-- Messages aside, the verdict on a text is that of the parser and then the assembler. -/
theorem decision_judgeProgram {table : OpcodeTable} (built : InstructionSet.table = .ok table)
    (file : Path) (text : String) :
    (judgeProgram file text).decision =
      match parse file text with
      | .ok statements => (judgeStatements table statements).decision
      | .error _ => .stop 2 "" := by
  rw [judgeProgram, built, judgeBy, decision_after, judgeText]
  cases parse file text with
  | error faults => rfl
  | ok statements => rfl

/-- Messages aside, the verdict on a source is that on the preprocessed text. -/
theorem decision_judgeSource (options : Options) (macros : Macros) (load : Path → Option String)
    (source : String) :
    (judgeSource options macros load source).decision =
      match preprocessed options macros load source with
      | .ok text =>
          if options.preprocessOnly then .stop 0 text
          else (judgeProgram options.input text).decision
      | .error _ => .stop 2 "" := by
  rw [judgeSource, ← preprocessed]
  cases preprocessed options macros load source with
  | error faults => rfl
  | ok text =>
      dsimp only
      rw [apply_ite Verdict.decision, decision_after]

/-- The verdict on a source follows the course of a run. -/
theorem course_judgeSource {options : Options} {input : Except FileFault String} {source : String}
    {macros : Macros} (load : Path → Option String) (read : input = .ok source)
    (defined : macrosOf options = .ok macros) :
    Course options input load (judgeSource options macros load source).decision := by
  rw [decision_judgeSource]
  cases passed : preprocessed options macros load source with
  | error faults => exact .rejected read defined (.preprocessing passed)
  | ok text =>
      cases asked : options.preprocessOnly with
      | true => exact .printed read defined asked passed
      | false =>
          -- The definitions of the machine are well formed and their words keep the fixed bits,
          -- so they never stop a run.
          obtain ⟨table, built⟩ := InstructionSet.exists_table
          simp only [Bool.false_eq_true, if_false, decision_judgeProgram built]
          cases parsed : parse options.input text with
          | error faults => exact .rejected read defined (.parsing asked passed parsed)
          | ok statements =>
              simp only [decision_judgeStatements]
              cases assembled : assemble table statements with
              | error halt =>
                  cases halt with
                  | fault diagnostic =>
                      exact .rejected read defined (.assembling asked passed parsed built assembled)
                  | assertion =>
                      exact absurd assembled (InstructionSet.assemble_ne_assertion built statements)
              | ok assembly =>
                  exact .accepted read defined
                    ⟨asked, text, statements, table, passed, parsed, built, assembled⟩

/-- The verdict on a run follows its course. -/
theorem course_judge (options : Options) (input : Except FileFault String)
    (load : Path → Option String) :
    Course options input load (judge options input load).decision := by
  cases input with
  | error fault => exact .unread rfl
  | ok source =>
      rw [judge]
      cases defined : macrosOf options with
      | error text => exact .undefined rfl defined
      | ok macros => exact course_judgeSource load rfl defined

/-! ## Files -/

/-- Files as a run finds them. Writing that fails changes nothing. -/
structure FileSystem (σ : Type) where
  /-- The text of the file at a path. -/
  readText : σ → Path → Except FileFault String
  /-- The state after a file was written. -/
  write : σ → Path → Contents → Except FileFault σ

namespace FileSystem

variable {σ : Type}

/-- Writes a file of a state that is kept. -/
def writeFile (system : FileSystem σ) (path : Path) (contents : Contents) :
    StateM σ (Except FileFault Unit) :=
  fun state =>
    match system.write state path contents with
    | .ok state => (.ok (), state)
    | .error fault => (.error fault, state)

theorem writeFile_of_ok {system : FileSystem σ} {state next : σ} {path : Path}
    {contents : Contents} (written : system.write state path contents = .ok next) :
    system.writeFile path contents state = (.ok (), next) := by
  rw [writeFile, written]

theorem writeFile_of_error {system : FileSystem σ} {state : σ} {path : Path}
    {contents : Contents} {fault : FileFault}
    (failed : system.write state path contents = .error fault) :
    system.writeFile path contents state = (.error fault, state) := by
  rw [writeFile, failed]

/-- The texts that can be included. -/
def load (system : FileSystem σ) (state : σ) (path : Path) : Option String :=
  (system.readText state path).toOption

/-- A run: how it ends, and the files afterwards. -/
def run (system : FileSystem σ) (options : Options) (state : σ) : Report × σ :=
  carryOut system.writeFile options
    (judge options (system.readText state options.input) (system.load state)) state

/-- The input of a run yields the assembly. -/
def Assembles (system : FileSystem σ) (options : Options) (state : σ) (assembly : Assembly) :
    Prop :=
  ∃ source macros, system.readText state options.input = .ok source ∧
    macrosOf options = .ok macros ∧ Yields options macros (system.load state) source assembly

end FileSystem

/-- File trees as a file system. -/
def FileTree.system : FileSystem FileTree where
  readText := FileTree.readText
  write := FileTree.write

theorem runOn_eq_run (options : Options) (tree : FileTree) :
    runOn options tree = FileTree.system.run options tree := by
  have same : writeTree = FileTree.system.writeFile := by
    funext path contents tree
    simp only [writeTree, FileSystem.writeFile, FileTree.system]
    cases tree.write path contents with
    | ok tree => rfl
    | error fault => rfl
  have load : (fun path => (tree.readText path).toOption) = FileTree.system.load tree := rfl
  rw [runOn, same, FileSystem.run, load]
  rfl

/-- The contents of the listing file. -/
def listingContents (assembly : Assembly) : Contents :=
  (renderListing assembly.listing).toUTF8.data

/-- What can become of the files when an assembly is delivered, with the exit code. -/
inductive Delivered {σ : Type} (system : FileSystem σ) (options : Options) (assembly : Assembly)
    (state : σ) : UInt32 → σ → Prop
  | refused {fault : FileFault}
      (failed : system.write state options.output assembly.image = .error fault) :
      Delivered system options assembly state 1 state
  | unlisted {final : σ} (written : system.write state options.output assembly.image = .ok final)
      (asked : options.listing = none) : Delivered system options assembly state 0 final
  | listingRefused {final : σ} {path : Path} {fault : FileFault}
      (written : system.write state options.output assembly.image = .ok final)
      (asked : options.listing = some path)
      (failed : system.write final path (listingContents assembly) = .error fault) :
      Delivered system options assembly state 1 final
  | listed {middle final : σ} {path : Path}
      (written : system.write state options.output assembly.image = .ok middle)
      (asked : options.listing = some path)
      (listed : system.write middle path (listingContents assembly) = .ok final) :
      Delivered system options assembly state 0 final

section

variable {σ : Type} {system : FileSystem σ} {options : Options} {assembly : Assembly}

/-- What is delivered is what the input yields. -/
theorem Course.assembles {state : σ}
    (course : Course options (system.readText state options.input) (system.load state)
      (.deliver assembly)) : system.Assembles options state assembly := by
  cases course with
  | accepted read defined yields => exact ⟨_, _, read, defined, yields⟩

theorem delivered_deliverListing {state middle : σ}
    (written : system.write state options.output assembly.image = .ok middle)
    (messages : List Message) :
    Delivered system options assembly state
      (deliverListing system.writeFile options assembly messages middle).1.exitCode
      (deliverListing system.writeFile options assembly messages middle).2 := by
  rw [deliverListing]
  cases asked : options.listing with
  | none => exact .unlisted written asked
  | some path =>
      simp only [bind, StateT.bind]
      cases listed : system.write middle path (listingContents assembly) with
      | error fault =>
          rw [← listingContents, FileSystem.writeFile_of_error listed]
          exact .listingRefused written asked listed
      | ok final =>
          rw [← listingContents, FileSystem.writeFile_of_ok listed]
          exact .listed written asked listed

/-- Delivering an assembly has one of the outcomes of `Delivered`. -/
theorem delivered_deliver (state : σ) (messages : List Message) :
    Delivered system options assembly state
      (deliver system.writeFile options assembly messages state).1.exitCode
      (deliver system.writeFile options assembly messages state).2 := by
  simp only [deliver, bind, StateT.bind]
  cases written : system.write state options.output assembly.image with
  | error fault =>
      rw [FileSystem.writeFile_of_error written]
      exact .refused written
  | ok middle =>
      rw [FileSystem.writeFile_of_ok written]
      exact delivered_deliverListing written _

/-- A run either stops by its verdict and leaves the files as they are, or it delivers an
assembly. -/
theorem run_cases (system : FileSystem σ) (options : Options) (state : σ) {report : Report}
    {final : σ} (ran : system.run options state = (report, final)) :
    (∃ output, Course options (system.readText state options.input) (system.load state)
        (.stop report.exitCode output) ∧ final = state) ∨
      ∃ assembly, system.Assembles options state assembly ∧
        Delivered system options assembly state report.exitCode final := by
  have course := course_judge options (system.readText state options.input) (system.load state)
  rw [FileSystem.run] at ran
  generalize judge options (system.readText state options.input) (system.load state) = verdict
    at course ran
  obtain ⟨messages, decision⟩ := verdict
  cases decision with
  | stop exitCode output =>
      cases ran
      exact .inl ⟨output, course, rfl⟩
  | deliver assembly =>
      have delivered : Delivered system options assembly state _ _ :=
        delivered_deliver state messages
      change deliver system.writeFile options assembly messages state = (report, final) at ran
      rw [ran] at delivered
      exact .inr ⟨assembly, course.assembles, delivered⟩

end

end ChipAsm.Command
