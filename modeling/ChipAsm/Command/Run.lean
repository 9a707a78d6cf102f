/-
# A run of the assembler

A verdict is carried out by writing the image and then the listing. How a file is
written is left open, so that the same steps run on a file tree and on a disk.
-/

import ChipAsm.Command.FileTree
import ChipAsm.Command.Verdict

namespace ChipAsm.Command

/-- How a run ends. -/
structure Report where
  exitCode : UInt32
  /-- What goes to standard output. -/
  output : String
  messages : List Message
  deriving Repr

/-- Writes the listing, if one is asked for, after the messages so far. -/
def deliverListing {m : Type → Type} [Monad m]
    (write : Path → Contents → m (Except FileFault Unit)) (options : Options)
    (assembly : Assembly) (messages : List Message) : m Report := do
  match options.listing with
  | none => return { exitCode := 0, output := "", messages }
  | some path =>
      match ← write path (renderListing assembly.listing).toUTF8.data with
      | .error fault =>
          return { exitCode := 1, output := "",
                   messages := messages ++ [errorMessage (path.diagnostic fault).message] }
      | .ok _ =>
          return { exitCode := 0, output := "",
                   messages := messages ++
                     [infoMessage s!"The listing file was output at '{path.shown}'."] }

/-- Writes the image and then the listing. -/
def deliver {m : Type → Type} [Monad m]
    (write : Path → Contents → m (Except FileFault Unit)) (options : Options)
    (assembly : Assembly) (messages : List Message) : m Report := do
  match ← write options.output assembly.image with
  | .error fault =>
      return { exitCode := 1, output := "",
               messages := messages ++ [errorMessage (options.output.diagnostic fault).message] }
  | .ok _ =>
      let size := assembly.image.size
      let labels := assembly.symbols.size
      deliverListing write options assembly (messages ++
        [infoMessage s!"Successfully assembled {size} bytes with {labels} labels.",
          infoMessage s!"The binary was output at '{options.output.shown}'."])

/-- Carries out a verdict. -/
def carryOut {m : Type → Type} [Monad m]
    (write : Path → Contents → m (Except FileFault Unit)) (options : Options)
    (verdict : Verdict) : m Report :=
  match verdict.decision with
  | .stop exitCode output => pure { exitCode, output, messages := verdict.messages }
  | .deliver assembly => deliver write options assembly verdict.messages

/-- Writes a file of a tree that is kept as state. -/
def writeTree (path : Path) (contents : Contents) : StateM FileTree (Except FileFault Unit) :=
  fun tree =>
    match tree.write path contents with
    | .ok tree => (.ok (), tree)
    | .error fault => (.error fault, tree)

/-- A run on a file tree: how it ends, and the tree afterwards. -/
def runOn (options : Options) (tree : FileTree) : Report × FileTree :=
  let load := fun path => (tree.readText path).toOption
  carryOut writeTree options (judge options (tree.readText options.input) load) tree

end ChipAsm.Command
