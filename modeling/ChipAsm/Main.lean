/-
# The command

Reads the command line, the input and the files it includes, and writes the image
and the listing. Every decision is made in `ChipAsm.Command.Run`.
-/

import ChipAsm.Command.Run

namespace ChipAsm.Command

/-- The summary of the command line. -/
def usage : String :=
  String.join [
    "Usage: chipasm [OPTIONS] INPATH\n\n",
    "Turns assembly source into a flat binary image, loaded at address 0.\n\n",
    "  -v, --verbose              Report progress; twice for every detail\n",
    "  -o, --out OUTPATH          Where the image goes (a.out)\n",
    "  -l, --list LISTPATH        Where a listing goes\n",
    "  -D, --define NAME[=VALUE]  Define a macro; the value defaults to 1\n",
    "  -I, --include DIR          Search a directory for included files\n",
    "  -E, --preprocess-only      Print the preprocessed source and stop\n",
    "  -h, --help                 Print this summary\n",
    "  -V, --version              Print the version\n"]

/-- What is printed if the command line does not lead to a run. -/
def UsageFault.text : UsageFault → String
  | helpRequested => usage
  | versionRequested => "chipasm 1.0\n"
  | nothingGiven => usage
  | inputMissing => "error: no input path was given\n\n" ++ usage
  | unknownArgument => "error: unknown argument\n\n" ++ usage
  | valueMissing => "error: an option or path has no value\n\n" ++ usage
  | valueUnexpected => "error: an option has a value it does not take\n\n" ++ usage
  | valueUnreadable => "error: a definition is not valid UTF-8\n\n" ++ usage
  | repeated => "error: an option was given more than once\n\n" ++ usage

/-- The fault with this code, which some calls of the system report negated. -/
def faultOfCode (code : UInt32) (details : String) : FileFault :=
  let number := if code < 0x80000000 then code.toNat else (0 - code).toNat
  match number with
  | 2 => .notFound
  | 20 => .notDirectory
  | 21 => .isDirectory
  | 36 => .nameTooLong
  | other => .system details other

/-- The fault that an error of the system amounts to. -/
def faultOf : IO.Error → FileFault
  | .noFileOrDirectory _ _ _ => .notFound
  | .inappropriateType _ code details => faultOfCode code details
  | .permissionDenied _ code details => faultOfCode code details
  | .invalidArgument _ code details => faultOfCode code details
  | other => .system other.toString 0

/-- The text of a file. Paths come from texts here, so what shows a path names its file. -/
def readText (path : Path) : IO (Except FileFault String) := do
  match ← (IO.FS.readBinFile path.shown).toBaseIO with
  | .error fault => return .error (faultOf fault)
  | .ok bytes =>
      match String.fromUTF8? bytes with
      | some text => return .ok text
      | none => return .error .notText

/-- Writes a file. -/
def writeFile (path : Path) (contents : Contents) : IO (Except FileFault Unit) := do
  match ← (IO.FS.writeBinFile path.shown ⟨contents⟩).toBaseIO with
  | .error fault => return .error (faultOf fault)
  | .ok _ => return .ok ()

/-- The texts of all files that the preprocessor looks for. Each round reads the
files that became known in the round before. -/
partial def gather (options : Options) (source : String) (known : List (Path × Option String)) :
    IO (List (Path × Option String)) := do
  let load := fun path => (known.lookup path).join
  let isNew := fun path => (known.lookup path).isNone
  match (lookedFor options load source).filter isNew with
  | [] => return known
  | fresh =>
      let texts ← fresh.eraseDups.mapM fun path => do return (path, (← readText path).toOption)
      gather options source (texts ++ known)

/-- Runs the assembler with the given options. -/
def execute (options : Options) : IO UInt32 := do
  let input ← readText options.input
  let known ← match input with
    | .ok source => gather options source []
    | .error _ => pure []
  let verdict := judge options input fun path => (known.lookup path).join
  let report ← carryOut writeFile options verdict
  IO.eprint (renderMessages options.verbosity report.messages)
  IO.print report.output
  return report.exitCode

end ChipAsm.Command

open ChipAsm.Command in
/-- Runs the command with the arguments of its command line. -/
def main (arguments : List String) : IO UInt32 := do
  match Options.parse (arguments.map ChipAsm.Text.utf8) with
  | .ok options => execute options
  | .error fault =>
      if fault.exitCode = 0 then IO.print fault.text else IO.eprint fault.text
      return fault.exitCode
