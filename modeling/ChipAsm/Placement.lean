/-
# Placing instructions

What an instruction does to a sink. `SEEK` moves forward, `DUP` repeats another
instruction, the data directives insert bytes, and everything else is a machine
instruction of one word. After each instruction, repeated ones included, the
output has to end inside the address space.
-/

import ChipAsm.Data
import ChipAsm.Sink
import ChipAsm.Text.Upper

namespace ChipAsm

/-- The instructions that are not machine instructions. -/
inductive Directive
  | seek
  | repetition
  | data (kind : DataKind)
  deriving DecidableEq, Repr

/-- The directive with this mnemonic. -/
def Directive.ofMnemonic? (mnemonic : String) : Option Directive :=
  if mnemonic = "SEEK" then some .seek
  else if mnemonic = "DUP" then some .repetition
  else (DataKind.ofMnemonic? mnemonic).map .data

namespace Placement

variable {σ : Type} [Sink σ]

/-- Moves the sink to the target of a `SEEK`, which lies neither behind the
current offset nor past the address space. -/
def seek (instruction : Instruction) (sink : σ) : Outcome (Halt Diagnostic) σ :=
  match instruction.arguments with
  | [argument] =>
      match Text.natural? argument with
      | none => .stopped sink (.fault (instruction.malformed .targetNotNatural))
      | some target =>
          let current := Sink.position sink
          if imageLimit < target then
            .stopped sink (.fault (instruction.diagnostic
              (.outOfRange .seekTarget target (signedOffset current) imageLimit)))
          else if target < current then
            .stopped sink (.fault (instruction.diagnostic (.backwardSeek current target)))
          else .done (Sink.seek sink target)
  | _ => .stopped sink (.fault (instruction.malformed .targetCount))

/-- Inserts the bytes of a data directive. -/
def insert (instruction : Instruction) (kind : DataKind) (sink : σ) : Outcome (Halt Diagnostic) σ :=
  match instruction.bytesOf kind with
  | .error diagnostic => .stopped sink (.fault diagnostic)
  | .ok bytes => (Sink.emit sink bytes).explain fun fault => .fault (instruction.diagnostic fault)

/-- Takes a step up to `times` times. The first step that does not move the sink is
the last, because every later one would do as little. -/
def repeatMoving (step : σ → Outcome (Halt Diagnostic) σ) :
    (times : Nat) → σ → Outcome (Halt Diagnostic) σ
  | 0, sink => .done sink
  | times + 1, sink =>
      let before := Sink.position sink
      match step sink with
      | ⟨last, some halt⟩ => .stopped last halt
      | ⟨next, none⟩ =>
          if Sink.position next = before then .done next else repeatMoving step times next

/-- Stops if the output has left the address space. -/
def checkLimit (instruction : Instruction) (sink : σ) : Outcome (Halt Diagnostic) σ :=
  let current := Sink.position sink
  if imageLimit < current then
    .stopped sink (.fault (instruction.diagnostic
      (.outOfRange .outputOffset (signedOffset current) 0 imageLimit)))
  else .done sink

/-- Places the instruction that consists of the given parts. -/
def place (source : Place) (mnemonic : String) (arguments : List String) (sink : σ) :
    Outcome (Halt Diagnostic) σ :=
  let instruction : Instruction := { mnemonic, arguments, place := source }
  let outcome : Outcome (Halt Diagnostic) σ :=
    match Directive.ofMnemonic? mnemonic with
    | none => Sink.instruction sink instruction
    | some .seek => seek instruction sink
    | some (.data kind) => insert instruction kind sink
    | some .repetition =>
        match arguments with
        | times :: inner :: rest =>
            match Text.natural? times with
            | none => .stopped sink (.fault (instruction.malformed .timesNotNatural))
            | some count => repeatMoving (place source (Text.upper inner) rest) count sink
        | _ => .stopped sink (.fault (instruction.malformed .nothingToRepeat))
  outcome.andThen (checkLimit instruction)
termination_by structural arguments

end Placement

/-- Places an instruction. -/
def Instruction.perform {σ : Type} [Sink σ] (instruction : Instruction) (sink : σ) :
    Outcome (Halt Diagnostic) σ :=
  Placement.place instruction.place instruction.mnemonic instruction.arguments sink

end ChipAsm
