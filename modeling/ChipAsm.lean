import ChipAsm.Assembly
import ChipAsm.Command.Run
import ChipAsm.InstructionSet
import ChipAsm.Main
import ChipAsm.Preprocess
import ChipAsm.Statement.Parse
import ChipAsm.Proofs.Outcome
import ChipAsm.Proofs.Placement.Nesting
import ChipAsm.Proofs.Placement.Movement
import ChipAsm.Proofs.Output.Writing
import ChipAsm.Proofs.Placement.Repetition
import ChipAsm.Proofs.Assembly.Binding
import ChipAsm.Proofs.Encoding.Pieces
import ChipAsm.Proofs.Encoding.Refusal
import ChipAsm.Proofs.Assembly.Agreement
import ChipAsm.Proofs.Assembly.Assertion
import ChipAsm.Proofs.Assembly.Listing
import ChipAsm.Proofs.Encoding.Meaning
import ChipAsm.Proofs.Opcode.Span
import ChipAsm.Proofs.Opcode.Layout
import ChipAsm.Proofs.Encoding.Reading
import ChipAsm.Proofs.InstructionSet
import ChipAsm.Proofs.Encoding.Acceptance
import ChipAsm.Proofs.Placement.Correspondence
import ChipAsm.Proofs.Text.Numeral
import ChipAsm.Proofs.Encoding.Reference
import ChipAsm.Proofs.Assembly.Substitution
import ChipAsm.Proofs.Assembly.Reference
import ChipAsm.Proofs.Statement.Parts
import ChipAsm.Proofs.Assembly.Labels
import ChipAsm.Proofs.Assembly.Extension
import ChipAsm.Proofs.Preprocess.Marker
import ChipAsm.Proofs.Preprocess.Origin
import ChipAsm.Proofs.Preprocess.Place
import ChipAsm.Proofs.Preprocess.Inclusion
import ChipAsm.Proofs.Preprocess.Idempotence
import ChipAsm.Proofs.Preprocess.Disguise
import ChipAsm.Proofs.Encoding.FixedBits
import ChipAsm.Proofs.Command.Course
import ChipAsm.Proofs.Command.Failure
import ChipAsm.Proofs.Command.Delivery
import ChipAsm.Proofs.Placement.Tower
import ChipAsm.Proofs.Encoding.Overlap
import ChipAsm.Proofs.InstructionSet.Ambiguity
import ChipAsm.Proofs.InstructionSet.Shorthand
import ChipAsm.Proofs.Encoding.Template
import ChipAsm.Proofs.Placement.Effort
import ChipAsm.Proofs.Preprocess.Conditional
import ChipAsm.Proofs.Preprocess.Comment
import ChipAsm.Proofs.Preprocess.Completeness
import ChipAsm.Proofs.Data
import ChipAsm.Proofs.Statement.Rendering
import ChipAsm.Proofs.Token.Account
import ChipAsm.Proofs.Operand.Index
import ChipAsm.Proofs.Preprocess.Bound
