import Tabletop.CommandLine
import Tabletop.Cursor
import Tabletop.Dictionary
import Tabletop.Direction
import Tabletop.Error
import Tabletop.Instruction
import Tabletop.Instruction.Decode
import Tabletop.Instruction.Listing
import Tabletop.Journal
import Tabletop.Location
import Tabletop.Machine
import Tabletop.Machine.Builtin
import Tabletop.Machine.Run
import Tabletop.Main
import Tabletop.Output
import Tabletop.Program
import Tabletop.Program.Compile
import Tabletop.Proofs.Acceptance
import Tabletop.Proofs.Context
import Tabletop.Proofs.Correctness
import Tabletop.Proofs.Decoding
import Tabletop.Proofs.Effect
import Tabletop.Proofs.Encoding
import Tabletop.Proofs.Grammar
import Tabletop.Proofs.Layout
import Tabletop.Proofs.Lexemes
import Tabletop.Proofs.Loop
import Tabletop.Proofs.Meaning
import Tabletop.Proofs.RoundTrip
import Tabletop.Proofs.Scanning
import Tabletop.Proofs.Steps
import Tabletop.Proofs.Straight
import Tabletop.Proofs.Termination
import Tabletop.Proofs.WellFormed
import Tabletop.Reader
import Tabletop.Robot
import Tabletop.Stack
import Tabletop.Table
import Tabletop.Text.Blank
import Tabletop.Text.CodePoints
import Tabletop.Text.DefaultIgnorable
import Tabletop.Text.GraphemeMarks
import Tabletop.Text.Numeral
import Tabletop.Text.Quoted
import Tabletop.Text.Unprintable
import Tabletop.Text.Utf8
import Tabletop.Token
import Tabletop.Token.Scan
import Tabletop.Value
import Tabletop.Word
import Tabletop.Proofs.Surroundings
import Tabletop.Proofs.Confinement
import Tabletop.Proofs.Programs
import Tabletop.Proofs.Isolation
import Tabletop.Proofs.Transparency
import Tabletop.Proofs.Legible
import Tabletop.Proofs.Spacing
import Tabletop.Proofs.Literals
import Tabletop.Proofs.Relocation
import Tabletop.Proofs.OneLine
import Tabletop.Proofs.Places
import Tabletop.Proofs.Concatenation
import Tabletop.Proofs.Expressions
import Tabletop.Proofs.Orders
import Tabletop.Proofs.Peak
import Tabletop.Proofs.Quoting
import Tabletop.Proofs.Listing
import Tabletop.Proofs.Lookahead
import Tabletop.Proofs.Reads
import Tabletop.Proofs.Settings
import Tabletop.Proofs.Vocabulary
import Tabletop.Token.Read
import Tabletop.Proofs.Reading
import Tabletop.Program.Emit
import Tabletop.Proofs.Emission
