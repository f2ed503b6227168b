import Dlx.Assembly.Assemble
import Dlx.Assembly.Batch
import Dlx.Assembly.Directive
import Dlx.Assembly.Instruction
import Dlx.Assembly.Layout
import Dlx.Assembly.Log
import Dlx.Assembly.Operand
import Dlx.Assembly.Pool
import Dlx.Assembly.Row
import Dlx.Assembly.Symbols
import Dlx.Assembly.Writer
import Dlx.Command.FileTree
import Dlx.Command.HexFile
import Dlx.Command.Listing
import Dlx.Command.Options
import Dlx.Command.Path
import Dlx.Command.Run
import Dlx.Command.Status
import Dlx.Fault
import Dlx.Isa.Builtin
import Dlx.Isa.Catalog
import Dlx.Isa.Shape
import Dlx.Main
import Dlx.Record
import Dlx.Source.Line
import Dlx.Source.Token
import Dlx.Text.Binary
import Dlx.Text.Blank
import Dlx.Text.Bytes
import Dlx.Text.Display
import Dlx.Text.Lines
import Dlx.Text.Literal
import Dlx.Text.Numeral
import Dlx.Text.Printable
import Dlx.Text.Quoted
import Dlx.Text.Table
import Dlx.Text.Template
import Dlx.Text.Utf8
import Dlx.UntilError
import Dlx.Word
import Dlx.Proofs.Outcome
import Dlx.Proofs.Word
import Dlx.Proofs.Encoding
import Dlx.Proofs.Counter
import Dlx.Proofs.Sizes
import Dlx.Proofs.Rows
import Dlx.Proofs.Symbols
import Dlx.Proofs.Branch
import Dlx.Proofs.Spans
import Dlx.Proofs.Records
import Dlx.Proofs.Output
import Dlx.Proofs.Comments
import Dlx.Proofs.Grammar
import Dlx.Proofs.Unambiguous
import Dlx.Proofs.Streaming
import Dlx.Proofs.Labels
import Dlx.Proofs.Shift
import Dlx.Proofs.LabelUses
import Dlx.Proofs.Relocation
import Dlx.Proofs.Schedules
import Dlx.Proofs.Batches
import Dlx.Proofs.Effects
import Dlx.Proofs.KeptOutputs
import Dlx.Proofs.FirstError
import Dlx.Proofs.Appending
import Dlx.Proofs.Acceptance
import Dlx.Proofs.Retelling
import Dlx.Proofs.Renumbering
import Dlx.Proofs.Tokens
import Dlx.Proofs.QuietLines
import Dlx.Proofs.OwnLines
import Dlx.Proofs.Quotation
import Dlx.Proofs.Relexing
import Dlx.Proofs.Positional
import Dlx.Proofs.Numerals
import Dlx.Proofs.StringLiterals
import Dlx.Proofs.Registers
import Dlx.Proofs.MemoryOperands
import Dlx.Proofs.SectionAddresses
import Dlx.Proofs.Loading
import Dlx.Proofs.Alignment
import Dlx.Proofs.Verification
import Dlx.Proofs.Fields
