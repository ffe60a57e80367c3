import Octal.Arguments
import Octal.Arithmetic
import Octal.Batch
import Octal.Calculator
import Octal.Calendar
import Octal.Command
import Octal.Config
import Octal.Config.Decode
import Octal.Config.Load
import Octal.Diagnostic
import Octal.Disk
import Octal.Error
import Octal.Evaluation
import Octal.Expr
import Octal.Invocation
import Octal.Log
import Octal.Main
import Octal.Numeral
import Octal.Operator
import Octal.Path
import Octal.Proofs.Grammar
import Octal.Registry
import Octal.Repl
import Octal.Scope
import Octal.Session
import Octal.Source
import Octal.Statement.Parse
import Octal.Text.Base64
import Octal.Text.Blank
import Octal.Text.Decimal
import Octal.Text.Digit
import Octal.Text.Integer
import Octal.Text.Line
import Octal.Text.LowerCase
import Octal.Text.Printable
import Octal.Text.Quoted
import Octal.Text.Rune
import Octal.Token
import Octal.Token.Scan
import Octal.Transcript
import Octal.Transcript.Archive
import Octal.Transcript.Database
import Octal.Transcript.Entry
import Octal.Transcript.Location
import Octal.Transcript.Memory
import Octal.Yaml.Cursor
import Octal.Yaml.Node
import Octal.Yaml.Node.Build
import Octal.Yaml.Property
import Octal.Yaml.Scalar
import Octal.Yaml.Stream
import Octal.Yaml.Text
import Octal.Yaml.Token
import Octal.Proofs.Grammar.Unambiguous
import Octal.Proofs.Parse.Level
import Octal.Proofs.Parse.Soundness
import Octal.Proofs.Parse.Completeness
import Octal.Proofs.Parse
import Octal.Proofs.Numeral
import Octal.Proofs.Failure
import Octal.Proofs.Position
import Octal.Proofs.Rune
import Octal.Proofs.Scan.Lex
import Octal.Proofs.Render
import Octal.Proofs.Sequence
import Octal.Proofs.Evaluation
import Octal.Proofs.Session
import Octal.Proofs.Depth
import Octal.Proofs.Branches
import Octal.Proofs.CallGraph
import Octal.Proofs.Locality
import Octal.Proofs.Rebuild
import Octal.Proofs.Substitution
import Octal.Proofs.Scan.Place
import Octal.Proofs.Report
import Octal.Proofs.Lenient
import Octal.Proofs.Truncation
import Octal.Proofs.Calendar
import Octal.Proofs.Transcript
import Octal.Proofs.Calculator
import Octal.Proofs.History
import Octal.Proofs.Arithmetic
import Octal.Proofs.Spelling
import Octal.Proofs.Database
import Octal.Proofs.Scan.Munch
import Octal.Proofs.Scan.Tokenization
import Octal.Proofs.Spacing
import Octal.Proofs.Sign
import Octal.Proofs.Rerender
import Octal.Proofs.Result
import Octal.Proofs.Scan.Order
import Octal.Proofs.Diagnostic
import Octal.Proofs.Parse.Mark
import Octal.Proofs.Scan.Unfinished
import Octal.Proofs.Interruption
import Octal.Proofs.Readback
import Octal.Proofs.Trace
import Octal.Proofs.Batch
import Octal.Proofs.Frames
import Octal.Proofs.Filter
import Octal.Machine
import Octal.Proofs.Machine
