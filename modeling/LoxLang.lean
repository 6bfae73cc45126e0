import LoxLang.Bindings
import LoxLang.Command.Arguments
import LoxLang.Command.Folder
import LoxLang.Command.Program
import LoxLang.Diagnostic
import LoxLang.Evaluation
import LoxLang.Event
import LoxLang.Execution
import LoxLang.Grammar.Expression
import LoxLang.Grammar.Outline
import LoxLang.Grammar.Program
import LoxLang.Grammar.Tree
import LoxLang.Number.Double
import LoxLang.Number.Numeral
import LoxLang.Number.Shortest
import LoxLang.Proofs.Command.Prompt
import LoxLang.Proofs.Command.Script
import LoxLang.Proofs.Command.Streams
import LoxLang.Proofs.Command.Text
import LoxLang.Proofs.Execution.Course
import LoxLang.Proofs.Execution.FirstFault
import LoxLang.Proofs.Execution.Joining
import LoxLang.Proofs.Execution.Names
import LoxLang.Proofs.Execution.Operable
import LoxLang.Proofs.Execution.Sites
import LoxLang.Proofs.Execution.StaticErrors
import LoxLang.Proofs.Execution.Trace
import LoxLang.Proofs.Execution.Variants
import LoxLang.Proofs.Grammar.Derivation
import LoxLang.Proofs.Grammar.Ending
import LoxLang.Proofs.Grammar.Isolation
import LoxLang.Proofs.Grammar.Machine
import LoxLang.Proofs.Grammar.Reading
import LoxLang.Proofs.Grammar.Recovery
import LoxLang.Proofs.Grammar.Trials
import LoxLang.Proofs.Grammar.Viable
import LoxLang.Proofs.Lines.Execution
import LoxLang.Proofs.Lines.Layout
import LoxLang.Proofs.Lines.Reading
import LoxLang.Proofs.Lines.Stamps
import LoxLang.Proofs.Number.Integers
import LoxLang.Proofs.Number.ReadBack
import LoxLang.Proofs.Number.Rounding
import LoxLang.Proofs.Session.History
import LoxLang.Proofs.Session.Limits
import LoxLang.Proofs.Session.Outlines
import LoxLang.Proofs.Session.Printing
import LoxLang.Proofs.Session.Readable
import LoxLang.Proofs.Session.ReportLines
import LoxLang.Proofs.Session.Safety
import LoxLang.Proofs.Session.Unlimited
import LoxLang.Proofs.Source.Faults
import LoxLang.Proofs.Source.Joining
import LoxLang.Proofs.Source.Lead
import LoxLang.Proofs.Source.Lexeme
import LoxLang.Proofs.Source.Segmentation
import LoxLang.Proofs.Source.Spacing
import LoxLang.Proofs.Source.Stepping
import LoxLang.Session
import LoxLang.Sink
import LoxLang.Source.Piece
import LoxLang.Source.Scan
import LoxLang.Token
import LoxLang.Token.Listing
import LoxLang.Value
