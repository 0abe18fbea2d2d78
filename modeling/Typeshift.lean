import Typeshift.Command.Arguments
import Typeshift.Command.Batch
import Typeshift.Command.Inputs
import Typeshift.Command.Log
import Typeshift.Command.Plan
import Typeshift.Command.Run
import Typeshift.Convert.Basic
import Typeshift.Convert.Chain
import Typeshift.Convert.Declaration
import Typeshift.Convert.Part
import Typeshift.Convert.Shared
import Typeshift.Convert.State
import Typeshift.Convert.Types
import Typeshift.Decimal.Binary64
import Typeshift.Decimal.Layout
import Typeshift.Decimal.Shortest
import Typeshift.Diagnostic.Basic
import Typeshift.Diagnostic.Message
import Typeshift.Diagnostic.Report
import Typeshift.Disk.Basic
import Typeshift.Disk.Entry
import Typeshift.Disk.Memory
import Typeshift.Disk.Path
import Typeshift.Glob.Basic
import Typeshift.Glob.Match
import Typeshift.Json.Basic
import Typeshift.Json.Number
import Typeshift.Json.Reader
import Typeshift.Json.Writer
import Typeshift.Main
import Typeshift.Names
import Typeshift.Normalize.Basic
import Typeshift.Normalize.Hoist
import Typeshift.Normalize.Optional
import Typeshift.Pipeline
import Typeshift.Pragma
import Typeshift.Print.Declaration
import Typeshift.Print.Expression
import Typeshift.Print.Literal
import Typeshift.Print.Markup
import Typeshift.Print.Page
import Typeshift.Print.Place
import Typeshift.Print.Precedence
import Typeshift.Print.Printer
import Typeshift.Print.Script
import Typeshift.Print.Start
import Typeshift.Print.Statement
import Typeshift.Print.TypeText
import Typeshift.Proofs.Chain.Flatten
import Typeshift.Proofs.Chain.Form
import Typeshift.Proofs.Chain.Meaning
import Typeshift.Proofs.Chain.References
import Typeshift.Proofs.Chain.Settled
import Typeshift.Proofs.Chain.Simulation
import Typeshift.Proofs.Convert.Keeps
import Typeshift.Proofs.Convert.Shared
import Typeshift.Proofs.Ensures
import Typeshift.Proofs.Expression.Constructs
import Typeshift.Proofs.Expression.Denotes
import Typeshift.Proofs.Expression.Grammar
import Typeshift.Proofs.Expression.Layout
import Typeshift.Proofs.Expression.Lexer
import Typeshift.Proofs.Expression.Places
import Typeshift.Proofs.Expression.RoundTrip
import Typeshift.Proofs.Expression.Unambiguous
import Typeshift.Proofs.Grammar.Compile
import Typeshift.Proofs.Grammar.Convert
import Typeshift.Proofs.Grammar.Normalize
import Typeshift.Proofs.Grammar.Placement
import Typeshift.Proofs.Names
import Typeshift.Proofs.Normalize.Lossless
import Typeshift.Proofs.Normalize.Marking
import Typeshift.Proofs.Normalize.Run
import Typeshift.Proofs.Normalize.Scope
import Typeshift.Proofs.Normalize.Unfold
import Typeshift.Proofs.Tree.Induction
import Typeshift.Proofs.Tree.Loaded
import Typeshift.Proofs.Tree.Readback
import Typeshift.Proofs.Tree.Slots
import Typeshift.Proofs.Tree.Values
import Typeshift.Proofs.Tree.WellFormed
import Typeshift.Rule.Basic
import Typeshift.Rule.Lossy
import Typeshift.Text.Blank
import Typeshift.Text.Invisible
import Typeshift.Text.Quoted
import Typeshift.Text.Replace
import Typeshift.Text.Split
import Typeshift.Tree.Basic
import Typeshift.Tree.Comment
import Typeshift.Tree.Field
import Typeshift.Tree.Load
import Typeshift.Tree.LoadError
import Typeshift.Tree.Names
import Typeshift.Tree.Serialize
import Typeshift.Tree.Shape
import Typeshift.Tree.Source
import Typeshift.Tree.Span
import Typeshift.Tree.Tag
import Typeshift.Tree.Target
import Typeshift.Tree.Word
import Typeshift.Proofs.Convert.Account
import Typeshift.Proofs.Convert.Unsupported
import Typeshift.Proofs.Normalize.Vocabulary
import Typeshift.Proofs.Temporaries.Clash
import Typeshift.Proofs.Temporaries.Declared
import Typeshift.Proofs.TypeText.Grammar
import Typeshift.Proofs.TypeText.Unambiguous
import Typeshift.Proofs.TypeText.RoundTrip
import Typeshift.Proofs.Convert.Converter
import Typeshift.Proofs.Normalize.Idempotent
import Typeshift.Proofs.Pragma
import Typeshift.Proofs.Comments.Convert
import Typeshift.Proofs.Batch.Outputs
import Typeshift.Proofs.Print.Template
import Typeshift.Proofs.Tree.KeyOrder
import Typeshift.Proofs.Batch.AnyOrder
import Typeshift.Proofs.Statement.Insertion
import Typeshift.Proofs.Print.ExportDefault
import Typeshift.Proofs.Print.KeywordArgument
import Typeshift.Proofs.Print.ForHead
import Typeshift.Proofs.Print.NumeralAccess
import Typeshift.Proofs.Print.CommentLog
import Typeshift.Proofs.Convert.ObjectType
import Typeshift.Proofs.Normalize.Parameters
import Typeshift.Proofs.Rule.Lossy
import Typeshift.Proofs.Scope.Convert
import Typeshift.Proofs.Convert.Signature
import Typeshift.Proofs.Convert.Members
import Typeshift.Proofs.Ambient.Declares
import Typeshift.Proofs.TypeMeaning.Convert
import Typeshift.Proofs.Convert.OptionalAccess
import Typeshift.Proofs.Convert.Casts
import Typeshift.Proofs.Print.AttributeString
import Typeshift.Proofs.Batch.Again
import Typeshift.Proofs.Expression.ArrayElements
import Typeshift.Proofs.Print.Dispatch
import Typeshift.Proofs.Print.Programs
import Typeshift.Proofs.Names.Supply
import Typeshift.Proofs.Print.Lines
