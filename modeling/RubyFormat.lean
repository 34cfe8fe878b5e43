import RubyFormat.Attribute
import RubyFormat.CommandLine.Arguments
import RubyFormat.CommandLine.Directory
import RubyFormat.CommandLine.Run
import RubyFormat.Cursor
import RubyFormat.Data.Basic
import RubyFormat.Data.Json
import RubyFormat.Data.Value
import RubyFormat.Doc.Basic
import RubyFormat.Doc.Debug
import RubyFormat.Doc.Render
import RubyFormat.Doc.Sketch
import RubyFormat.Draft.Basic
import RubyFormat.Draft.Fault
import RubyFormat.Draft.Inspect
import RubyFormat.Draft.Layout
import RubyFormat.Draft.Message
import RubyFormat.Draft.Settle
import RubyFormat.Draft.Shorthand
import RubyFormat.Draft.Tree
import RubyFormat.Format
import RubyFormat.Layout.Basic
import RubyFormat.Layout.Shape
import RubyFormat.Main
import RubyFormat.Node.Basic
import RubyFormat.Node.Data
import RubyFormat.Node.Field
import RubyFormat.Node.Schema
import RubyFormat.Options
import RubyFormat.Parse.Argument
import RubyFormat.Parse.Block
import RubyFormat.Parse.Collection
import RubyFormat.Parse.Error
import RubyFormat.Parse.Operator
import RubyFormat.Parse.Param
import RubyFormat.Parse.Primary
import RubyFormat.Parse.Program
import RubyFormat.Parse.Rules
import RubyFormat.Parse.State
import RubyFormat.Parse.Statement
import RubyFormat.Pos
import RubyFormat.Pragma
import RubyFormat.Shorthand
import RubyFormat.Text.Blank
import RubyFormat.Text.CodeRange
import RubyFormat.Text.Digit
import RubyFormat.Text.Printable
import RubyFormat.Text.Quoted
import RubyFormat.Token.Basic
import RubyFormat.Token.Lexeme
import RubyFormat.Token.Lexer
import RubyFormat.Visit
import RubyFormat.Proofs.Faultless
import RubyFormat.Proofs.FixedPoint
import RubyFormat.Proofs.Marks
import RubyFormat.Proofs.Relex
import RubyFormat.Proofs.Trimmed
import RubyFormat.Proofs.Progress
import RubyFormat.Proofs.Failure
import RubyFormat.Proofs.Termination
import RubyFormat.Proofs.Order
import RubyFormat.Proofs.Leaves
import RubyFormat.Proofs.Completeness
import RubyFormat.Proofs.Displaced
import RubyFormat.Proofs.Forms
import RubyFormat.Proofs.Lossless
import RubyFormat.Proofs.Precedence
import RubyFormat.Proofs.RoundTrip
import RubyFormat.Proofs.Scoping
import RubyFormat.Proofs.Location
import RubyFormat.Proofs.LineBreak
import RubyFormat.Proofs.Delivery
import RubyFormat.Proofs.Firm
import RubyFormat.Proofs.Clean
import RubyFormat.Proofs.Comments
import RubyFormat.Proofs.Sheltered
import RubyFormat.Proofs.Delimited
import RubyFormat.Proofs.Grouping
import RubyFormat.Proofs.Indentation
import RubyFormat.Proofs.HardLines
import RubyFormat.Proofs.Readback
import RubyFormat.Proofs.Locality
import RubyFormat.Proofs.Faithful
import RubyFormat.Proofs.JsonReader
import RubyFormat.Proofs.JsonText
import RubyFormat.Proofs.Ancestry
import RubyFormat.Proofs.Pragmas
import RubyFormat.Proofs.PrintedComments
