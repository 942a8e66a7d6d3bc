import SourceAtlas.Command.Arguments
import SourceAtlas.Command.Basic
import SourceAtlas.Command.Run
import SourceAtlas.Diagram.Basic
import SourceAtlas.Diagram.File
import SourceAtlas.Diagram.Intent
import SourceAtlas.Diagram.Reader
import SourceAtlas.Diagram.Writer
import SourceAtlas.Failure
import SourceAtlas.Files.Access
import SourceAtlas.Files.Error
import SourceAtlas.Files.Lookup
import SourceAtlas.Files.Path
import SourceAtlas.Files.Tree
import SourceAtlas.Files.Walk
import SourceAtlas.Json.Fault
import SourceAtlas.Json.Numeral
import SourceAtlas.Json.Quotation
import SourceAtlas.Json.Reader
import SourceAtlas.Json.Skip
import SourceAtlas.Json.Value
import SourceAtlas.Json.Writer
import SourceAtlas.Main
import SourceAtlas.Number.Binary64
import SourceAtlas.Number.Shortest
import SourceAtlas.Python.Docstring
import SourceAtlas.Python.Facts
import SourceAtlas.Python.Literal
import SourceAtlas.Python.Node
import SourceAtlas.Python.Reader.Expression
import SourceAtlas.Python.Reader.Pattern
import SourceAtlas.Python.Reader.Rule
import SourceAtlas.Python.Reader.Scan
import SourceAtlas.Python.Reader.Statement
import SourceAtlas.Python.Reader.Token
import SourceAtlas.Python.Reader.Tree
import SourceAtlas.Scaffold
import SourceAtlas.Settings.Basic
import SourceAtlas.Settings.Reader
import SourceAtlas.Survey.Chart
import SourceAtlas.Survey.Dependency
import SourceAtlas.Survey.Layer
import SourceAtlas.Survey.Placement
import SourceAtlas.Survey.Report
import SourceAtlas.Survey.Scan
import SourceAtlas.Survey.SourceFile
import SourceAtlas.Survey.Style
import SourceAtlas.Text.Blank
import SourceAtlas.Text.Identifier
import SourceAtlas.Text.Lines
import SourceAtlas.Text.Quoted
import SourceAtlas.Text.Search
import SourceAtlas.Toml.Number
import SourceAtlas.Toml.Reader
import SourceAtlas.Toml.Token
import SourceAtlas.Toml.Value
import SourceAtlas.Proofs.Command.Again
import SourceAtlas.Proofs.Command.Frame
import SourceAtlas.Proofs.Diagram.Acceptance
import SourceAtlas.Proofs.Diagram.Document
import SourceAtlas.Proofs.Diagram.Effect
import SourceAtlas.Proofs.Diagram.Grammar
import SourceAtlas.Proofs.Diagram.Intent
import SourceAtlas.Proofs.Diagram.ReadBack
import SourceAtlas.Proofs.Diagram.Recognition
import SourceAtlas.Proofs.Diagram.Rewrite
import SourceAtlas.Proofs.Diagram.Saved
import SourceAtlas.Proofs.Diagram.Spacing
import SourceAtlas.Proofs.Diagram.View
import SourceAtlas.Proofs.Files.Again
import SourceAtlas.Proofs.Files.Content
import SourceAtlas.Proofs.Files.Descent
import SourceAtlas.Proofs.Files.Direct
import SourceAtlas.Proofs.Files.Growth
import SourceAtlas.Proofs.Files.Lineage
import SourceAtlas.Proofs.Files.Lookup
import SourceAtlas.Proofs.Files.Making
import SourceAtlas.Proofs.Files.Path
import SourceAtlas.Proofs.Files.Route
import SourceAtlas.Proofs.Files.Walk
import SourceAtlas.Proofs.Files.Within
import SourceAtlas.Proofs.Json.Collection
import SourceAtlas.Proofs.Json.Grammar
import SourceAtlas.Proofs.Json.Layout
import SourceAtlas.Proofs.Json.Lockstep
import SourceAtlas.Proofs.Json.Members
import SourceAtlas.Proofs.Json.NumberText
import SourceAtlas.Proofs.Json.Numeral
import SourceAtlas.Proofs.Json.Quotation
import SourceAtlas.Proofs.Json.ReadBack
import SourceAtlas.Proofs.Json.Recognition
import SourceAtlas.Proofs.Json.Skipping
import SourceAtlas.Proofs.Json.StringText
import SourceAtlas.Proofs.Json.Values
import SourceAtlas.Proofs.Json.View
import SourceAtlas.Proofs.Number.Whole
import SourceAtlas.Proofs.Python.Cleandoc
import SourceAtlas.Proofs.Python.Collection
import SourceAtlas.Proofs.Python.Continuation
import SourceAtlas.Proofs.Python.Docstring
import SourceAtlas.Proofs.Python.Grammar
import SourceAtlas.Proofs.Python.Imports
import SourceAtlas.Proofs.Python.Levels
import SourceAtlas.Proofs.Python.LineEnds
import SourceAtlas.Proofs.Python.Literal
import SourceAtlas.Proofs.Python.Margin
import SourceAtlas.Proofs.Python.ModuleName
import SourceAtlas.Proofs.Python.Spelling
import SourceAtlas.Proofs.Python.Stub
import SourceAtlas.Proofs.Python.TabStop
import SourceAtlas.Proofs.Scaffold
import SourceAtlas.Proofs.Scaffold.Account
import SourceAtlas.Proofs.Scaffold.Listing
import SourceAtlas.Proofs.Scaffold.Order
import SourceAtlas.Proofs.Scaffold.Reach
import SourceAtlas.Proofs.Scaffold.Report
import SourceAtlas.Proofs.Scaffold.Unchanged
import SourceAtlas.Proofs.Settings.Merge
import SourceAtlas.Proofs.Survey.Allotment
import SourceAtlas.Proofs.Survey.Aside
import SourceAtlas.Proofs.Survey.Change
import SourceAtlas.Proofs.Survey.Drawing
import SourceAtlas.Proofs.Survey.EdgeSet
import SourceAtlas.Proofs.Survey.Insertions
import SourceAtlas.Proofs.Survey.Intents
import SourceAtlas.Proofs.Survey.NodeId
import SourceAtlas.Proofs.Survey.Order
import SourceAtlas.Proofs.Survey.Reading
import SourceAtlas.Proofs.Survey.Relocation
import SourceAtlas.Proofs.Survey.Resolution
import SourceAtlas.Proofs.Survey.Rows
import SourceAtlas.Proofs.Survey.Run
import SourceAtlas.Proofs.Survey.Scan
import SourceAtlas.Proofs.Survey.SourceFiles
import SourceAtlas.Proofs.Survey.Spread
import SourceAtlas.Proofs.Text.Bytes
import SourceAtlas.Proofs.Text.Ink
import SourceAtlas.Proofs.Text.Pieces
import SourceAtlas.Proofs.Text.Returns
