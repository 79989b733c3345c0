import AsmLens.Bytes
import AsmLens.Check.Analysis
import AsmLens.Check.Coded
import AsmLens.Check.Diagnostic
import AsmLens.Check.Hover
import AsmLens.Command.Flags
import AsmLens.Command.Run
import AsmLens.Dictionary
import AsmLens.Files
import AsmLens.Isa.Description
import AsmLens.Isa.Load
import AsmLens.Isa.Register
import AsmLens.Isa.Table
import AsmLens.Json.Basic
import AsmLens.Json.Decode
import AsmLens.Json.Parser
import AsmLens.Layout
import AsmLens.Main
import AsmLens.Numeral
import AsmLens.Path
import AsmLens.Proofs.Bytes
import AsmLens.Proofs.Check.Accepted
import AsmLens.Proofs.Check.Agreement
import AsmLens.Proofs.Check.Append
import AsmLens.Proofs.Check.Coded
import AsmLens.Proofs.Check.Completion
import AsmLens.Proofs.Check.Fault
import AsmLens.Proofs.Check.Findings
import AsmLens.Proofs.Check.Hover
import AsmLens.Proofs.Check.Names
import AsmLens.Proofs.Check.Place
import AsmLens.Proofs.Check.Reported
import AsmLens.Proofs.Check.Target
import AsmLens.Proofs.Command.Check
import AsmLens.Proofs.Isa.Catalog
import AsmLens.Proofs.Isa.Description
import AsmLens.Proofs.Isa.Key
import AsmLens.Proofs.Isa.Lexeme
import AsmLens.Proofs.Isa.Lines
import AsmLens.Proofs.Isa.Marker
import AsmLens.Proofs.Isa.Scan
import AsmLens.Proofs.Isa.Template
import AsmLens.Proofs.Layout.Column
import AsmLens.Proofs.Layout.Content
import AsmLens.Proofs.Layout.Line
import AsmLens.Proofs.Layout.LineEnds
import AsmLens.Proofs.Layout.Lines
import AsmLens.Proofs.Layout.Meaning
import AsmLens.Proofs.Layout.Stability
import AsmLens.Proofs.Numeral.Acceptance
import AsmLens.Proofs.Numeral.Literal
import AsmLens.Proofs.Numeral.Value
import AsmLens.Proofs.Path
import AsmLens.Proofs.Server.Answer
import AsmLens.Proofs.Server.Coherence
import AsmLens.Proofs.Server.Isolation
import AsmLens.Proofs.Server.Method
import AsmLens.Proofs.Server.Order
import AsmLens.Proofs.Server.Refusal
import AsmLens.Proofs.Server.Run
import AsmLens.Proofs.Server.Save
import AsmLens.Proofs.Server.View
import AsmLens.Proofs.Source.Labels
import AsmLens.Proofs.Source.Line
import AsmLens.Proofs.Source.Partition
import AsmLens.Proofs.Source.Place
import AsmLens.Proofs.Source.Run
import AsmLens.Proofs.Text.Blank
import AsmLens.Proofs.Text.Lexer
import AsmLens.Proofs.Text.Trim
import AsmLens.Proofs.Text.Utf8
import AsmLens.Server.Message
import AsmLens.Server.Request
import AsmLens.Server.Session
import AsmLens.Server.Wire
import AsmLens.Source.Line
import AsmLens.Text.Blank
import AsmLens.Text.Display
import AsmLens.Text.Lexer
import AsmLens.Text.Utf8
import AsmLens.Uri
