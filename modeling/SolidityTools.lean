import SolidityTools.Text.Quoted
import SolidityTools.Text.WordCharacter
import SolidityTools.StableOrder
import SolidityTools.Position
import SolidityTools.Minimap
import SolidityTools.Outline
import SolidityTools.Lint
import SolidityTools.Gas.Estimate
import SolidityTools.Layout.Loop
import SolidityTools.Import.Graph
import SolidityTools.Template
import SolidityTools.Settings.Reader
import SolidityTools.Settings.Writer
import SolidityTools.Command.Run
import SolidityTools.Main
import SolidityTools.Proofs.Command.Format
import SolidityTools.Proofs.Command.Lint
import SolidityTools.Proofs.Gas.Estimate
import SolidityTools.Proofs.Gas.Layout
import SolidityTools.Proofs.Gas.Order
import SolidityTools.Proofs.Gas.Statement
import SolidityTools.Proofs.Gas.Total
import SolidityTools.Proofs.Gas.Update
import SolidityTools.Proofs.Import.Canonical
import SolidityTools.Proofs.Import.Cycle
import SolidityTools.Proofs.Import.Graph
import SolidityTools.Proofs.Import.Resolution
import SolidityTools.Proofs.Import.Statement
import SolidityTools.Proofs.InPlace.Access
import SolidityTools.Proofs.InPlace.Call
import SolidityTools.Proofs.InPlace.Function
import SolidityTools.Proofs.InPlace.Gas
import SolidityTools.Proofs.InPlace.Group
import SolidityTools.Proofs.InPlace.Import
import SolidityTools.Proofs.InPlace.Lexer
import SolidityTools.Proofs.InPlace.Lint
import SolidityTools.Proofs.InPlace.Literal
import SolidityTools.Proofs.InPlace.Number
import SolidityTools.Proofs.InPlace.Outline
import SolidityTools.Proofs.InPlace.Pass
import SolidityTools.Proofs.InPlace.Position
import SolidityTools.Proofs.InPlace.Scan
import SolidityTools.Proofs.InPlace.Write
import SolidityTools.Proofs.Layout.Bound
import SolidityTools.Proofs.Layout.Comment
import SolidityTools.Proofs.Layout.Fixpoint
import SolidityTools.Proofs.Layout.Increment
import SolidityTools.Proofs.Layout.Level
import SolidityTools.Proofs.Layout.Nesting
import SolidityTools.Proofs.Layout.Respacing
import SolidityTools.Proofs.Layout.Row
import SolidityTools.Proofs.Lint.BlockValue
import SolidityTools.Proofs.Lint.Floating
import SolidityTools.Proofs.Lint.Header
import SolidityTools.Proofs.Lint.Hidden
import SolidityTools.Proofs.Lint.Mask
import SolidityTools.Proofs.Lint.Number
import SolidityTools.Proofs.Lint.Order
import SolidityTools.Proofs.Lint.Origin
import SolidityTools.Proofs.Lint.Pattern
import SolidityTools.Proofs.Lint.Parenthesis
import SolidityTools.Proofs.Lint.Place
import SolidityTools.Proofs.Lint.Reentrancy
import SolidityTools.Proofs.Lint.UncheckedCall
import SolidityTools.Proofs.Minimap
import SolidityTools.Proofs.Outline.Body
import SolidityTools.Proofs.Outline.BraceStack
import SolidityTools.Proofs.Outline.Bracket
import SolidityTools.Proofs.Outline.Declaration
import SolidityTools.Proofs.Outline.Grammar
import SolidityTools.Proofs.Outline.Location
import SolidityTools.Proofs.Outline.Mapped
import SolidityTools.Proofs.Outline.Mutability
import SolidityTools.Proofs.Outline.Parameter
import SolidityTools.Proofs.Outline.Part
import SolidityTools.Proofs.Outline.Recovery
import SolidityTools.Proofs.Outline.Redacted
import SolidityTools.Proofs.Outline.Scan
import SolidityTools.Proofs.Outline.Variable
import SolidityTools.Proofs.Position
import SolidityTools.Proofs.Position.Context
import SolidityTools.Proofs.Position.Order
import SolidityTools.Proofs.Settings.RoundTrip
import SolidityTools.Proofs.Text.Ascii
import SolidityTools.Proofs.Token.Alone
import SolidityTools.Proofs.Token.Highlight
import SolidityTools.Proofs.Token.Tiling
import SolidityTools.Proofs.Toml.Document
import SolidityTools.Proofs.Toml.Value
