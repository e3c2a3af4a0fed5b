import Blockwork.Block.Basic
import Blockwork.Block.Input
import Blockwork.Block.Registry
import Blockwork.Block.State
import Blockwork.Cli.Args
import Blockwork.Cli.Run
import Blockwork.Code.Generate
import Blockwork.Code.Generator
import Blockwork.Code.Order
import Blockwork.Colour.Hash
import Blockwork.Colour.Lab
import Blockwork.Decimal.Nearest
import Blockwork.Decimal.Parse
import Blockwork.Decimal.Shortest
import Blockwork.Decode.Catalog
import Blockwork.Decode.Palette
import Blockwork.Decode.Source
import Blockwork.Decode.Stream
import Blockwork.Decode.Tree
import Blockwork.Field.Basic
import Blockwork.Field.Make
import Blockwork.Host
import Blockwork.Json.Error
import Blockwork.Json.Read
import Blockwork.Json.Value
import Blockwork.Json.Write
import Blockwork.Library
import Blockwork.Main
import Blockwork.Message.Token
import Blockwork.Messages
import Blockwork.Plan.Block
import Blockwork.Plan.Data
import Blockwork.Plan.Error
import Blockwork.Plan.Variant
import Blockwork.Proofs.Code.BindingOrder
import Blockwork.Proofs.Code.Chain
import Blockwork.Proofs.Code.Generation
import Blockwork.Proofs.Code.Indent
import Blockwork.Proofs.Code.Reading
import Blockwork.Proofs.Colour.ExactHash
import Blockwork.Proofs.Decimal.Exact
import Blockwork.Proofs.Decimal.Unit
import Blockwork.Proofs.Field.Settled
import Blockwork.Proofs.Message.Display
import Blockwork.Proofs.Message.Grammar
import Blockwork.Proofs.Plan.Choices
import Blockwork.Proofs.Plan.Connections
import Blockwork.Proofs.Plan.Inheritance
import Blockwork.Proofs.Plan.Layout
import Blockwork.Proofs.Plan.Making
import Blockwork.Proofs.Plan.Names
import Blockwork.Proofs.Plan.Reaction
import Blockwork.Proofs.Plan.Route
import Blockwork.Proofs.Plan.Selection
import Blockwork.Proofs.Plan.Synthesized
import Blockwork.Proofs.Template.Reordered
import Blockwork.Proofs.Toolbox.Merge
import Blockwork.Proofs.Workspace.ActiveLeaf
import Blockwork.Proofs.Workspace.Atomic
import Blockwork.Proofs.Workspace.Compatible
import Blockwork.Proofs.Workspace.Connect
import Blockwork.Proofs.Workspace.Dispose
import Blockwork.Proofs.Workspace.Dropdowns
import Blockwork.Proofs.Workspace.Edit
import Blockwork.Proofs.Workspace.Forest
import Blockwork.Proofs.Workspace.Frame
import Blockwork.Proofs.Workspace.Hierarchy
import Blockwork.Proofs.Workspace.Place
import Blockwork.Proofs.Workspace.Run
import Blockwork.Proofs.Workspace.Session
import Blockwork.Proofs.Workspace.Subtree
import Blockwork.Proofs.Workspace.Switching
import Blockwork.Template.Parse
import Blockwork.Template.Render
import Blockwork.Template.Syntax
import Blockwork.Text.Printable
import Blockwork.Text.Quoted
import Blockwork.Toolbox
import Blockwork.Workspace
