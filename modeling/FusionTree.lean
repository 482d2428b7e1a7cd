import FusionTree.CommandLine.Arguments
import FusionTree.CommandLine.Session
import FusionTree.FileTree.Listing
import FusionTree.Include.Resolver
import FusionTree.Log.Event
import FusionTree.Log.Filter
import FusionTree.Main
import FusionTree.Merge.Run
import FusionTree.Number.Shortest
import FusionTree.Parser.Statement
import FusionTree.Proofs.Include.WrittenGlobs
import FusionTree.Proofs.Merge.Dump
import FusionTree.Proofs.Merge.Flattening
import FusionTree.Proofs.Merge.IncludeChain
import FusionTree.Proofs.Merge.Inheritance
import FusionTree.Proofs.Merge.Inlining
import FusionTree.Proofs.Merge.KeyForm
import FusionTree.Proofs.Merge.Numerals
import FusionTree.Proofs.Merge.Privacy
import FusionTree.Proofs.Merge.Provenance
import FusionTree.Proofs.Merge.RelativeCopy
import FusionTree.Proofs.Merge.Shape
import FusionTree.Proofs.Merge.Stickiness
import FusionTree.Proofs.Parser.Expressions
import FusionTree.Proofs.Parser.Extents
import FusionTree.Proofs.Parser.Nesting
import FusionTree.Proofs.Parser.Slicing
import FusionTree.Proofs.Parser.Termination
import FusionTree.Proofs.Report.Excerpts
import FusionTree.Proofs.Source.LineColumns
import FusionTree.Proofs.Text.Unescaping
import FusionTree.Proofs.Token.Endings
import FusionTree.Proofs.Token.Tiling
import FusionTree.Proofs.Tree.KeyOrder
import FusionTree.Proofs.Tree.Overruling
import FusionTree.Proofs.Tree.Repeating
import FusionTree.Proofs.Tree.Snapshots
import FusionTree.Proofs.Tree.Unsetting
import FusionTree.Report.Drawing
import FusionTree.Settings.Basic
import FusionTree.Statement.Outline
import FusionTree.Text.Quoted
import FusionTree.Text.Width
import FusionTree.Token.Lexer
import FusionTree.Toml.Reader
import FusionTree.Tree.Hierarchy
import FusionTree.Tree.Json
