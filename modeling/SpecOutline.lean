import SpecOutline.CommandLine.Arguments
import SpecOutline.CommandLine.Listing
import SpecOutline.Error
import SpecOutline.Files.Content
import SpecOutline.Files.Pathname
import SpecOutline.Files.Snapshot
import SpecOutline.Files.Volume
import SpecOutline.Files.Walk
import SpecOutline.Glob.Match
import SpecOutline.Glob.Parser
import SpecOutline.Glob.Token
import SpecOutline.Json.Decode
import SpecOutline.Json.Parser
import SpecOutline.Json.Printer
import SpecOutline.Json.Value
import SpecOutline.Library.Basic
import SpecOutline.Library.Framework
import SpecOutline.Library.Stored
import SpecOutline.Main
import SpecOutline.ParseTree.Basic
import SpecOutline.ParseTree.Header
import SpecOutline.ParseTree.Lower
import SpecOutline.ParseTree.Rows
import SpecOutline.Proofs.Suite.Lowered
import SpecOutline.Proofs.Suite.Nesting
import SpecOutline.Proofs.Suite.Outline
import SpecOutline.Proofs.Suite.OutlineNames
import SpecOutline.Proofs.Suite.OutlineScan
import SpecOutline.Proofs.Suite.WayUp
import SpecOutline.Proofs.Tree.Linked
import SpecOutline.Proofs.Tree.Sequences
import SpecOutline.Proofs.Tree.DocumentOrder
import SpecOutline.Proofs.Tree.Everywhere
import SpecOutline.Proofs.Tree.Sketch
import SpecOutline.Proofs.Tree.Standing
import SpecOutline.Proofs.Tree.Walks
import SpecOutline.Settings
import SpecOutline.Source.Language
import SpecOutline.Source.Reading
import SpecOutline.Source.Span
import SpecOutline.Suite.Ascent
import SpecOutline.Suite.Block
import SpecOutline.Suite.Path
import SpecOutline.Suite.Report
import SpecOutline.Suite.Scan
import SpecOutline.Suite.SpecClass
import SpecOutline.Suite.Vocabulary
import SpecOutline.Symbol.Basic
import SpecOutline.Symbol.Index
import SpecOutline.Symbol.Stored
import SpecOutline.Symbol.TypeTable
import SpecOutline.Text.Blank
import SpecOutline.Text.Hex
import SpecOutline.Text.Split
import SpecOutline.Text.Utf8
import SpecOutline.Tree.Basic
import SpecOutline.Tree.Builder
import SpecOutline.Tree.Dump
import SpecOutline.Tree.Kind
import SpecOutline.Tree.Stored
import SpecOutline.Tree.Traversal
import SpecOutline.Tree.View
import SpecOutline.Proofs.Symbol.Declarations
import SpecOutline.Proofs.Symbol.TypeNameOrder
import SpecOutline.Proofs.Suite.Reported
import SpecOutline.Proofs.ParseTree.Regular
import SpecOutline.Proofs.ParseTree.ByKind
import SpecOutline.Proofs.ParseTree.WrittenBlocks
import SpecOutline.Proofs.Suite.Owners
import SpecOutline.Proofs.Suite.Resolvers
import SpecOutline.Proofs.Symbol.DeclarationOrder
import SpecOutline.Proofs.Json.Written
import SpecOutline.Proofs.Json.Printed
import SpecOutline.Proofs.Json.Records
import SpecOutline.Proofs.Json.Stored
import SpecOutline.Proofs.Suite.PathShape
import SpecOutline.Proofs.Suite.Targets
import SpecOutline.Proofs.CommandLine.Runs
import SpecOutline.Proofs.Symbol.Shadowing
import SpecOutline.Proofs.ParseTree.Descent
import SpecOutline.Proofs.Symbol.FunctionImports
import SpecOutline.Proofs.ParseTree.CallChains
import SpecOutline.Proofs.ParseTree.SourceOrder
import SpecOutline.Proofs.Text.Joined
import SpecOutline.Proofs.Symbol.QualifiedNames
import SpecOutline.Proofs.Suite.InnermostBlock
import SpecOutline.Proofs.ParseTree.ErrorRegions
import SpecOutline.Proofs.CommandLine.TextLines
import SpecOutline.Proofs.Files.Lines
import SpecOutline.Proofs.Text.Cuts
import SpecOutline.Proofs.Symbol.LibraryTypes
import SpecOutline.Proofs.ParseTree.ImportPhrases
import SpecOutline.Proofs.Symbol.WrittenTypes
import SpecOutline.Proofs.Tree.Listing
