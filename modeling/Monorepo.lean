import Monorepo.Cli.Interface
import Monorepo.Cli.Parse
import Monorepo.Cli.Program
import Monorepo.Cli.Report
import Monorepo.Cli.Session
import Monorepo.Cli.Similar
import Monorepo.Cli.Spec
import Monorepo.Cli.Table
import Monorepo.Codemod.Edit
import Monorepo.Codemod.FilePatch
import Monorepo.Codemod.Imports
import Monorepo.Codemod.Literal
import Monorepo.Codemod.Locator
import Monorepo.Codemod.Patch
import Monorepo.Codemod.PatchValue
import Monorepo.Codemod.Render
import Monorepo.Codemod.Style
import Monorepo.Codemod.ViteBuild
import Monorepo.Config.Basic
import Monorepo.Config.Decode
import Monorepo.Config.Json
import Monorepo.Config.Load
import Monorepo.Decimal.Read
import Monorepo.Decimal.Shortest
import Monorepo.Disk.Basic
import Monorepo.Disk.Resolve
import Monorepo.Error
import Monorepo.HostPath
import Monorepo.Json.Expect
import Monorepo.Json.Pointer
import Monorepo.Json.Print
import Monorepo.Json.Read
import Monorepo.Json.Relaxed
import Monorepo.Json.Value
import Monorepo.Main
import Monorepo.Path
import Monorepo.Proofs.Codemod.Leaves
import Monorepo.Proofs.Codemod.Outcomes
import Monorepo.Proofs.Codemod.EditRange
import Monorepo.Proofs.Codemod.CarriageReturns
import Monorepo.Proofs.Commit.Ends
import Monorepo.Proofs.Commit.Materialize
import Monorepo.Proofs.Commit.Phases
import Monorepo.Proofs.Commit.Prune
import Monorepo.Proofs.Disk
import Monorepo.Proofs.Disk.Calls
import Monorepo.Proofs.Json.Members
import Monorepo.Proofs.Json.Pointer
import Monorepo.Proofs.Json.Readers
import Monorepo.Proofs.Json.Strings
import Monorepo.Proofs.Outcome
import Monorepo.Proofs.Path
import Monorepo.Proofs.Path.Relative
import Monorepo.Proofs.Path.RoundTrip
import Monorepo.Proofs.Tree.Changes
import Monorepo.Proofs.Tree.Failures
import Monorepo.Proofs.Tree.Listing
import Monorepo.Proofs.Tree.Overlay
import Monorepo.Proofs.Tree.Range
import Monorepo.Proofs.Tree.Refinement
import Monorepo.Proofs.Tree.Rename
import Monorepo.Proofs.Tree.Staging
import Monorepo.Proofs.Tree.Steps
import Monorepo.Proofs.Tree.View
import Monorepo.Proofs.Workspace.Atomicity
import Monorepo.Proofs.Workspace.Destinations
import Monorepo.Proofs.Workspace.Frame
import Monorepo.Proofs.Workspace.Names
import Monorepo.Proofs.Workspace.PathStrings
import Monorepo.Proofs.Workspace.ReferenceEdits
import Monorepo.Proofs.Workspace.ReferenceSearch
import Monorepo.Proofs.Workspace.Plan
import Monorepo.Proofs.Workspace.Relink
import Monorepo.Proofs.Workspace.Run
import Monorepo.Proofs.Workspace.Specifiers
import Monorepo.Proofs.Workspace.Substitution
import Monorepo.Proofs.Workspace.WriteBack
import Monorepo.Script.Grammar
import Monorepo.Script.Language
import Monorepo.Script.Parse
import Monorepo.Script.Reader
import Monorepo.Script.Recovery
import Monorepo.Script.Specifier
import Monorepo.Script.Syntax
import Monorepo.Script.Token
import Monorepo.Script.TypeExpr
import Monorepo.Text.Alphanumeric
import Monorepo.Text.Blank
import Monorepo.Text.Quoted
import Monorepo.Text.Utf8
import Monorepo.Text.Width
import Monorepo.Toml.Datetime
import Monorepo.Toml.Document
import Monorepo.Toml.Events
import Monorepo.Toml.Lex
import Monorepo.Toml.Problem
import Monorepo.Toml.Scalar
import Monorepo.Tree.Basic
import Monorepo.Tree.Commit
import Monorepo.Tree.Json
import Monorepo.Workspace.ImportPath
import Monorepo.Workspace.Layout
import Monorepo.Workspace.Manifest
import Monorepo.Workspace.Move
import Monorepo.Workspace.Reference
import Monorepo.Workspace.Registry
import Monorepo.Workspace.Relocate
import Monorepo.Workspace.Runner
import Monorepo.Workspace.Settings
import Monorepo.Codemod.AnyParser
import Monorepo.Proofs.Codemod.Addresses
import Monorepo.Proofs.Codemod.EditSites
import Monorepo.Proofs.Codemod.LawfulParser
import Monorepo.Proofs.Codemod.ReadBack
import Monorepo.Proofs.Codemod.PatchRun
import Monorepo.Proofs.Codemod.PatchFrame
