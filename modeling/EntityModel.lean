import EntityModel.Text.Trim
import EntityModel.Text.Pieces
import EntityModel.Text.Location
import EntityModel.Text.Identifier
import EntityModel.Text.Utf8
import EntityModel.Tree
import EntityModel.Symbol
import EntityModel.Element
import EntityModel.Layer
import EntityModel.Xml.Markup
import EntityModel.Xml.Assembly
import EntityModel.Xml.CharacterReference
import EntityModel.Xml.Reader
import EntityModel.Xml.Writer
import EntityModel.Content
import EntityModel.Ledger
import EntityModel.Node
import EntityModel.Sorting
import EntityModel.Catalog
import EntityModel.Naming
import EntityModel.Resolution
import EntityModel.Options
import EntityModel.Workspace.Basic
import EntityModel.Workspace.Commit
import EntityModel.Workspace.Rename
import EntityModel.Findings
import EntityModel.Json.Basic
import EntityModel.Json.Reader
import EntityModel.Views
import EntityModel.Exchange
import EntityModel.Findings.Report
import EntityModel.Findings.Walk
import EntityModel.Options.Reader
import EntityModel.Workspace.Command
import EntityModel.Resolution.Noting
import EntityModel.Proofs.Catalog.Order
import EntityModel.Proofs.Catalog.Rows
import EntityModel.Proofs.Resolution.Outline
import EntityModel.Proofs.Resolution.Afresh
import EntityModel.Proofs.Catalog.Symbols
import EntityModel.Proofs.Ledger.Dependencies
import EntityModel.Proofs.Ledger.Registry
import EntityModel.Proofs.Ledger.Buckets
import EntityModel.Proofs.Resolution.Congruence
import EntityModel.Proofs.Catalog.Changes
import EntityModel.Proofs.Resolution.Targets
import EntityModel.Proofs.Workspace.Lifecycle
import EntityModel.Proofs.Catalog.Growth
import EntityModel.Proofs.Workspace.Edits
import EntityModel.Proofs.Workspace.Coherent
import EntityModel.Proofs.Commit.Removal
import EntityModel.Proofs.Commit.Reading
import EntityModel.Proofs.Commit.Naming
import EntityModel.Proofs.Commit.Resolving
import EntityModel.Proofs.Commit.Run
import EntityModel.Proofs.Workspace.Reachable
import EntityModel.Proofs.Workspace.Progress
import EntityModel.Proofs.Workspace.Current
import EntityModel.Proofs.Commit.Untouched
import EntityModel.Proofs.Commit.Settling
import EntityModel.Proofs.Workspace.Peers
import EntityModel.Proofs.Workspace.Twins
import EntityModel.Proofs.Findings.Renumbering
import EntityModel.Proofs.Workspace.Tended
import EntityModel.Proofs.Workspace.Rebuild
import EntityModel.Proofs.Catalog.Classified
import EntityModel.Proofs.Workspace.Classified
import EntityModel.Proofs.Workspace.Reload
import EntityModel.Proofs.Text.Parts
import EntityModel.Proofs.Naming.LastPart
import EntityModel.Proofs.Naming.Scopes
import EntityModel.Proofs.Naming.Retarget
import EntityModel.Proofs.Naming.Surroundings
import EntityModel.Proofs.Naming.Members
import EntityModel.Proofs.Workspace.Writes
import EntityModel.Proofs.Workspace.Revised
import EntityModel.Proofs.Workspace.Renaming
import EntityModel.Proofs.Workspace.Following
import EntityModel.Proofs.Workspace.Entries
import EntityModel.Proofs.Workspace.Moving
import EntityModel.Proofs.Workspace.Unbroken
import EntityModel.Proofs.Workspace.Isolated
import EntityModel.Proofs.Catalog.Written
import EntityModel.Proofs.Commit.Phases
import EntityModel.Proofs.Commit.Writing
import EntityModel.Proofs.Workspace.Atomic
import EntityModel.Proofs.Workspace.Grouping
import EntityModel.Proofs.Workspace.NormalForm
import EntityModel.Proofs.Catalog.Loads
import EntityModel.Proofs.Workspace.LoadOrder
import EntityModel.Proofs.Tree.Links
import EntityModel.Proofs.Arena.Basic
import EntityModel.Proofs.Arena.Building
import EntityModel.Proofs.Arena.View
import EntityModel.Proofs.Arena.Changes
import EntityModel.Proofs.Arena.Paths
import EntityModel.Proofs.Arena.Runs
import EntityModel.Proofs.Workspace.Slots
import EntityModel.Proofs.Workspace.Forest
import EntityModel.Proofs.Text.Encoding
import EntityModel.Proofs.Text.Location
import EntityModel.Proofs.Xml.Names
import EntityModel.Proofs.Xml.Tags
import EntityModel.Proofs.Xml.Tokens
import EntityModel.Proofs.Xml.Nesting
import EntityModel.Proofs.Xml.Places
import EntityModel.Proofs.Xml.Steps
import EntityModel.Proofs.Xml.RoundTrip
import EntityModel.Proofs.Resolution.Scan
import EntityModel.Proofs.Resolution.Dependence
import EntityModel.Proofs.Results
import EntityModel.Proofs.Text.Decoding
import EntityModel.Proofs.Xml.Accepted
import EntityModel.Proofs.Xml.Rereading
import EntityModel.Proofs.Workspace.Declarations
import EntityModel.Proofs.Workspace.Marked
import EntityModel.Proofs.Workspace.Files
import EntityModel.Proofs.Workspace.Saving
import EntityModel.Proofs.Workspace.Waiting
import EntityModel.Proofs.Commit.Noted
import EntityModel.Proofs.Workspace.Reported
import EntityModel.Proofs.Commit.Queued
import EntityModel.Proofs.Workspace.Dependents
import EntityModel.Proofs.Workspace.Inserted
import EntityModel.Proofs.Workspace.Revisits
import EntityModel.Proofs.Resolution.Pieces
import EntityModel.Proofs.Naming.Lineage
import EntityModel.Proofs.Workspace.Agreement
import EntityModel.Proofs.Naming.Spellings
import EntityModel.Proofs.Workspace.TypeNames
import EntityModel.Proofs.Arena.Keys
import EntityModel.Proofs.Workspace.Ordering
import EntityModel.Proofs.Catalog.Arranged
import EntityModel.Proofs.Arena.Rebuilding
import EntityModel.Proofs.Workspace.Contents
import EntityModel.Proofs.Findings.ByNode
import EntityModel.Proofs.Workspace.Redeclared
import EntityModel.Proofs.Workspace.Referrers
import EntityModel.Proofs.Findings.Marks
import EntityModel.Proofs.Workspace.Validated
