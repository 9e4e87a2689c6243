import EntityModel.Workspace.Edit
import EntityModel.Workspace.Lifecycle

/-
**Commits: one pass over everything a transaction has touched.**

A commit works in this order; each part is a function on the `Pass` that gathers what is found.

1. `Pass.deleteTree` — trees to remove leave the catalog and the ledger; what rested on them is
   queued.
2. `Pass.reparse` — edited and new nodes are read again; what rested on them is queued.
3. `Pass.renormalize` — the symbols of these nodes and of those below edited ones are formed again;
   symbols that came or went are noted.
4. `Pass.queueChanged` — what waited for such a symbol, looked it up, or rests on a node that
   declares it is queued.
5. `Pass.resolve` — the nodes of 2 and 3 are resolved, then the queued ones.

Resolving changes no symbol, so one pass is enough. `commit` is the whole pass, `rebuild` a commit
in which every node counts as edited.
-/

namespace EntityModel

/-- What a commit did. -/
structure Report where
  /-- Nodes that are gone. -/
  removed : List NodeId
  /-- Nodes read again. -/
  reparsed : List NodeId
  /-- Nodes below edited ones whose symbol was formed again. -/
  renormalized : List NodeId
  /-- Nodes whose references alone were evaluated again. -/
  rebound : List NodeId
  /-- Symbols that some node has begun or ceased to declare. -/
  changedSymbols : List Symbol
  deriving DecidableEq

namespace Report

/-- The nodes resolved by the commit. -/
def resolved (report : Report) : List NodeId :=
  report.reparsed ++ report.renormalized ++ report.rebound

/-- Whether the commit had nothing to do. -/
def isEmpty (report : Report) : Bool :=
  report.removed.isEmpty && report.resolved.isEmpty

end Report

/-- A commit under way: the workspace so far, the nodes removed, the symbols that came or went, and
the owners of the references to evaluate again. -/
structure Pass where
  workspace : Workspace
  removed : List NodeId
  touched : OrderedSet Symbol
  queue : OrderedSet NodeId

namespace Pass

/-- Nothing done yet. -/
def start (workspace : Workspace) : Pass :=
  ⟨workspace, [], .empty, .empty⟩

/-- The symbols are noted, the empty one aside. -/
def touch (pass : Pass) (symbols : List Symbol) : Pass :=
  { pass with
    touched := pass.touched.insertAll (symbols.filter fun symbol => !symbol.isEmpty) }

/-- The owners of the references are queued. -/
def queueOwners (pass : Pass) (ids : List ReferenceId) : Pass :=
  { pass with queue := pass.queue.insertAll (ids.map ReferenceId.owner) }

/-- What rests on the node is queued. -/
def queueDependents (pass : Pass) (id : NodeId) : Pass :=
  pass.queueOwners
    (pass.workspace.ledger.referencers id ++ pass.workspace.ledger.contextDependents id)

/-! ### Removing -/

/-- A node that has left its tree withdraws its symbol and its references. -/
def withdrawNode (pass : Pass) (node : Node) : Pass :=
  let workspace :=
    { pass.workspace with
      catalog := Workspace.withdrawSymbol pass.workspace.catalog node
      ledger := node.referenceIds.foldl Ledger.forget pass.workspace.ledger }
  { pass with workspace }.touch node.symbol.toList

/-- The references that rested on a node which is gone are queued. -/
def dropNode (pass : Pass) (node : Node) : Pass :=
  let ledger := pass.workspace.ledger
  let queued := pass.queueOwners (ledger.dependents node.id)
  { queued with
    workspace := { pass.workspace with ledger := ledger.dropNode node.id }
    removed := pass.removed ++ [node.id] }

/-- A node and all below it are removed, if they are still there. -/
def deleteTree (pass : Pass) (root : NodeId) : Pass :=
  match pass.workspace.catalog.site? root with
  | none => pass
  | some site =>
    let nodes := site.subtree
    let workspace :=
      { pass.workspace with catalog := pass.workspace.catalog.removeSubtree root }
    nodes.foldl dropNode (nodes.foldl withdrawNode { pass with workspace })

/-- Documents are removed. -/
def dropDocuments (pass : Pass) (ids : List DocumentId) : Pass :=
  { pass with
    workspace :=
      { pass.workspace with catalog := ids.foldl Catalog.dropDocument pass.workspace.catalog } }

/-! ### Reading and naming again -/

/-- A node is read again, and what rests on it queued. The symbol it declared before is carried
along. -/
def reparse (state : Pass × List (NodeId × Option Symbol)) (id : NodeId) :
    Except WorkspaceError (Pass × List (NodeId × Option Symbol)) := do
  let queued := state.1.queueDependents id
  let (workspace, earlier) ← queued.workspace.parseNode id
  .ok ({ queued with workspace }, state.2 ++ [(id, earlier)])

/-- The symbol of a node is formed again. `earlier` holds the symbols that the nodes read again
declared before; what rests on those is queued already. -/
def renormalize (earlier : List (NodeId × Option Symbol)) (pass : Pass) (id : NodeId) :
    Except WorkspaceError Pass := do
  let (workspace, current, symbol) ← pass.workspace.normalizeNode id
  let named := { pass with workspace }
  let before := (earlier.lookup id).getD current
  if before = symbol then .ok named
  else
    let noted := named.touch (before.toList ++ symbol.toList)
    .ok (if (earlier.lookup id).isSome then noted else noted.queueDependents id)

/-- What has to do with a symbol that came or went is queued. -/
def queueChanged (pass : Pass) (symbol : Symbol) : Pass :=
  let ledger := pass.workspace.ledger
  let waiting := if pass.workspace.options.rebindWaiting then ledger.waitingOn symbol else []
  let queued := (pass.queueOwners waiting).queueOwners (ledger.lookupDependents symbol)
  (pass.workspace.catalog.lookup symbol).foldl queueDependents queued

/-! ### Resolving -/

/-- A node is resolved. -/
def resolve (pass : Pass) (id : NodeId) : Except WorkspaceError Pass := do
  let workspace ← pass.workspace.resolveNode id
  .ok { pass with workspace }

/-- A node is resolved again. -/
def resolveAgain (pass : Pass) (id : NodeId) : Except WorkspaceError Pass :=
  { pass with
    workspace := pass.workspace.modify id fun node =>
      { node with stage := .normalized } }.resolve id

end Pass

namespace Workspace

/-- The nodes that a transaction has changed or added, in document order. -/
def toReparse (workspace : Workspace) (transaction : Transaction) : List NodeId :=
  let edited := transaction.edited.items.filter workspace.catalog.contains
  let inserted := transaction.inserted.items.flatMap workspace.catalog.subtree
  workspace.catalog.sortByDocumentOrder (OrderedSet.ofList (edited ++ inserted)).items

/-- The nodes below edited ones whose content is read and that are not among those read again, in
document order. -/
def toRenormalize (workspace : Workspace) (transaction : Transaction) (reparsed : List NodeId) :
    List NodeId :=
  let below := transaction.edited.items.flatMap fun id => (workspace.catalog.subtree id).tail
  let ready := below.filter fun id =>
    (workspace.catalog.node? id).any fun node => node.stage.reaches .parsed
  workspace.catalog.sortByDocumentOrder
    (OrderedSet.ofList (ready.filter fun id => !reparsed.contains id)).items

/-- The queued nodes that are not resolved anyway and can be, in document order. -/
def toRebind (workspace : Workspace) (queue : OrderedSet NodeId) (resolved : List NodeId) :
    List NodeId :=
  workspace.catalog.sortByDocumentOrder <| queue.items.filter fun id =>
    !resolved.contains id &&
      (workspace.catalog.node? id).any fun node => node.stage.reaches .normalized

/-- The pass over everything the transaction has touched, once the transaction is closed. -/
def propagate (workspace : Workspace) (transaction : Transaction) :
    Except WorkspaceError (Workspace × Report) := do
  let deleted := transaction.deleted.items.foldl Pass.deleteTree (.start workspace)
  let cleared := deleted.dropDocuments transaction.unloaded
  let reparsed := cleared.workspace.toReparse transaction
  let (read, earlier) ← reparsed.foldlM Pass.reparse (cleared, [])
  let renormalized := read.workspace.toRenormalize transaction reparsed
  let work := read.workspace.catalog.sortByDocumentOrder (reparsed ++ renormalized)
  let named ← work.foldlM (Pass.renormalize earlier) read
  let queued := named.touched.items.foldl Pass.queueChanged named
  let resolved ← work.foldlM Pass.resolve queued
  let rebound := resolved.workspace.toRebind resolved.queue work
  let done ← rebound.foldlM Pass.resolveAgain resolved
  .ok (done.workspace,
    ⟨done.removed, reparsed, renormalized, rebound, done.touched.items⟩)

/-- The transaction is closed and everything it touched brought up to date. -/
def commit (workspace : Workspace) : Except WorkspaceError (Workspace × Report) :=
  match workspace.transaction with
  | none => .error .noTransaction
  | some transaction => { workspace with transaction := none }.propagate transaction

/-- Every node is read, named and resolved again, in a transaction of its own. -/
def rebuild (workspace : Workspace) : Except WorkspaceError (Workspace × Report) := do
  let opened ← workspace.beginTransaction
  let edited ← opened.catalog.documentOrder.foldlM beginEdit opened
  edited.commit

end Workspace

end EntityModel
