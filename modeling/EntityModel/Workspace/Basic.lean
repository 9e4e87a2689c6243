import EntityModel.Options
import EntityModel.Resolution

/-
**The workspace: documents, their references, and the edits under way.**

* `Workspace` — the catalog with the ledger that goes with it, the options, and the open
  transaction.
* `Transaction` — what has been edited, added and marked for removal since the last commit.
* `WorkspaceError` — why a call is refused. Unresolved references and defects of elements are no
  errors: they are reported by the findings.
-/

namespace EntityModel

/-- What has changed since the last commit. -/
structure Transaction where
  /-- Nodes whose written form may have changed. -/
  edited : OrderedSet NodeId
  /-- Roots of the trees that are new. -/
  inserted : OrderedSet NodeId
  /-- Roots of the trees to remove. -/
  deleted : OrderedSet NodeId
  /-- Documents to remove. -/
  unloaded : List DocumentId

/-- A transaction in which nothing has changed. -/
def Transaction.empty : Transaction := ⟨.empty, .empty, .empty, []⟩

/-- The documents of a model with all that is known about them. -/
structure Workspace where
  options : Options
  catalog : Catalog
  ledger : Ledger
  /-- The open transaction. -/
  transaction : Option Transaction

/-- A step in the life of a node that needs an earlier one. -/
inductive LifecycleStep where
  | normalize
  | resolve
  | rebind
  deriving DecidableEq, Repr

namespace LifecycleStep

/-- The step as messages name it. -/
def display : LifecycleStep → String
  | .normalize => "normalize"
  | .resolve => "resolve"
  | .rebind => "rebind"

/-- The stage a node needs to have reached. -/
def required : LifecycleStep → Stage
  | .normalize => .parsed
  | .resolve | .rebind => .normalized

end LifecycleStep

/-- Why a call is refused. -/
inductive WorkspaceError where
  | unknownNode (id : NodeId)
  | unknownDocument (id : DocumentId)
  | noTransaction
  | transactionOpen
  /-- The written form of a node changes only while it is being edited. -/
  | notEditing (id : NodeId)
  | notRenamable (id : NodeId) (kind : Kind)
  /-- The node has not come far enough for the step. -/
  | outOfOrder (step : LifecycleStep) (id : NodeId) (stage : Stage)
  | noSuchReference (id : NodeId) (role : String)
  /-- The node, or one above it, goes with the next commit. -/
  | scheduledForDeletion (id : NodeId)
  deriving DecidableEq, Repr

/-- The wording of an error. -/
def WorkspaceError.message : WorkspaceError → String
  | .unknownNode id => "Unknown node: " ++ id.display
  | .unknownDocument id => "Unknown artifact: " ++ id.display
  | .noTransaction => "No edit transaction is open"
  | .transactionOpen => "An edit transaction is already open"
  | .notEditing id => "Node " ++ id.display ++ " is not being edited"
  | .notRenamable id kind =>
    "Node " ++ id.display ++ " (" ++ kind.display ++ ") has no name to rename"
  | .outOfOrder step id stage =>
    "Invariant violation: cannot " ++ step.display ++ " " ++ id.display ++ ": node is " ++
      stage.display ++ ", expected at least " ++ step.required.display
  | .noSuchReference id role =>
    "Invariant violation: " ++ id.display ++ " has no binding '" ++ role ++ "'"
  | .scheduledForDeletion id =>
    "Invariant violation: " ++ id.display ++ " is scheduled for deletion"

namespace Workspace

/-- A workspace without documents. -/
def ofOptions (options : Options) : Workspace :=
  ⟨options, .empty, .empty, none⟩

/-- The workspace with a node changed. -/
def modify (workspace : Workspace) (id : NodeId) (change : Node → Node) : Workspace :=
  { workspace with catalog := workspace.catalog.modify id change }

/-- The place of a node, or the error that there is none. -/
def site (workspace : Workspace) (id : NodeId) : Except WorkspaceError Site :=
  match workspace.catalog.site? id with
  | some site => .ok site
  | none => .error (.unknownNode id)

/-- The reference with this owner and role. -/
def reference? (workspace : Workspace) (id : ReferenceId) : Option Reference :=
  (workspace.catalog.node? id.owner).bind fun node => node.reference? id.role

/-- The outcome of evaluating a reference of the owner now. -/
def evaluate (workspace : Workspace) (owner : NodeId) (reference : Reference) : Resolution :=
  workspace.catalog.evaluate workspace.options.listSeparator owner reference

/-! ### The open transaction -/

/-- Whether a transaction is open. -/
def inTransaction (workspace : Workspace) : Bool :=
  workspace.transaction.isSome

/-- The open transaction, or an empty one. -/
def current (workspace : Workspace) : Transaction :=
  workspace.transaction.getD .empty

/-- Whether the node is being edited. -/
def isEditing (workspace : Workspace) (id : NodeId) : Bool :=
  decide (id ∈ workspace.current.edited)

/-- Whether the node or one above it goes with the next commit. -/
def isPendingDelete (workspace : Workspace) (id : NodeId) : Bool :=
  (id :: workspace.catalog.ancestors id).any fun each =>
    decide (each ∈ workspace.current.deleted)

end Workspace

end EntityModel
