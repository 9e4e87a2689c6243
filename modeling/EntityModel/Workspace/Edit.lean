import EntityModel.Workspace.Basic

/-
**Edits: changes that wait for the next commit.**

Every edit opens a transaction if none is open. Until the commit, symbols and references stay as
they were; only the written form of the nodes and the shape of the trees change.

* `load`, `unload` — documents come at once and go with the commit.
* `beginEdit`, `setAttribute`, `removeAttribute`, `setText` — a node's written form.
* `insertElement`, `deleteNode` — the trees.
* `renameNode` — the attribute that holds a node's name.
-/

namespace EntityModel

namespace Workspace

/-- The workspace with the open transaction changed, a new one if none is open. -/
def changeTransaction (workspace : Workspace) (change : Transaction → Transaction) : Workspace :=
  { workspace with transaction := some (change workspace.current) }

/-- A transaction is opened. -/
def beginTransaction (workspace : Workspace) : Except WorkspaceError Workspace :=
  if workspace.inTransaction then .error .transactionOpen
  else .ok { workspace with transaction := some .empty }

/-- The place of a node that may be edited: it exists and stays. -/
def editable (workspace : Workspace) (id : NodeId) : Except WorkspaceError Site := do
  let site ← workspace.site id
  if workspace.isPendingDelete id then .error (.scheduledForDeletion id) else .ok site

/-! ### Documents -/

/-- A document is added; its nodes are processed at the commit. -/
def load (workspace : Workspace) (uri : String) (layer : Layer) (root : Element) :
    Workspace × DocumentId :=
  let (catalog, document) := workspace.catalog.addDocument uri layer root
  let roots := (document.root.map fun tree => tree.label.id).toList
  ({ workspace with catalog }.changeTransaction fun transaction =>
      { transaction with inserted := transaction.inserted.insertAll roots },
    document.id)

/-- A document goes with the commit. -/
def unload (workspace : Workspace) (id : DocumentId) : Except WorkspaceError Workspace :=
  match workspace.catalog.document? id with
  | none => .error (.unknownDocument id)
  | some document =>
    let roots := (document.root.map fun tree => tree.label.id).toList
    .ok (workspace.changeTransaction fun transaction =>
      { transaction with
        deleted := transaction.deleted.insertAll roots
        unloaded := transaction.unloaded ++ [id] })

/-! ### Written forms -/

/-- The written form of a node is about to change; the node counts as not read. -/
def beginEdit (workspace : Workspace) (id : NodeId) : Except WorkspaceError Workspace := do
  let _ ← workspace.editable id
  let opened := workspace.changeTransaction fun transaction =>
    { transaction with edited := transaction.edited.insert id }
  .ok (opened.modify id fun node => { node with stage := .unparsed })

/-- The head of a node changes; the node has to be one that is being edited. -/
def changeHead (workspace : Workspace) (id : NodeId) (change : Head → Head) :
    Except WorkspaceError Workspace :=
  if !workspace.isEditing id then .error (.notEditing id)
  else do
    let _ ← workspace.site id
    .ok (workspace.modify id fun node => { node with head := change node.head })

/-- An attribute gets a value. -/
def setAttribute (workspace : Workspace) (id : NodeId) (name value : String) :
    Except WorkspaceError Workspace :=
  workspace.changeHead id fun head =>
    { head with attributes := head.attributes.set name value }

/-- An attribute is taken away. -/
def removeAttribute (workspace : Workspace) (id : NodeId) (name : String) :
    Except WorkspaceError Workspace :=
  workspace.changeHead id fun head => { head with attributes := head.attributes.erase name }

/-- The text of an element changes. -/
def setText (workspace : Workspace) (id : NodeId) (text : Option String) :
    Except WorkspaceError Workspace :=
  workspace.changeHead id fun head => { head with text }

/-! ### Trees -/

/-- An element is added below a node, at the index or at the end; the number of its node goes with
the result. -/
def insertElement (workspace : Workspace) (parent : NodeId) (index : Option Nat)
    (element : Element) : Except WorkspaceError (Workspace × NodeId) := do
  let site ← workspace.editable parent
  let (catalog, child) := workspace.catalog.insertUnder site index element
  .ok ({ workspace with catalog }.changeTransaction fun transaction =>
      { transaction with inserted := transaction.inserted.insert child },
    child)

/-- A node and all below it go with the commit. -/
def deleteNode (workspace : Workspace) (id : NodeId) : Except WorkspaceError Workspace := do
  let _ ← workspace.site id
  .ok (workspace.changeTransaction fun transaction =>
    { transaction with deleted := transaction.deleted.insert id })

/-- The attribute that holds a node's name gets another value. The texts of references to the node
stay; they are evaluated again at the commit. -/
def renameNode (workspace : Workspace) (id : NodeId) (name : String) :
    Except WorkspaceError Workspace := do
  let site ← workspace.editable id
  match site.node.kind.nameAttribute? with
  | none => .error (.notRenamable id site.node.kind)
  | some key => (← workspace.beginEdit id).setAttribute id key name

end Workspace

end EntityModel
