import EntityModel.Exchange
import EntityModel.Workspace.Command

/-
**Calls as they run, write by write.**

The functions on workspaces give a changed workspace or an error, never both. Here the same calls
run in place: every write reaches the workspace at once, checks and writes stand in the order in
which they are made, and where a call stops with an error the writes made until then stay.

* `Attempt` — a run that reads and writes a state and may stop.
* `read`, `write` — its two kinds of steps.
* `onWorkspace`, `asPass` — calls on the workspace as steps of a commit, and a commit as a call on
  the workspace.
* `perform`, `loadFile` — every command, and the loading of whole files.
* `Call`, `after` — what a history of calls leaves, those that stop included.
-/

namespace EntityModel

/-- A run on a state in place. Where it stops with an error, the writes made until then stay. -/
abbrev Attempt (σ ε α : Type) := EStateM ε σ α

namespace Attempt

/-! ### Steps -/

section Steps

variable {σ ε α : Type}

/-- Something is looked up in the state, or the run stops. -/
def read (look : σ → Except ε α) : Attempt σ ε α := fun state =>
  match look state with
  | .ok value => .ok value state
  | .error error => .error error state

/-- The state changes. -/
def write (change : σ → σ) : Attempt σ ε Unit := fun state => .ok () (change state)

/-- The state that a run leaves, however it ends. -/
def left : EStateM.Result ε σ α → σ
  | .ok _ state => state
  | .error _ state => state

/-- How a run ends that either goes through or changes nothing. -/
def outcome (state : σ) : Except ε (σ × α) → EStateM.Result ε σ α
  | .ok (changed, value) => .ok value changed
  | .error error => .error error state

/-- A call on the workspace as a step of a commit. -/
def onWorkspace (call : Attempt Workspace ε α) : Attempt Pass ε α := fun pass =>
  match call pass.workspace with
  | .ok value workspace => .ok value { pass with workspace }
  | .error error workspace => .error error { pass with workspace }

/-- A commit as a call on the workspace: what it carries along ends with it, its writes stay. -/
def asPass (run : Attempt Pass ε α) : Attempt Workspace ε α := fun workspace =>
  match run (.start workspace) with
  | .ok value pass => .ok value pass.workspace
  | .error error pass => .error error pass.workspace

end Steps

/-! ### Edits -/

/-- The open transaction changes; one is opened where none is. -/
def changeTransaction {ε : Type} (change : Transaction → Transaction) : Attempt Workspace ε Unit :=
  write fun workspace => workspace.changeTransaction change

/-- A transaction is opened, if none is. -/
def beginTransaction : Attempt Workspace WorkspaceError Unit := do
  read fun workspace => if workspace.inTransaction then .error .transactionOpen else .ok ()
  write fun workspace => { workspace with transaction := some .empty }

/-- Loading never stops, so it fits every kind of error. -/
def load {ε : Type} (uri : String) (layer : Layer) (root : Element) :
    Attempt Workspace ε DocumentId := do
  let (catalog, document) := (← get).catalog.addDocument uri layer root
  write fun workspace => { workspace with catalog }
  let roots := (document.root.map fun tree => tree.label.id).toList
  changeTransaction fun transaction =>
    { transaction with inserted := transaction.inserted.insertAll roots }
  return document.id

/-- The document and all its nodes are marked to go with the next commit. -/
def unload (id : DocumentId) : Attempt Workspace WorkspaceError Unit := do
  let document ← read fun workspace =>
    match workspace.catalog.document? id with
    | none => .error (.unknownDocument id)
    | some document => .ok document
  let roots := (document.root.map fun tree => tree.label.id).toList
  changeTransaction fun transaction =>
    { transaction with deleted := transaction.deleted.insertAll roots }
  changeTransaction fun transaction =>
    { transaction with unloaded := transaction.unloaded ++ [id] }

/-- The node is marked as edited, and has to be read again. -/
def beginEdit (id : NodeId) : Attempt Workspace WorkspaceError Unit := do
  let _ ← read fun workspace => workspace.editable id
  changeTransaction fun transaction => { transaction with edited := transaction.edited.insert id }
  write fun workspace => workspace.modify id fun node => { node with stage := .unparsed }

/-- What is written of a node changes, if the node is being edited. -/
def changeHead (id : NodeId) (change : Head → Head) : Attempt Workspace WorkspaceError Unit := do
  read fun workspace => if !workspace.isEditing id then .error (.notEditing id) else .ok ()
  let _ ← read fun workspace => workspace.site id
  write fun workspace => workspace.modify id fun node => { node with head := change node.head }

/-- The attribute of a node being edited gets the value, behind the others if it is new. -/
def setAttribute (id : NodeId) (name value : String) : Attempt Workspace WorkspaceError Unit :=
  changeHead id fun head => { head with attributes := head.attributes.set name value }

/-- The attribute of a node being edited is taken away. -/
def removeAttribute (id : NodeId) (name : String) : Attempt Workspace WorkspaceError Unit :=
  changeHead id fun head => { head with attributes := head.attributes.erase name }

/-- The text of a node being edited is replaced. -/
def setText (id : NodeId) (text : Option String) : Attempt Workspace WorkspaceError Unit :=
  changeHead id fun head => { head with text }

/-- The element is planted below the parent, and marked as new. -/
def insertElement (parent : NodeId) (index : Option Nat) (element : Element) :
    Attempt Workspace WorkspaceError NodeId := do
  let site ← read fun workspace => workspace.editable parent
  let (catalog, child) := (← get).catalog.insertUnder site index element
  write fun workspace => { workspace with catalog }
  changeTransaction fun transaction =>
    { transaction with inserted := transaction.inserted.insert child }
  return child

/-- The node is marked to go, with all below it, with the next commit. -/
def deleteNode (id : NodeId) : Attempt Workspace WorkspaceError Unit := do
  let _ ← read fun workspace => workspace.site id
  changeTransaction fun transaction => { transaction with deleted := transaction.deleted.insert id }

/-! ### Renaming -/

/-- The name is written into the attribute that names nodes of the kind. -/
def renameNode (id : NodeId) (name : String) : Attempt Workspace WorkspaceError Unit := do
  let site ← read fun workspace => workspace.editable id
  match site.node.kind.nameAttribute? with
  | none => throw (.notRenamable id site.node.kind)
  | some key =>
    beginEdit id
    setAttribute id key name

/-- The text of a reference is written, unless its owner is about to go. The references written so
far are carried along. -/
def writeText (written : List ReferenceId) (change : ReferenceId × String) :
    Attempt Workspace WorkspaceError (List ReferenceId) := do
  let (id, text) := change
  if (← get).isPendingDelete id.owner then return written
  if !(← get).isEditing id.owner then beginEdit id.owner
  setAttribute id.owner id.role text
  return written ++ [id]

/-- The texts to write are made before the first write. -/
def renameWithReferences (id : NodeId) (name : String) :
    Attempt Workspace WorkspaceError (List ReferenceId) := do
  let changes := (← get).retargetedTexts id name
  renameNode id name
  changes.foldlM writeText []

/-! ### The life of one node -/

/-- The node is looked up twice, the second time after what it had declared is withdrawn. -/
def parse (id : NodeId) : Attempt Workspace WorkspaceError (Option Symbol) := do
  let site ← read fun workspace => workspace.site id
  let (content, defects) := Content.read (Workspace.source site)
  write fun workspace =>
    { workspace with ledger := site.node.referenceIds.foldl Ledger.forget workspace.ledger }
  write fun workspace =>
    { workspace with catalog := Workspace.withdrawSymbol workspace.catalog site.node }
  let _ ← read fun workspace => workspace.site id
  write fun workspace => workspace.modify id fun node =>
    { node with content := some content, defects, symbol := none, stage := .parsed }
  return site.node.symbol

/-- The node is looked up twice, the second time after its symbol has changed in the index. -/
def normalize (id : NodeId) :
    Attempt Workspace WorkspaceError (Option Symbol × Option Symbol) := do
  let site ← read fun workspace => workspace.site id
  read fun _ => Workspace.requireStage site.node .normalize
  let symbol := site.declaredSymbol?
  write fun workspace =>
    { workspace with
      catalog := Workspace.replaceSymbol workspace.catalog id site.node.symbol symbol }
  let _ ← read fun workspace => workspace.site id
  write fun workspace => workspace.modify id fun node => { node with symbol, stage := .normalized }
  return (site.node.symbol, symbol)

/-- The outcome of an evaluation is recorded, then kept. -/
def apply (id : ReferenceId) (resolution : Resolution) : Attempt Workspace WorkspaceError Unit := do
  write fun workspace =>
    { workspace with ledger := workspace.ledger.record id resolution.dependencies }
  write fun workspace => workspace.modify id.owner (Workspace.keepSlots id.role resolution.slots)

/-- All references of the node are evaluated in one state, then the outcomes are kept one by one. -/
def resolve (id : NodeId) : Attempt Workspace WorkspaceError Unit := do
  let site ← read fun workspace => workspace.site id
  read fun _ => Workspace.requireStage site.node .resolve
  let outcomes := (← get).evaluateAll site.node
  outcomes.forM fun outcome => apply outcome.1 outcome.2
  write fun workspace => workspace.modify id fun node => { node with stage := .resolved }

/-- One reference of a node that has been resolved is evaluated again. -/
def rebind (id : ReferenceId) : Attempt Workspace WorkspaceError Resolution := do
  let site ← read fun workspace => workspace.site id.owner
  read fun _ => Workspace.requireStage site.node .rebind
  match site.node.reference? id.role with
  | none => throw (.noSuchReference id.owner id.role)
  | some reference =>
    let resolution := (← get).evaluate id.owner reference
    apply id resolution
    return resolution

/-! ### Commits -/

/-- A node is read again, after what rests on it is queued. The nodes read so far are carried along
with the symbols they had. -/
def reparse (earlier : List (NodeId × Option Symbol)) (id : NodeId) :
    Attempt Pass WorkspaceError (List (NodeId × Option Symbol)) := do
  write fun pass => pass.queueDependents id
  let symbol ← onWorkspace (parse id)
  return earlier ++ [(id, symbol)]

/-- A node is named again. Where its symbol is another than before the commit, both are noted, and
what rests on the node is queued unless it has been. -/
def renormalize (earlier : List (NodeId × Option Symbol)) (id : NodeId) :
    Attempt Pass WorkspaceError Unit := do
  let (current, symbol) ← onWorkspace (normalize id)
  let before := (earlier.lookup id).getD current
  if before = symbol then return
  write fun pass => pass.touch (before.toList ++ symbol.toList)
  if (earlier.lookup id).isSome then return
  write fun pass => pass.queueDependents id

/-- A resolved node is taken a step back and resolved once more. -/
def resolveAgain (id : NodeId) : Attempt Pass WorkspaceError Unit := do
  onWorkspace (write fun workspace => workspace.modify id fun node =>
    { node with stage := .normalized })
  onWorkspace (resolve id)

/-- All that a commit does with what the transaction has collected, phase by phase. -/
def propagate (transaction : Transaction) : Attempt Workspace WorkspaceError Report := asPass do
  write fun pass => transaction.deleted.items.foldl Pass.deleteTree pass
  write fun pass => pass.dropDocuments transaction.unloaded
  let reparsed := (← get).workspace.toReparse transaction
  let earlier ← reparsed.foldlM reparse []
  let renormalized := (← get).workspace.toRenormalize transaction reparsed
  let work := (← get).workspace.catalog.sortByDocumentOrder (reparsed ++ renormalized)
  work.forM (renormalize earlier)
  write fun pass => pass.touched.items.foldl Pass.queueChanged pass
  work.forM fun id => onWorkspace (resolve id)
  let rebound := (← get).workspace.toRebind (← get).queue work
  rebound.forM resolveAgain
  let done ← get
  return ⟨done.removed, reparsed, renormalized, rebound, done.touched.items⟩

/-- The transaction is closed before anything else is done. -/
def commit : Attempt Workspace WorkspaceError Report := do
  let transaction ← read fun workspace =>
    match workspace.transaction with
    | none => .error .noTransaction
    | some transaction => .ok transaction
  write fun workspace => { workspace with transaction := none }
  propagate transaction

/-- All nodes are edited in a transaction of their own, and committed. -/
def rebuild : Attempt Workspace WorkspaceError Report := do
  beginTransaction
  (← get).catalog.documentOrder.forM beginEdit
  commit

/-! ### Every call -/

/-- One command. -/
def perform : Command → Attempt Workspace WorkspaceError Answer
  | .load uri layer root => do return .document (← load uri layer root)
  | .unload id => do unload id; return .done
  | .beginTransaction => do beginTransaction; return .done
  | .beginEdit id => do beginEdit id; return .done
  | .setAttribute id name value => do setAttribute id name value; return .done
  | .removeAttribute id name => do removeAttribute id name; return .done
  | .setText id text => do setText id text; return .done
  | .insertElement parent index element => do return .node (← insertElement parent index element)
  | .deleteNode id => do deleteNode id; return .done
  | .renameNode id name => do renameNode id name; return .done
  | .renameWithReferences id name => do return .references (← renameWithReferences id name)
  | .commit => do return .report (← commit)
  | .rebuild => do return .report (← rebuild)
  | .parse id => do let _ ← parse id; return .done
  | .normalize id => do let _ ← normalize id; return .done
  | .resolve id => do resolve id; return .done
  | .rebind id => do return .resolution (← rebind id)

/-- The documents of one file, added one by one. -/
def loadSections (uri : Layer → String) (sections : List (Layer × Element)) :
    Attempt Workspace ExchangeError (List DocumentId) :=
  sections.foldlM (fun ids part => return ids ++ [← load (uri part.1) part.1 part.2]) []

/-- A file is read, and its sections become documents; a file without sections is refused. -/
def loadFile (uri : String) (bytes : List UInt8) :
    Attempt Workspace ExchangeError (List DocumentId) := do
  let root ← read fun _ => (Xml.read bytes).mapError .unreadable
  let sections := root.sections
  if sections.isEmpty then throw (.foreignRoot uri root.label.qualifiedTag)
  let inContainer := 1 < sections.length || Workspace.isContainerRoot root.label
  loadSections (fun layer => if inContainer then uri ++ "#" ++ layer.display else uri) sections

/-- A command, or a file to load. -/
inductive Call where
  | command (command : Command)
  | file (uri : String) (bytes : List UInt8)

/-- The workspace that one call leaves. -/
def next (workspace : Workspace) : Call → Workspace
  | .command command => left (perform command workspace)
  | .file uri bytes => left (loadFile uri bytes workspace)

/-- The workspace that the calls leave, made in order. -/
def after (workspace : Workspace) (calls : List Call) : Workspace :=
  calls.foldl next workspace

end Attempt

end EntityModel
