import EntityModel.Workspace.Basic

/-
**The life of one node: read, named, resolved.**

* `parseNode` — the content is read from the written form; the symbol declared before and all
  dependencies recorded before are withdrawn.
* `normalizeNode` — the declared symbol is formed from the names around the node and registered.
* `resolveNode` — every reference is evaluated, its slots kept and its dependencies recorded.
* `rebind` — the same for one reference.

Each step is a total function on workspaces (`parsed`, `normalized`, `resolved`) behind the check
that the node exists and has come far enough.
-/

namespace EntityModel

namespace Workspace

/-- The stage has to have been reached for the step. -/
def requireStage (node : Node) (step : LifecycleStep) : Except WorkspaceError Unit :=
  if node.stage.reaches step.required then .ok ()
  else .error (.outOfOrder step node.id node.stage)

/-! ### Reading the content -/

/-- What the content of the node at the place is read from. -/
def source (site : Site) : Source :=
  ⟨site.node.kind, site.ancestors.head?.map Node.kind, site.document.layer, site.node.head,
    site.node.inline⟩

/-- The catalog without the symbol that a node declares. -/
def withdrawSymbol (catalog : Catalog) (node : Node) : Catalog :=
  match node.symbol with
  | some symbol => catalog.unregister symbol node.id
  | none => catalog

/-- The workspace after the content of the node at the place is read. -/
def parsed (workspace : Workspace) (site : Site) : Workspace :=
  let (content, defects) := Content.read (source site)
  let withdrawn :=
    { workspace with
      ledger := site.node.referenceIds.foldl Ledger.forget workspace.ledger
      catalog := withdrawSymbol workspace.catalog site.node }
  withdrawn.modify site.id fun node =>
    { node with content := some content, defects, symbol := none, stage := .parsed }

/-- The content of a node is read; the symbol it declared before goes with the result. -/
def parseNode (workspace : Workspace) (id : NodeId) :
    Except WorkspaceError (Workspace × Option Symbol) := do
  let site ← workspace.site id
  .ok (workspace.parsed site, site.node.symbol)

/-! ### The declared symbol -/

/-- The catalog with the symbol of a node changed in the index. -/
def replaceSymbol (catalog : Catalog) (id : NodeId) (earlier later : Option Symbol) : Catalog :=
  let withdrawn := match earlier with
    | some symbol => if later = some symbol then catalog else catalog.unregister symbol id
    | none => catalog
  match later with
  | some symbol => withdrawn.register symbol id
  | none => withdrawn

/-- The workspace after the symbol of the node at the place is formed. -/
def normalized (workspace : Workspace) (site : Site) : Workspace :=
  let symbol := site.declaredSymbol?
  let registered :=
    { workspace with catalog := replaceSymbol workspace.catalog site.id site.node.symbol symbol }
  registered.modify site.id fun node => { node with symbol, stage := .normalized }

/-- The symbol of a node is formed; the symbols before and after go with the result. -/
def normalizeNode (workspace : Workspace) (id : NodeId) :
    Except WorkspaceError (Workspace × Option Symbol × Option Symbol) := do
  let site ← workspace.site id
  requireStage site.node .normalize
  .ok (workspace.normalized site, site.node.symbol, site.declaredSymbol?)

/-! ### References -/

/-- The node with the slots of a reference kept. -/
def keepSlots (role : String) (slots : List Slot) (node : Node) : Node :=
  { node with
    content := node.content.map fun content =>
      { content with
        references := content.references.map fun reference =>
          if reference.role = role then { reference with answer := some slots } else reference } }

/-- The workspace with the outcome of an evaluation kept and recorded. -/
def applied (workspace : Workspace) (id : ReferenceId) (resolution : Resolution) : Workspace :=
  let recorded :=
    { workspace with ledger := workspace.ledger.record id resolution.dependencies }
  recorded.modify id.owner (keepSlots id.role resolution.slots)

/-- The outcomes for all references of a node, as the workspace stands. -/
def evaluateAll (workspace : Workspace) (node : Node) : List (ReferenceId × Resolution) :=
  node.references.map fun reference =>
    (⟨node.id, reference.role⟩, workspace.evaluate node.id reference)

/-- The workspace after the references of the node at the place are evaluated. -/
def resolved (workspace : Workspace) (site : Site) : Workspace :=
  let answered := (workspace.evaluateAll site.node).foldl
    (fun workspace outcome => workspace.applied outcome.1 outcome.2) workspace
  answered.modify site.id fun node => { node with stage := .resolved }

/-- The references of a node are evaluated. -/
def resolveNode (workspace : Workspace) (id : NodeId) : Except WorkspaceError Workspace := do
  let site ← workspace.site id
  requireStage site.node .resolve
  .ok (workspace.resolved site)

/-- One reference is evaluated again; the outcome goes with the result. -/
def rebind (workspace : Workspace) (id : ReferenceId) :
    Except WorkspaceError (Workspace × Resolution) := do
  let site ← workspace.site id.owner
  requireStage site.node .rebind
  match site.node.reference? id.role with
  | none => .error (.noSuchReference id.owner id.role)
  | some reference =>
    let resolution := workspace.evaluate id.owner reference
    .ok (workspace.applied id resolution, resolution)

end Workspace

end EntityModel
