import EntityModel.Workspace.Basic

/-
**Views: what a model browser shows of the nodes.**

* `Site.items` — what appears below a node: its child nodes, then its references, then its
  attributes with defaults.
* `Workspace.referencersOfKind` — the nodes of one kind that refer to a node, in document order,
  each once. The mapping of an entity set and the mappings of an association end are such nodes.
* `Node.displayName` — the label of a node.
* `Catalog.toElement?` — a node with all below it as an element again.
-/

namespace EntityModel

/-- Something that appears below a node. -/
inductive Item where
  | node (node : Node)
  | reference (reference : Reference)
  | value (value : DefaultedValue)

/-- What appears below the node. -/
def Site.items (site : Site) : List Item :=
  site.children.map .node ++ site.node.references.map .reference ++
    site.node.defaultedValues.map .value

namespace Workspace

/-- The list without the items that equal the one before. -/
def withoutRepeats : List NodeId → List NodeId
  | first :: second :: rest =>
    if first = second then withoutRepeats (second :: rest)
    else first :: withoutRepeats (second :: rest)
  | short => short

/-- The nodes of the kind with a reference to the target, in document order. -/
def referencersOfKind (workspace : Workspace) (target : NodeId) (kind : Kind) : List NodeId :=
  let owners := (workspace.ledger.referencers target).map ReferenceId.owner
  let fitting := owners.filter fun owner =>
    (workspace.catalog.node? owner).any fun node => node.kind = kind
  withoutRepeats (workspace.catalog.sortByDocumentOrder fitting)

/-- The mapping of an entity set: the first one that refers to it. -/
def entitySetMapping? (workspace : Workspace) (entitySet : NodeId) : Option NodeId :=
  (workspace.referencersOfKind entitySet .entitySetMapping).head?

/-- The mappings of an end of an association set. -/
def endProperties (workspace : Workspace) (setEnd : NodeId) : List NodeId :=
  workspace.referencersOfKind setEnd .endProperty

end Workspace

/-- The label of a node: rows and conditions by property and column, other nodes by their name,
nodes without a name by their kind. -/
def Node.displayName (node : Node) : String :=
  let written := ((node.references.head?.bind Reference.text).getD "")
  match node.content.map Content.fields with
  | some (.scalarProperty columnName) | some (.condition columnName _ _) =>
    written ++ " <==> " ++ columnName.getD ""
  | _ =>
    match node.name with
    | some name => if name.isEmpty then node.kind.display else name
    | none => node.kind.display

/-- The label of a node; empty without such a node. -/
def Catalog.displayName (catalog : Catalog) (id : NodeId) : String :=
  ((catalog.node? id).map Node.displayName).getD ""

/-- The node with all below it as an element, as it is written now. -/
def Catalog.toElement? (catalog : Catalog) (id : NodeId) : Option Element :=
  (catalog.site? id).map fun site => site.spot.tree.toElement

end EntityModel
