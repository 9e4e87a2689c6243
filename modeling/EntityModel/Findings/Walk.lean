import EntityModel.Findings

/-
**Findings one at a time.**

Whoever asks for findings may stop at any of them, so a node is looked at when its turn comes.

* `Walk` — a walk over the nodes part way through.
* `Walk.next?` — the next finding, with the walk after it; `Walk.take` — the first findings of a walk.
* `Catalog.walk` — the walk over all nodes, in document order.
-/

namespace EntityModel

/-- A walk over nodes: the findings of the nodes visited that nobody has asked for yet, and the nodes
still to visit. -/
structure Walk where
  pending : List Finding
  order : List NodeId

namespace Catalog

/-- The findings of the node with the number. -/
def findingsOf (catalog : Catalog) (checkNames : Bool) (id : NodeId) : List Finding :=
  match catalog.node? id with
  | none => []
  | some node =>
    (catalog.problems checkNames node).map fun problem => ⟨node.id, problem, node.head.span⟩

/-- The first of the findings that wait. Without any, nodes are visited until there is one. -/
def nextFinding? (catalog : Catalog) (checkNames : Bool) :
    List Finding → List NodeId → Option (Finding × Walk)
  | finding :: pending, order => some (finding, ⟨pending, order⟩)
  | [], [] => none
  | [], id :: order => catalog.nextFinding? checkNames (catalog.findingsOf checkNames id) order

/-- The walk over all nodes before its first step. -/
def walk (catalog : Catalog) : Walk :=
  ⟨[], catalog.documentOrder⟩

end Catalog

namespace Walk

/-- The next finding of a walk, with what is left of it. -/
def next? (walk : Walk) (catalog : Catalog) (checkNames : Bool) : Option (Finding × Walk) :=
  catalog.nextFinding? checkNames walk.pending walk.order

/-- The first findings of a walk, fewer where it ends before. -/
def take (walk : Walk) (catalog : Catalog) (checkNames : Bool) : Nat → List Finding
  | 0 => []
  | count + 1 =>
    match walk.next? catalog checkNames with
    | none => []
    | some (finding, later) => finding :: later.take catalog checkNames count

end Walk

/-- The first findings of a workspace, asked for one by one. -/
def Workspace.firstFindings (workspace : Workspace) (count : Nat) : List Finding :=
  workspace.catalog.walk.take workspace.catalog workspace.options.validateIdentifiers count

end EntityModel
