/-
**What nodes, documents and references are called.**

* `NodeId`, `DocumentId` — numbers given out in order and never given out twice.
* `ReferenceId` — a reference by the node that owns it and its role there; `before` is the order of
  lists of references.
-/

namespace EntityModel

/-- The number of a node. -/
structure NodeId where
  number : Nat
  deriving DecidableEq, Repr

/-- The number of a document. -/
structure DocumentId where
  number : Nat
  deriving DecidableEq, Repr

/-- A reference: the node that owns it and the role it has there. -/
structure ReferenceId where
  owner : NodeId
  role : String
  deriving DecidableEq, Repr

/-- The node as messages name it. -/
def NodeId.display (id : NodeId) : String :=
  "#" ++ toString id.number

/-- The document as messages name it. -/
def DocumentId.display (id : DocumentId) : String :=
  "artifact" ++ toString id.number

/-- The reference as messages name it. -/
def ReferenceId.display (id : ReferenceId) : String :=
  id.owner.display ++ "." ++ id.role

/-- References by the number of their owner, those of one owner by role. -/
instance : Ord ReferenceId :=
  ⟨compareLex (compareOn fun id => id.owner.number) (compareOn ReferenceId.role)⟩

/-- Whether one reference may stand before another in a sorted list. -/
def ReferenceId.before (first second : ReferenceId) : Bool :=
  (compare first second).isLE

end EntityModel
