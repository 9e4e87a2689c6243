import EntityModel.Element
import EntityModel.Text.Pieces

/-
**Layers, and the documents a file holds.**

A model has four layers: the conceptual schema, the storage schema, the mapping between them and the
designer's own data. A file holds one document of one layer, or a container with a section for each.

* `layer?` — the layer of a document that stands alone, told by its root.
* `sections` — the documents of a file, in the order they stand in it.
-/

namespace EntityModel

/-- What part of a model a document describes. -/
inductive Layer where
  /-- Entity types, associations, the conceptual container. -/
  | conceptual
  /-- Tables as entity types, store functions, the storage container. -/
  | storage
  /-- How conceptual sets map onto storage sets. -/
  | mapping
  /-- Diagrams and designer options. -/
  | designer
  deriving DecidableEq, Repr

namespace Layer

/-- The name of the layer in messages and document addresses. -/
def display : Layer → String
  | .conceptual => "conceptual"
  | .storage => "storage"
  | .mapping => "mapping"
  | .designer => "designer"

/-- Whether documents of the layer are schemas. -/
def isSchema : Layer → Bool
  | .conceptual | .storage => true
  | .mapping | .designer => false

end Layer

namespace Head

/-- Whether the head marks a storage schema: only storage schemas name a provider, and only theirs
is a namespace of the store schema language. -/
def marksStorage (head : Head) : Bool :=
  (head.attribute? "Provider").isSome ||
    head.attributes.entries.any fun entry =>
      "xmlns".toList.isPrefixOf entry.1.toList &&
        (Text.cutStretch? "/ssdl".toList entry.2.toList).isSome

/-- The layer of a document with this root. -/
def layer? (root : Head) : Option Layer :=
  if root.tag = "Schema" then some (if root.marksStorage then .storage else .conceptual)
  else if root.tag = "Mapping" then some .mapping
  else if root.tag = "Designer" then some .designer
  else none

end Head

/-- The local name of a container's root. -/
def containerTag : String := "Edmx"

/-- The layer of the documents in a section of a container's runtime part. -/
def runtimeSection? (tag : String) : Option Layer :=
  [("StorageModels", Layer.storage), ("ConceptualModels", .conceptual),
    ("Mappings", .mapping)].lookup tag

namespace Element

/-- The documents of one part of a container: each child of each known section of the runtime part,
and the designer part as a whole. -/
def partSections (part : Element) : List (Layer × Element) :=
  if part.tag = "Runtime" then
    part.children.flatMap fun models =>
      match runtimeSection? models.label.tag with
      | some layer => models.children.map fun document => (layer, document)
      | none => []
  else if part.tag = "Designer" then [(.designer, part)]
  else []

/-- The documents of a file with their layers, in the order they stand in it. A root of no known
kind holds none. -/
def sections (root : Element) : List (Layer × Element) :=
  if root.tag = containerTag then root.children.flatMap partSections
  else match root.label.layer? with
    | some layer => [(layer, root)]
    | none => []

end Element

end EntityModel
