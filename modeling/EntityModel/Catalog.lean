import EntityModel.Node
import EntityModel.OrderedSet
import EntityModel.Sorting

/-
**The catalog: the loaded documents and the symbols their nodes declare.**

* `Document` — a tree of nodes with its address and its layer; the tree is gone once its root is
  deleted.
* `Site` — a node with the document it stands in and the nodes above it. `Catalog.sites` lists them
  in document order: the documents in the order of loading, each from its root down.
* `Catalog.orderKey?` — where a node stands, as the place of its document and the path to it; lists
  of nodes are sorted by these keys.
* `Catalog.lookup` — the nodes that declare a symbol, from the index that is kept of them.
* `plant`, `insertUnder`, `removeSubtree`, `modify` — the changes to the trees.
-/

namespace EntityModel

/-- A loaded document. -/
structure Document where
  id : DocumentId
  uri : String
  layer : Layer
  root : Option (Tree Node)

/-- Where a node stands: the place of its document among all, the document, and the place in it. -/
structure Site where
  rank : Nat
  document : Document
  spot : Tree.Spot Node

namespace Site

/-- The node. -/
def node (site : Site) : Node :=
  site.spot.label

/-- The number of the node. -/
def id (site : Site) : NodeId :=
  site.node.id

/-- The nodes above the node, the nearest first. -/
def ancestors (site : Site) : List Node :=
  site.spot.above

/-- The node and all below it, in document order. -/
def subtree (site : Site) : List Node :=
  site.spot.tree.labels

/-- The nodes right below the node, in order. -/
def children (site : Site) : List Node :=
  site.spot.tree.children.map Tree.label

end Site

/-- The loaded documents, the index of declared symbols, and the next free numbers. -/
structure Catalog where
  documents : List Document
  symbols : Relation Symbol NodeId
  nextDocument : Nat
  nextNode : Nat

namespace Catalog

/-- Nothing loaded. -/
def empty : Catalog := ⟨[], .empty, 0, 0⟩

/-! ### Places -/

/-- The places of a document's nodes, in document order. -/
def sitesOf (rank : Nat) (document : Document) : List Site :=
  match document.root with
  | none => []
  | some root => root.spots.map fun spot => ⟨rank, document, spot⟩

/-- The places of all nodes, in document order. -/
def sites (catalog : Catalog) : List Site :=
  (catalog.documents.zipIdx.map fun (document, rank) => sitesOf rank document).flatten

/-- The place of a node. -/
def site? (catalog : Catalog) (id : NodeId) : Option Site :=
  catalog.sites.find? fun site => site.id = id

/-- The node with the number. -/
def node? (catalog : Catalog) (id : NodeId) : Option Node :=
  (catalog.site? id).map Site.node

/-- Whether there is a node with the number. -/
def contains (catalog : Catalog) (id : NodeId) : Bool :=
  (catalog.site? id).isSome

/-- The number of nodes. -/
def nodeCount (catalog : Catalog) : Nat :=
  catalog.sites.length

/-- The nodes in document order. -/
def documentOrder (catalog : Catalog) : List NodeId :=
  catalog.sites.map Site.id

/-- The node and all below it, in document order; nothing without such a node. -/
def subtree (catalog : Catalog) (id : NodeId) : List NodeId :=
  match catalog.site? id with
  | none => []
  | some site => site.subtree.map Node.id

/-- The nodes above a node, the nearest first. -/
def ancestors (catalog : Catalog) (id : NodeId) : List NodeId :=
  match catalog.site? id with
  | none => []
  | some site => site.ancestors.map Node.id

/-- The place of a node's document among all, and the path of child positions to the node. -/
def orderKey? (catalog : Catalog) (id : NodeId) : Option (Nat × List Nat) :=
  (catalog.site? id).map fun site => (site.rank, site.spot.path)

/-- Whether the first path leads to the place of the second or to one before it in document order. -/
def pathBefore : List Nat → List Nat → Bool
  | [], _ => true
  | _ :: _, [] => false
  | first :: below, second :: under =>
    first < second || (first == second && pathBefore below under)

/-- Whether a node with the first key may stand before one with the second. Nodes without a key come
last. -/
def keyBefore : Option (Nat × List Nat) → Option (Nat × List Nat) → Bool
  | _, none => true
  | none, some _ => false
  | some first, some second =>
    first.1 < second.1 || (first.1 == second.1 && pathBefore first.2 second.2)

/-- The nodes in the order of their keys. -/
def sortByDocumentOrder (catalog : Catalog) (ids : List NodeId) : List NodeId :=
  (sortBy (fun first second => keyBefore first.1 second.1)
    (ids.map fun id => (catalog.orderKey? id, id))).map Prod.snd

/-! ### Documents -/

/-- The document with the number. -/
def document? (catalog : Catalog) (id : DocumentId) : Option Document :=
  catalog.documents.find? fun document => document.id = id

/-- The first document with the address. -/
def documentByUri? (catalog : Catalog) (uri : String) : Option Document :=
  catalog.documents.find? fun document => document.uri = uri

/-- The catalog with every document changed. -/
def mapDocuments (catalog : Catalog) (change : Document → Document) : Catalog :=
  { catalog with documents := catalog.documents.map change }

/-- The catalog without the document. -/
def dropDocument (catalog : Catalog) (id : DocumentId) : Catalog :=
  { catalog with documents := catalog.documents.filter fun document => document.id ≠ id }

/-! ### Trees -/

/-- The nodes of a draft, numbered in document order from the next free number on. -/
def plant (catalog : Catalog) (draft : Tree Draft) : Tree Node :=
  (draft.number catalog.nextNode).map fun (number, draft) => .ofDraft number draft

/-- The catalog with a new document, and its root. -/
def addDocument (catalog : Catalog) (uri : String) (layer : Layer) (root : Element) :
    Catalog × Document :=
  let tree := catalog.plant (draft none (.ofRoot layer root.label.tag) root)
  let document : Document := ⟨⟨catalog.nextDocument⟩, uri, layer, some tree⟩
  ({ catalog with
      documents := catalog.documents ++ [document]
      nextDocument := catalog.nextDocument + 1
      nextNode := catalog.nextNode + tree.size },
    document)

/-- The catalog with the element as a child of the node at the place, and the child. -/
def insertUnder (catalog : Catalog) (parent : Site) (index : Option Nat) (element : Element) :
    Catalog × NodeId :=
  let outer := parent.ancestors.head?.map Node.kind
  let kind := parent.node.kind.ofNested outer element.label.tag
  let tree := catalog.plant (draft (some parent.node.kind) kind element)
  let grown := catalog.mapDocuments fun document =>
    { document with
      root := document.root.map (Tree.insertAt (fun node => node.id = parent.id) index tree) }
  ({ grown with nextNode := catalog.nextNode + tree.size }, tree.label.id)

/-- The catalog without the node and all below it. -/
def removeSubtree (catalog : Catalog) (id : NodeId) : Catalog :=
  catalog.mapDocuments fun document =>
    { document with root := document.root.bind (Tree.prune fun node => node.id = id) }

/-- The catalog with the node changed. -/
def modify (catalog : Catalog) (id : NodeId) (change : Node → Node) : Catalog :=
  catalog.mapDocuments fun document =>
    { document with
      root := document.root.map (Tree.map fun node => if node.id = id then change node else node) }

/-! ### Symbols -/

/-- The catalog with the node among those that declare the symbol; nothing declares the empty one.
-/
def register (catalog : Catalog) (symbol : Symbol) (id : NodeId) : Catalog :=
  if symbol.isEmpty then catalog
  else { catalog with symbols := catalog.symbols.insert (symbol, id) }

/-- The catalog without the node among those that declare the symbol. -/
def unregister (catalog : Catalog) (symbol : Symbol) (id : NodeId) : Catalog :=
  { catalog with symbols := catalog.symbols.erase (symbol, id) }

/-- The nodes that declare the symbol, the first in document order first. -/
def lookup (catalog : Catalog) (symbol : Symbol) : List NodeId :=
  catalog.sortByDocumentOrder (catalog.symbols.image symbol)

/-- The places of the nodes that declare the symbol, in document order. -/
def declarations (catalog : Catalog) (symbol : Symbol) : List Site :=
  (catalog.lookup symbol).filterMap catalog.site?

/-- The first node that declares the symbol. -/
def declaring? (catalog : Catalog) (symbol : Symbol) : Option NodeId :=
  (catalog.lookup symbol).head?

/-- The number of declared symbols. -/
def symbolCount (catalog : Catalog) : Nat :=
  catalog.symbols.keys.items.length

/-- The declared symbols with the nodes that declare them, sorted by symbol and node. -/
def symbolEntries (catalog : Catalog) : List (Symbol × NodeId) :=
  sortBy (fun first second =>
      ((compare first.1 second.1).then (compare first.2.number second.2.number)).isLE)
    catalog.symbols.items

end Catalog

end EntityModel
