import EntityModel.Content

/-
**Nodes: elements on their way through the pipeline.**

* `Stage` — how far a node has come: written, read, named, resolved.
* `Node` — an element with its number, its kind and what the pipeline has found out about it.
* `Draft`, `drafts` — an element tree classified: every element gets its kind from where it stands,
  absorbed children stay inside their parents.
* `Tree.toElement` — a tree of nodes as an element again.
-/

namespace EntityModel

/-- How far a node has come. -/
inductive Stage where
  /-- Only its written form counts. -/
  | unparsed
  /-- Its content is read. -/
  | parsed
  /-- Its declared symbol is known. -/
  | normalized
  /-- All its references are evaluated. -/
  | resolved
  deriving DecidableEq, Repr

namespace Stage

/-- The stages in order. -/
def rank : Stage → Nat
  | .unparsed => 0
  | .parsed => 1
  | .normalized => 2
  | .resolved => 3

/-- Whether the stage is the required one or a later one. -/
def reaches (stage required : Stage) : Bool :=
  required.rank ≤ stage.rank

/-- The stage as messages name it. -/
def display : Stage → String
  | .unparsed => "Unparsed"
  | .parsed => "Parsed"
  | .normalized => "Normalized"
  | .resolved => "Resolved"

end Stage

/-- An element with its kind; the children kept as part of it are inside. -/
structure Draft where
  kind : Kind
  head : Head
  inline : List Element

mutual

/-- An element of the kind and all below it, classified; `outer` is the kind of its parent. -/
def draft (outer : Option Kind) (kind : Kind) : Element → Tree Draft
  | .node head children =>
    .node ⟨kind, head, children.filter fun child => kind.absorbs child.label.tag⟩
      (drafts outer kind children)

/-- The children of an element of the kind, classified, without those it absorbs. -/
def drafts (outer : Option Kind) (kind : Kind) : List Element → List (Tree Draft)
  | [] => []
  | child :: children =>
    if kind.absorbs child.label.tag then drafts outer kind children
    else draft (some kind) (kind.ofNested outer child.label.tag) child :: drafts outer kind children

end

/-- An element in a document, with what is known about it. -/
structure Node where
  id : NodeId
  kind : Kind
  head : Head
  /-- The children kept as part of the node. -/
  inline : List Element
  stage : Stage
  /-- The declared symbol; missing before it is known and in kinds that declare nothing. -/
  symbol : Option Symbol
  /-- The content as last read; missing when it never was. -/
  content : Option Content
  /-- What was wrong when the content was last read. -/
  defects : List Defect

namespace Node

/-- A node of a draft: nothing is known of it yet. -/
def ofDraft (number : Nat) (draft : Draft) : Node :=
  ⟨⟨number⟩, draft.kind, draft.head, draft.inline, .unparsed, none, none, []⟩

/-- The declared name as last read. -/
def name (node : Node) : Option String :=
  node.content.bind Content.name

/-- The references as last read. -/
def references (node : Node) : List Reference :=
  (node.content.map Content.references).getD []

/-- The reference with the role. -/
def reference? (node : Node) (role : String) : Option Reference :=
  node.references.find? fun reference => reference.role = role

/-- The attributes with defaults as last read. -/
def defaultedValues (node : Node) : List DefaultedValue :=
  (node.content.map Content.defaultedValues).getD []

/-- The names of the references of the node. -/
def referenceIds (node : Node) : List ReferenceId :=
  node.references.map fun reference => ⟨node.id, reference.role⟩

/-- The symbol of the node, unless it names nothing. -/
def declared? (node : Node) : Option Symbol :=
  node.symbol.filter fun symbol => !symbol.isEmpty

end Node

/-- A tree of nodes as an element again: the inline children first, then those that are nodes. -/
def Tree.toElement : Tree Node → Element :=
  Tree.fold fun node children => .node node.head (node.inline ++ children)

end EntityModel
