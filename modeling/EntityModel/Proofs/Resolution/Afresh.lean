import EntityModel.Proofs.Resolution.Outline

/-
**What is written of a node, and what is read from it.**

The written form of a node and of those above it is enough to read its content again and to name it,
whatever has been found out about it before.

* `Node.frame` — what is written of a node: its kind, its head and its inline children.
* `Row.afresh` — a row with the contents that are read where its nodes stand.
* `outline_rowAfresh` — reading afresh sees what is written, not the numbers.
* `Row.declares?` — the symbol that a node declares by what is written.
-/

namespace EntityModel

/-- What is written of a node, under another number. -/
def Node.frame (rename : NodeId → NodeId) (node : Node) : Node :=
  ⟨rename node.id, node.kind, node.head, node.inline, .unparsed, none, none, []⟩

/-- The node with the content that is read below these nodes in a document of the layer. -/
def Node.afresh (layer : Layer) (above : List Node) (node : Node) : Node :=
  { node with content := some (Content.read (Row.source ⟨layer, above, node⟩)).1 }

/-- The nodes of a line, the lowest first, with the contents that are read where they stand. -/
def lineAfresh (layer : Layer) : List Node → List Node
  | [] => []
  | node :: above => node.afresh layer above :: lineAfresh layer above

/-- The row with the contents that are read where its nodes stand. -/
def Row.afresh (row : Row) : Row :=
  ⟨row.layer, lineAfresh row.layer row.above, row.node.afresh row.layer row.above⟩

/-- The symbol that the node declares by what is written, unless that names nothing. -/
def Row.declares? (row : Row) : Option Symbol :=
  row.afresh.declaredSymbol?.filter fun symbol => !symbol.isEmpty

section Frames

variable (rename : NodeId → NodeId)

theorem Row.source_frame (row : Row) : (row.map (Node.frame rename)).source = row.source := by
  unfold Row.source Row.map
  rw [List.head?_map, Option.map_map]
  rfl

theorem Row.declaredSymbol?_outline (row : Row) :
    (row.map (Node.outline rename)).declaredSymbol? = row.declaredSymbol? :=
  EntityModel.declaredSymbol?_outline row.node row.above

/-- Only the written forms are read. -/
theorem outline_nodeAfresh (layer : Layer) (above : List Node) (node : Node) :
    ((node.frame rename).afresh layer (above.map (Node.frame rename))).outline id =
      (node.afresh layer above).outline rename := by
  have source := Row.source_frame rename ⟨layer, above, node⟩
  unfold Row.map at source
  unfold Node.afresh
  simp only at source
  rw [source]
  rfl

theorem outline_lineAfresh (layer : Layer) (above : List Node) :
    (lineAfresh layer (above.map (Node.frame rename))).map (Node.outline id) =
      (lineAfresh layer above).map (Node.outline rename) := by
  induction above with
  | nil => rfl
  | cons parent upper ih =>
    rw [List.map_cons, lineAfresh, lineAfresh, List.map_cons, List.map_cons, ih,
      outline_nodeAfresh]

/-- **Rows that are written alike are read alike.** -/
theorem outline_rowAfresh (row : Row) :
    (row.map (Node.frame rename)).afresh.map (Node.outline id) =
      row.afresh.map (Node.outline rename) := by
  have own := outline_nodeAfresh rename row.layer row.above row.node
  have aboves := outline_lineAfresh rename row.layer row.above
  show (⟨row.layer, _, _⟩ : Row) = ⟨row.layer, _, _⟩
  rw [Row.mk.injEq]
  exact ⟨rfl, aboves, own⟩

theorem declares?_frame (row : Row) : (row.map (Node.frame rename)).declares? = row.declares? := by
  unfold Row.declares?
  rw [← Row.declaredSymbol?_outline id, outline_rowAfresh, Row.declaredSymbol?_outline]

end Frames

end EntityModel
