import EntityModel.Proofs.Catalog.Symbols
import EntityModel.Proofs.Resolution.Outline

/-
**Changes of nodes that leave the trees as they are.**

* `Catalog.Reworked` — one catalog is another with a function applied to every node. Such steps
  compose, and they keep the numbering.
* `onlyIn` — a change at several nodes; `onlyAt_onlyIn` adds one more node. `keeps_of_cases` — what the
  change keeps of every node stays where it is made at some of them.
* `InPlace`, `KeepsOutline` — changes that leave what the reading of a content, and what naming and
  resolving, see of a node.
-/

namespace EntityModel

/-! ### Functions on nodes -/

/-- The change leaves what the reading of contents sees: number, kind and written form. -/
structure InPlace (f : Node → Node) : Prop where
  sameId : ∀ node, (f node).id = node.id
  sameKind : ∀ node, (f node).kind = node.kind
  sameHead : ∀ node, (f node).head = node.head
  sameInline : ∀ node, (f node).inline = node.inline

/-- The change leaves what naming and resolving see. -/
def KeepsOutline (f : Node → Node) : Prop :=
  ∀ node, (f node).outline id = node.outline id

namespace KeepsOutline

variable {f : Node → Node} (keeps : KeepsOutline f)

include keeps

theorem sameId (node : Node) : (f node).id = node.id := by
  have read := congrArg Node.id (keeps node)
  exact read

theorem sameKind (node : Node) : (f node).kind = node.kind := by
  have read := congrArg Node.kind (keeps node)
  exact read

theorem outline_row (row : Row) :
    (row.map f).map (Node.outline id) = row.map (Node.outline id) := by
  rw [Row.map_map]
  exact Row.map_congr fun node _ => keeps node

theorem declaredSymbol? (row : Row) : (row.map f).declaredSymbol? = row.declaredSymbol? := by
  have same := keeps.outline_row row
  have read := congrArg Row.declaredSymbol? same
  simpa only [Row.declaredSymbol?, Row.map, declaredSymbol?_outline] using read

end KeepsOutline

namespace InPlace

theorem source_row {f : Node → Node} (inPlace : InPlace f) (row : Row) :
    (row.map f).source = row.source := by
  unfold Row.source Row.map
  rw [List.head?_map, Option.map_map]
  have kinds : Node.kind ∘ f = Node.kind := funext inPlace.sameKind
  rw [kinds]
  simp only [inPlace.sameKind, inPlace.sameHead, inPlace.sameInline]

theorem comp {f g : Node → Node} (outer : InPlace g) (inner : InPlace f) : InPlace (g ∘ f) :=
  ⟨fun node => (outer.sameId _).trans (inner.sameId node),
    fun node => (outer.sameKind _).trans (inner.sameKind node),
    fun node => (outer.sameHead _).trans (inner.sameHead node),
    fun node => (outer.sameInline _).trans (inner.sameInline node)⟩

end InPlace

/-! ### Changes at some nodes -/

/-- The change of the nodes with these numbers; other nodes stay. -/
def onlyIn (ids : List NodeId) (change : Node → Node) (node : Node) : Node :=
  if node.id ∈ ids then change node else node

theorem onlyAt_of_eq {change : Node → Node} {id : NodeId} {node : Node} (here : node.id = id) :
    onlyAt id change node = change node :=
  if_pos here

theorem onlyAt_of_ne {change : Node → Node} {id : NodeId} {node : Node} (other : node.id ≠ id) :
    onlyAt id change node = node :=
  if_neg other

theorem onlyIn_of_mem {change : Node → Node} {ids : List NodeId} {node : Node}
    (member : node.id ∈ ids) : onlyIn ids change node = change node :=
  if_pos member

theorem onlyIn_of_not_mem {change : Node → Node} {ids : List NodeId} {node : Node}
    (absent : node.id ∉ ids) : onlyIn ids change node = node :=
  if_neg absent

theorem onlyIn_nil (change : Node → Node) : onlyIn [] change = id := by
  funext node
  exact if_neg List.not_mem_nil

theorem onlyAt_onlyIn {change : Node → Node} (keeps : ∀ node, (change node).id = node.id)
    {ids : List NodeId} {id : NodeId} (new : id ∉ ids) :
    onlyAt id change ∘ onlyIn ids change = onlyIn (ids ++ [id]) change := by
  funext node
  unfold onlyIn
  rw [Function.comp_apply]
  by_cases earlier : node.id ∈ ids
  · have apart : node.id ≠ id := fun same => new (same ▸ earlier)
    rw [if_pos earlier, if_pos (List.mem_append_left _ earlier)]
    unfold onlyAt
    rw [if_neg (keeps node ▸ apart)]
  · rw [if_neg earlier]
    unfold onlyAt
    by_cases same : node.id = id
    · rw [if_pos same, if_pos (List.mem_append_right _ (List.mem_singleton.mpr same))]
    · rw [if_neg same, if_neg (by simp [earlier, same])]

theorem onlyAt_onlyAt {f g : Node → Node} (keeps : ∀ node, (f node).id = node.id) (id : NodeId) :
    onlyAt id g ∘ onlyAt id f = onlyAt id (g ∘ f) := by
  funext node
  unfold onlyAt
  rw [Function.comp_apply]
  by_cases same : node.id = id
  · rw [if_pos same, if_pos ((keeps node).trans same), if_pos same]
    rfl
  · rw [if_neg same, if_neg same, if_neg same]

section Lifting

variable {change : Node → Node}

theorem onlyAt_cases (id : NodeId) (change : Node → Node) (node : Node) :
    onlyAt id change node = change node ∨ onlyAt id change node = node := by
  unfold onlyAt
  split
  · exact Or.inl rfl
  · exact Or.inr rfl

theorem onlyIn_cases (ids : List NodeId) (change : Node → Node) (node : Node) :
    onlyIn ids change node = change node ∨ onlyIn ids change node = node := by
  unfold onlyIn
  split
  · exact Or.inl rfl
  · exact Or.inr rfl

/-- What the change keeps of every node is kept where every node is changed by it or not at all. -/
theorem keeps_of_cases {α : Type} (part : Node → α) {f : Node → Node}
    (cases : ∀ node, f node = change node ∨ f node = node)
    (keeps : ∀ node, part (change node) = part node) (node : Node) : part (f node) = part node := by
  rcases cases node with same | same
  · rw [same, keeps]
  · rw [same]

theorem InPlace.of_cases {f : Node → Node} (inPlace : InPlace change)
    (cases : ∀ node, f node = change node ∨ f node = node) : InPlace f :=
  ⟨keeps_of_cases Node.id cases inPlace.sameId, keeps_of_cases Node.kind cases inPlace.sameKind,
    keeps_of_cases Node.head cases inPlace.sameHead,
    keeps_of_cases Node.inline cases inPlace.sameInline⟩

theorem KeepsOutline.of_cases {f : Node → Node} (keeps : KeepsOutline change)
    (cases : ∀ node, f node = change node ∨ f node = node) : KeepsOutline f :=
  keeps_of_cases (Node.outline id) cases keeps

end Lifting

/-! ### Catalogs -/

/-- What the changes of nodes leave of a document. -/
def Document.heading (document : Document) : DocumentId × Layer × Option NodeId :=
  (document.id, document.layer, document.root.map fun tree => tree.label.id)

namespace Catalog

/-- One catalog is another with the function applied to every node. The index is not compared. -/
structure Reworked (f : Node → Node) (before after : Catalog) : Prop where
  rows : after.rows = before.rows.map (Row.map f)
  headings : after.documents.map Document.heading = before.documents.map Document.heading
  nextNode : after.nextNode = before.nextNode
  nextDocument : after.nextDocument = before.nextDocument

namespace Reworked

variable {f g : Node → Node} {before between after : Catalog}

theorem refl (catalog : Catalog) : Reworked id catalog catalog := by
  refine ⟨?_, rfl, rfl, rfl⟩
  rw [show Row.map id = id from funext mapRow_id, List.map_id]

theorem rows_of_id (reworked : Reworked id before after) : after.rows = before.rows := by
  rw [reworked.rows, ← (refl before).rows]

theorem trans (first : Reworked f before between) (second : Reworked g between after) :
    Reworked (g ∘ f) before after := by
  refine ⟨?_, second.headings.trans first.headings, second.nextNode.trans first.nextNode,
    second.nextDocument.trans first.nextDocument⟩
  rw [second.rows, first.rows, List.map_map]
  refine List.map_congr_left fun row _ => ?_
  rw [Function.comp_apply, Row.map_map]

/-- Two functions that agree on the nodes of the catalog lead to the same one. -/
theorem congr (reworked : Reworked f before after)
    (same : ∀ row ∈ before.rows, f row.node = g row.node) : Reworked g before after := by
  refine ⟨?_, reworked.headings, reworked.nextNode, reworked.nextDocument⟩
  rw [reworked.rows]
  refine List.map_congr_left fun row member => Row.map_congr fun node inside => ?_
  obtain ⟨upper, found, _⟩ := row_of_mem_line member inside
  exact same _ found

theorem mem_rows (reworked : Reworked f before after) {row : Row} :
    row ∈ after.rows ↔ ∃ earlier ∈ before.rows, earlier.map f = row := by
  rw [reworked.rows, List.mem_map]

theorem map_mem (reworked : Reworked f before after) {row : Row} (member : row ∈ before.rows) :
    row.map f ∈ after.rows :=
  reworked.mem_rows.mpr ⟨row, member, rfl⟩

section Ids

variable (reworked : Reworked f before after) (keeps : ∀ node, (f node).id = node.id)

include reworked keeps

theorem ids : after.rows.map Row.id = before.rows.map Row.id := by
  rw [reworked.rows, List.map_map]
  exact List.map_congr_left fun row _ => keeps row.node

theorem documentOrder : after.documentOrder = before.documentOrder := by
  rw [documentOrder_eq, documentOrder_eq, reworked.ids keeps]

theorem row? (id : NodeId) : after.row? id = (before.row? id).map (Row.map f) := by
  rw [Catalog.row?, Catalog.row?, reworked.rows, List.find?_map]
  congr 2
  funext row
  show decide ((f row.node).id = id) = decide (row.node.id = id)
  rw [keeps]

theorem node? (id : NodeId) : after.node? id = (before.node? id).map f := by
  rw [node?_eq, node?_eq, reworked.row? keeps, Option.map_map, Option.map_map]
  rfl

theorem numbered (earlier : before.Numbered) : after.Numbered := by
  have documentIds : after.documents.map Document.id = before.documents.map Document.id := by
    have read := congrArg (List.map Prod.fst) reworked.headings
    rw [List.map_map, List.map_map] at read
    exact read
  refine ⟨?_, ?_, ?_, ?_⟩
  · rw [reworked.ids keeps]
    exact earlier.unique
  · intro row member
    obtain ⟨old, inside, rfl⟩ := reworked.mem_rows.mp member
    rw [reworked.nextNode]
    show (f old.node).id.number < _
    rw [keeps]
    exact earlier.below old inside
  · rw [documentIds]
    exact earlier.documentsUnique
  · intro document member
    have listed : document.id ∈ before.documents.map Document.id := by
      rw [← documentIds]
      exact List.mem_map_of_mem member
    obtain ⟨old, inside, same⟩ := List.mem_map.mp listed
    rw [reworked.nextDocument, ← same]
    exact earlier.documentsBelow old inside

/-- A node is found where it was, with what has become of it. -/
theorem exists_site (later : after.Numbered) {row : Row} (member : row ∈ before.rows) :
    ∃ site ∈ after.sites, after.site? row.id = some site ∧ site.id = row.id ∧
      site.row = row.map f := by
  obtain ⟨site, live, located, same⟩ :=
    later.site?_of_row (reworked.map_mem member)
  have number : (row.map f).id = row.id := keeps row.node
  rw [number] at located
  exact ⟨site, live, located, (congrArg Row.id same).trans number, same⟩

/-- A line of a row is that of its earlier form. -/
theorem line_mem {row : Row} (member : row ∈ after.rows) :
    ∃ earlier ∈ before.rows, earlier.map f = row ∧ row.line = earlier.line := by
  obtain ⟨earlier, inside, rfl⟩ := reworked.mem_rows.mp member
  exact ⟨earlier, inside, rfl, Row.line_map keeps earlier⟩

theorem contains (id : NodeId) : after.contains id = before.contains id := by
  rw [contains_eq, contains_eq, reworked.row? keeps, Option.isSome_map]

end Ids

/-- What a change at one node does to the nodes found by number. -/
theorem node?_onlyAt {change : Node → Node} {id : NodeId}
    (reworked : Reworked (onlyAt id change) before after)
    (keeps : ∀ node, (change node).id = node.id) (other : NodeId) : after.node? other =
      if other = id then (before.node? other).map change else before.node? other := by
  rw [reworked.node? (id_onlyAt keeps id)]
  cases found : before.node? other with
  | none => simp
  | some node =>
    have same : node.id = other := by
      rw [node?_eq] at found
      obtain ⟨row, isRow, rfl⟩ := Option.map_eq_some_iff.mp found
      exact (mem_rows_of_row? isRow).2
    rw [Option.map_some, Option.map_some, onlyAt, same]
    split
    · rfl
    · rfl

end Reworked

theorem reworked_modify (catalog : Catalog) {change : Node → Node}
    (keeps : ∀ node, (change node).id = node.id) (id : NodeId) :
    Reworked (onlyAt id change) catalog (catalog.modify id change) := by
  refine ⟨rows_modify catalog id change, ?_, rfl, rfl⟩
  unfold modify mapDocuments
  rw [List.map_map]
  refine List.map_congr_left fun document _ => ?_
  unfold Document.heading
  rw [Function.comp_apply, Option.map_map]
  congr 3
  funext tree
  rw [Function.comp_apply]
  rcases tree with ⟨label, children⟩
  rw [Tree.map_node]
  exact id_onlyAt keeps id label

theorem reworked_register (catalog : Catalog) (symbol : Symbol) (id : NodeId) :
    Reworked (fun node => node) catalog (catalog.register symbol id) := by
  unfold register
  split
  · exact Reworked.refl catalog
  · exact ⟨(Reworked.refl catalog).rows, rfl, rfl, rfl⟩

theorem reworked_unregister (catalog : Catalog) (symbol : Symbol) (id : NodeId) :
    Reworked (fun node => node) catalog (catalog.unregister symbol id) :=
  ⟨(Reworked.refl catalog).rows, rfl, rfl, rfl⟩

theorem reworked_withdrawSymbol (catalog : Catalog) (node : Node) :
    Reworked (fun node => node) catalog (Workspace.withdrawSymbol catalog node) := by
  unfold Workspace.withdrawSymbol
  split
  · exact reworked_unregister catalog _ _
  · exact Reworked.refl catalog

theorem reworked_replaceSymbol (catalog : Catalog) (id : NodeId) (earlier later : Option Symbol) :
    Reworked (fun node => node) catalog (Workspace.replaceSymbol catalog id earlier later) := by
  have withdrawn : Reworked (fun node => node) catalog
      (withoutEarlier catalog id earlier later) := by
    unfold withoutEarlier
    split
    · split
      · exact Reworked.refl catalog
      · exact reworked_unregister catalog _ _
    · exact Reworked.refl catalog
  cases later with
  | none => exact withdrawn
  | some symbol => exact withdrawn.trans (reworked_register _ symbol id)

end Catalog

end EntityModel
