import EntityModel.Proofs.Catalog.Order
import EntityModel.Proofs.Tree.Lines
import EntityModel.Workspace.Lifecycle

/-
**The catalog as a list of rows.**

A row is a node with the layer of its document and the nodes above it: all that reading, naming and
resolving see of its place. The changes of a catalog are described by what they do to its rows.

* `map_row_sites` — the rows are the places, paths and documents left out.
* `rows_modify`, `rows_removeSubtree` — changing a node maps the rows, removing a subtree filters
  them.
* `Catalog.Numbered` — every node and every document has a number of its own, below the next free
  one. Under it a node is found by its number (`row?_eq_some_iff`), and the nodes of a subtree are
  those whose line passes its root (`subtree_eq`).
-/

namespace EntityModel

/-- A node with the layer of its document and the nodes above it, the nearest first. -/
structure Row where
  layer : Layer
  above : List Node
  node : Node

namespace Row

/-- The number of the node. -/
def id (row : Row) : NodeId :=
  row.node.id

/-- The numbers of the node and of those above it. -/
def line (row : Row) : List NodeId :=
  row.node.id :: row.above.map Node.id

/-- The row with every node changed. -/
def map (f : Node → Node) (row : Row) : Row :=
  ⟨row.layer, row.above.map f, f row.node⟩

/-- What the content of the node is read from. -/
def source (row : Row) : Source :=
  ⟨row.node.kind, row.above.head?.map Node.kind, row.layer, row.node.head, row.node.inline⟩

/-- The symbol the node declares where it stands. -/
def declaredSymbol? (row : Row) : Option Symbol :=
  row.node.declaredSymbol? row.above

/-- The row of a line in a document of the layer. -/
def ofLine (layer : Layer) (line : Tree.Line Node) : Row :=
  ⟨layer, line.above, line.label⟩

theorem line_eq (row : Row) : row.line = (row.node :: row.above).map Node.id := rfl

theorem id_mem_line (row : Row) : row.id ∈ row.line :=
  List.mem_cons_self

theorem map_map (f g : Node → Node) (row : Row) : (row.map f).map g = row.map (g ∘ f) := by
  simp only [map, List.map_map, Function.comp_apply]

theorem map_congr {f g : Node → Node} {row : Row}
    (same : ∀ node ∈ row.node :: row.above, f node = g node) : row.map f = row.map g := by
  have here := same row.node List.mem_cons_self
  have upper : row.above.map f = row.above.map g :=
    List.map_congr_left fun node member => same node (List.mem_cons_of_mem _ member)
  rw [map, map, here, upper]

theorem line_map {f : Node → Node} (keeps : ∀ node, (f node).id = node.id) (row : Row) :
    (row.map f).line = row.line := by
  rw [line_eq, line_eq]
  show ((row.node :: row.above).map f).map Node.id = _
  rw [List.map_map]
  exact List.map_congr_left fun node _ => keeps node

end Row

theorem mapRow_id (row : Row) : row.map id = row := by
  rw [Row.map, List.map_id]
  rfl

/-- The change of a node with the number; other nodes stay. -/
def onlyAt (id : NodeId) (change : Node → Node) (node : Node) : Node :=
  if node.id = id then change node else node

theorem id_onlyAt {change : Node → Node} (keeps : ∀ node, (change node).id = node.id) (id : NodeId)
    (node : Node) : (onlyAt id change node).id = node.id := by
  unfold onlyAt
  split
  · exact keeps node
  · rfl

/-- The row of a place. -/
def Site.row (site : Site) : Row :=
  ⟨site.document.layer, site.ancestors, site.node⟩

theorem Site.source_row (site : Site) : site.row.source = Workspace.source site := rfl

theorem Site.declaredSymbol?_row (site : Site) : site.row.declaredSymbol? = site.declaredSymbol? :=
  rfl

/-- The rows of a document, in document order. -/
def Document.rows (document : Document) : List Row :=
  (Tree.linesOf document.root).map (Row.ofLine document.layer)

theorem Document.rows_of_root {document : Document} {root : Tree Node}
    (rooted : document.root = some root) :
    document.rows = root.lines.map (Row.ofLine document.layer) := by
  rw [rows, rooted]
  rfl

namespace Catalog

/-- The rows of a catalog, in document order. -/
def rows (catalog : Catalog) : List Row :=
  catalog.documents.flatMap Document.rows

theorem row_of_line {catalog : Catalog} {document : Document}
    (member : document ∈ catalog.documents) {root : Tree Node} (rooted : document.root = some root)
    {line : Tree.Line Node} (inside : line ∈ root.lines) :
    Row.ofLine document.layer line ∈ catalog.rows := by
  refine List.mem_flatMap.mpr ⟨document, member, ?_⟩
  rw [Document.rows_of_root rooted]
  exact List.mem_map_of_mem inside

/-- The row of a node. -/
def row? (catalog : Catalog) (id : NodeId) : Option Row :=
  catalog.rows.find? fun row => row.id = id

theorem map_row_sitesOf (rank : Nat) (document : Document) :
    (sitesOf rank document).map Site.row = document.rows := by
  unfold sitesOf Document.rows
  cases root : document.root with
  | none => rfl
  | some tree =>
    rw [Tree.linesOf, Option.elim_some, ← Tree.map_line_spots, List.map_map, List.map_map]
    rfl

/-- **The rows are the places**, in the same order. -/
theorem map_row_sites (catalog : Catalog) : catalog.sites.map Site.row = catalog.rows := by
  have from_start : ∀ (documents : List Document) (start : Nat),
      ((documents.zipIdx start).map fun pair =>
        sitesOf pair.2 pair.1).flatten.map Site.row = documents.flatMap Document.rows := by
    intro documents
    induction documents with
    | nil => intro start; rfl
    | cons document documents ih =>
      intro start
      rw [List.zipIdx_cons, List.map_cons, List.flatten_cons, List.map_append, ih,
        map_row_sitesOf, List.flatMap_cons]
  exact from_start catalog.documents 0

theorem row_mem_rows {catalog : Catalog} {site : Site} (member : site ∈ catalog.sites) :
    site.row ∈ catalog.rows := by
  rw [← map_row_sites]
  exact List.mem_map_of_mem member

/-- A place is in the tree of a document. -/
theorem exists_root_of_mem_sites {catalog : Catalog} {site : Site} (member : site ∈ catalog.sites) :
    site.document ∈ catalog.documents ∧
      ∃ root, site.document.root = some root ∧ site.spot ∈ root.spots := by
  obtain ⟨sites, listed, inside⟩ := List.mem_flatten.mp member
  obtain ⟨⟨document, rank⟩, ranked, rfl⟩ := List.mem_map.mp listed
  have held : document ∈ catalog.documents := List.fst_mem_of_mem_zipIdx ranked
  have inside : site ∈ sitesOf rank document := inside
  unfold sitesOf at inside
  cases rooted : document.root with
  | none =>
    rw [rooted] at inside
    exact absurd inside List.not_mem_nil
  | some root =>
    rw [rooted] at inside
    obtain ⟨spot, placed, rfl⟩ := List.mem_map.mp inside
    exact ⟨held, root, rooted, placed⟩

theorem documentOrder_eq (catalog : Catalog) : catalog.documentOrder = catalog.rows.map Row.id := by
  rw [← map_row_sites, List.map_map]
  rfl

theorem row?_eq (catalog : Catalog) (id : NodeId) :
    catalog.row? id = (catalog.site? id).map Site.row := by
  rw [row?, ← map_row_sites, List.find?_map]
  rfl

theorem node?_eq (catalog : Catalog) (id : NodeId) :
    catalog.node? id = (catalog.row? id).map Row.node := by
  rw [row?_eq, Option.map_map]
  rfl

theorem contains_eq (catalog : Catalog) (id : NodeId) :
    catalog.contains id = (catalog.row? id).isSome := by
  rw [row?_eq, Option.isSome_map]
  rfl

theorem mem_rows_of_row? {catalog : Catalog} {id : NodeId} {row : Row}
    (found : catalog.row? id = some row) : row ∈ catalog.rows ∧ row.id = id :=
  ⟨List.mem_of_find?_eq_some found, by simpa using List.find?_some found⟩

theorem row?_isSome_iff {catalog : Catalog} {id : NodeId} :
    (catalog.row? id).isSome ↔ ∃ row ∈ catalog.rows, row.id = id := by
  simp [row?, List.find?_isSome]

theorem contains_iff {catalog : Catalog} {id : NodeId} :
    catalog.contains id = true ↔ ∃ row ∈ catalog.rows, row.id = id := by
  rw [contains_eq, row?_isSome_iff]

/-- The nodes above a node have rows of their own. -/
theorem row_of_above {catalog : Catalog} {row : Row} (member : row ∈ catalog.rows) {parent : Node}
    {upper : List Node} (above : row.above = parent :: upper) :
    ⟨row.layer, upper, parent⟩ ∈ catalog.rows := by
  obtain ⟨document, documentMem, inDocument⟩ := List.mem_flatMap.mp member
  refine List.mem_flatMap.mpr ⟨document, documentMem, ?_⟩
  unfold Document.rows at inDocument ⊢
  cases root : document.root with
  | none =>
    rw [root] at inDocument
    exact absurd inDocument List.not_mem_nil
  | some tree =>
    rw [root] at inDocument
    obtain ⟨line, lineMem, rfl⟩ := List.mem_map.mp inDocument
    exact List.mem_map.mpr ⟨⟨upper, parent⟩, Tree.line_of_above lineMem above, rfl⟩

/-- Every node on the line of a row has a row of its own; what is above it is above the row too. -/
theorem row_of_mem_line {catalog : Catalog} {row : Row} (member : row ∈ catalog.rows) {node : Node}
    (inside : node ∈ row.node :: row.above) :
    ∃ upper, ⟨row.layer, upper, node⟩ ∈ catalog.rows ∧ (node :: upper) <:+ (row.node :: row.above) := by
  rcases row with ⟨layer, above, own⟩
  induction above generalizing own with
  | nil =>
    obtain rfl : node = own := by simpa using inside
    exact ⟨[], member, List.suffix_refl _⟩
  | cons parent upper ih =>
    rcases List.mem_cons.mp inside with rfl | higher
    · exact ⟨_, member, List.suffix_refl _⟩
    · obtain ⟨rest, found, suffix⟩ := ih parent (row_of_above member rfl) higher
      exact ⟨rest, found, suffix.trans (List.suffix_cons _ _)⟩

/-! ### Changes -/

theorem rows_modify (catalog : Catalog) (id : NodeId) (change : Node → Node) :
    (catalog.modify id change).rows = catalog.rows.map (Row.map (onlyAt id change)) := by
  unfold rows modify mapDocuments
  rw [List.flatMap_map, List.map_flatMap]
  refine List.flatMap_congr fun document _ => ?_
  unfold Document.rows
  cases root : document.root with
  | none => rfl
  | some tree =>
    show ((tree.map (onlyAt id change)).lines).map (Row.ofLine document.layer) =
      (tree.lines.map (Row.ofLine document.layer)).map (Row.map (onlyAt id change))
    rw [Tree.lines_map, List.map_map, List.map_map]
    rfl

theorem rows_removeSubtree (catalog : Catalog) (id : NodeId) :
    (catalog.removeSubtree id).rows = catalog.rows.filter fun row => decide (id ∉ row.line) := by
  unfold rows removeSubtree mapDocuments
  rw [List.flatMap_map, List.filter_flatMap]
  refine List.flatMap_congr fun document _ => ?_
  unfold Document.rows
  cases root : document.root with
  | none => rfl
  | some tree =>
    show (Tree.linesOf (Tree.prune _ tree)).map _ = _
    rw [Tree.lines_prune, Tree.linesOf, Option.elim_some, List.filter_map]
    congr 2
    funext line
    rw [Bool.eq_iff_iff, Bool.not_eq_true', List.any_eq_false, Function.comp_apply,
      decide_eq_true_eq]
    show _ ↔ id ∉ line.whole.map Node.id
    simp [List.mem_map]

theorem row?_modify (catalog : Catalog) {change : Node → Node}
    (keeps : ∀ node, (change node).id = node.id) (id other : NodeId) :
    (catalog.modify id change).row? other =
      (catalog.row? other).map (Row.map (onlyAt id change)) := by
  rw [row?, row?, rows_modify, List.find?_map]
  congr 2
  funext row
  show decide ((onlyAt id change row.node).id = other) = decide (row.node.id = other)
  rw [id_onlyAt keeps]

theorem node?_modify (catalog : Catalog) {change : Node → Node}
    (keeps : ∀ node, (change node).id = node.id) (id other : NodeId) :
    (catalog.modify id change).node? other =
      if other = id then (catalog.node? other).map change else catalog.node? other := by
  rw [node?_eq, node?_eq, row?_modify catalog keeps, Option.map_map]
  cases found : catalog.row? other with
  | none => simp
  | some row =>
    have same : row.node.id = other := (mem_rows_of_row? found).2
    show some (onlyAt id change row.node) = _
    unfold onlyAt
    rw [same]
    by_cases here : other = id
    · rw [if_pos here, if_pos here]
      rfl
    · rw [if_neg here, if_neg here]
      rfl

/-- Every node on the line of a row of a document has a row in that document. -/
theorem row_of_mem_line_document {document : Document} {row : Row} (member : row ∈ document.rows)
    {id : NodeId} (inside : id ∈ row.line) : id ∈ document.rows.map Row.id := by
  unfold Document.rows at member ⊢
  cases root : document.root with
  | none =>
    rw [root] at member
    exact absurd member List.not_mem_nil
  | some tree =>
    rw [root] at member
    obtain ⟨line, lineMem, rfl⟩ := List.mem_map.mp member
    have through : id ∈ line.whole.map Node.id := inside
    obtain ⟨node, nodeMem, rfl⟩ := List.mem_map.mp through
    have label : node ∈ tree.labels := Tree.mem_labels_of_mem_whole lineMem nodeMem
    rw [← Tree.map_label_lines] at label
    obtain ⟨other, otherMem, rfl⟩ := List.mem_map.mp label
    exact List.mem_map.mpr ⟨_, List.mem_map_of_mem otherMem, rfl⟩

/-! ### Numbers -/

/-- Every node and every document has a number of its own, below the next free one. -/
structure Numbered (catalog : Catalog) : Prop where
  unique : (catalog.rows.map Row.id).Nodup
  below : ∀ row ∈ catalog.rows, row.id.number < catalog.nextNode
  documentsUnique : (catalog.documents.map Document.id).Nodup
  documentsBelow : ∀ document ∈ catalog.documents, document.id.number < catalog.nextDocument

theorem numbered_empty : empty.Numbered :=
  ⟨List.nodup_nil, fun _ member => absurd member List.not_mem_nil, List.nodup_nil,
    fun _ member => absurd member List.not_mem_nil⟩

namespace Numbered

variable {catalog : Catalog}

theorem documentOrder_nodup (numbered : catalog.Numbered) : catalog.documentOrder.Nodup := by
  rw [documentOrder_eq]
  exact numbered.unique

theorem eq_of_id (numbered : catalog.Numbered) {first second : Row} (firstMem : first ∈ catalog.rows)
    (secondMem : second ∈ catalog.rows) (same : first.id = second.id) : first = second :=
  List.inj_on_of_nodup_map numbered.unique firstMem secondMem same

theorem row?_of_mem (numbered : catalog.Numbered) {row : Row} (member : row ∈ catalog.rows) :
    catalog.row? row.id = some row := by
  have found : (catalog.row? row.id).isSome := row?_isSome_iff.mpr ⟨row, member, rfl⟩
  obtain ⟨other, isOther⟩ := Option.isSome_iff_exists.mp found
  obtain ⟨otherMem, same⟩ := mem_rows_of_row? isOther
  rw [isOther, numbered.eq_of_id otherMem member same]

theorem document?_of_mem (numbered : catalog.Numbered) {document : Document}
    (member : document ∈ catalog.documents) : catalog.document? document.id = some document := by
  have found : (catalog.document? document.id).isSome :=
    List.find?_isSome.mpr ⟨document, member, by simp⟩
  obtain ⟨other, isOther⟩ := Option.isSome_iff_exists.mp found
  have same : other.id = document.id := by simpa using List.find?_some isOther
  rw [isOther, List.inj_on_of_nodup_map numbered.documentsUnique
    (List.mem_of_find?_eq_some isOther) member same]

/-- The place of a row. -/
theorem site?_of_row (numbered : catalog.Numbered) {row : Row} (member : row ∈ catalog.rows) :
    ∃ site ∈ catalog.sites, catalog.site? row.id = some site ∧ site.row = row := by
  have found := numbered.row?_of_mem member
  rw [row?_eq] at found
  obtain ⟨site, located, same⟩ := Option.map_eq_some_iff.mp found
  exact ⟨site, (mem_sites_of_site? located).1, located, same⟩

theorem row?_eq_some_iff (numbered : catalog.Numbered) {id : NodeId} {row : Row} :
    catalog.row? id = some row ↔ row ∈ catalog.rows ∧ row.id = id := by
  constructor
  · exact mem_rows_of_row?
  · rintro ⟨member, rfl⟩
    exact numbered.row?_of_mem member

theorem node?_of_mem (numbered : catalog.Numbered) {row : Row} (member : row ∈ catalog.rows) :
    catalog.node? row.id = some row.node := by
  rw [node?_eq, numbered.row?_of_mem member]
  rfl

theorem node?_eq_some_iff (numbered : catalog.Numbered) {id : NodeId} {node : Node} :
    catalog.node? id = some node ↔ ∃ row ∈ catalog.rows, row.node = node ∧ row.id = id := by
  rw [node?_eq, Option.map_eq_some_iff]
  constructor
  · rintro ⟨row, found, rfl⟩
    exact ⟨row, (mem_rows_of_row? found).1, rfl, (mem_rows_of_row? found).2⟩
  · rintro ⟨row, member, rfl, rfl⟩
    exact ⟨row, numbered.row?_of_mem member, rfl⟩

theorem any_node?_iff (numbered : catalog.Numbered) {id : NodeId} {chosen : Node → Bool} :
    (catalog.node? id).any chosen = true ↔
      ∃ row ∈ catalog.rows, row.id = id ∧ chosen row.node = true := by
  rw [Option.any_eq_true]
  constructor
  · rintro ⟨node, found, holds⟩
    obtain ⟨row, member, rfl, same⟩ := numbered.node?_eq_some_iff.mp found
    exact ⟨row, member, same, holds⟩
  · rintro ⟨row, member, rfl, holds⟩
    exact ⟨row.node, numbered.node?_of_mem member, holds⟩

/-- A node on the line of a row is the node with its number. -/
theorem node?_of_mem_line (numbered : catalog.Numbered) {row : Row} (member : row ∈ catalog.rows)
    {node : Node} (inside : node ∈ row.node :: row.above) : catalog.node? node.id = some node := by
  obtain ⟨upper, found, _⟩ := row_of_mem_line member inside
  exact numbered.node?_of_mem found

/-- **The nodes of a subtree** are those whose line passes its root. -/
theorem subtree_site (numbered : catalog.Numbered) {site : Site} (member : site ∈ catalog.sites) :
    site.subtree =
      (catalog.rows.filter fun row => decide (site.id ∈ row.line)).map Row.node := by
  rcases site with ⟨rank, document, spot⟩
  obtain ⟨documentMem, tree, root, spotMem⟩ := exists_root_of_mem_sites member
  replace root : document.root = some tree := root
  have own : document.rows = tree.lines.map (Row.ofLine document.layer) := by
    rw [Document.rows, root]
    rfl
  obtain ⟨earlier, later, split⟩ := List.append_of_mem documentMem
  have unique := numbered.unique
  unfold rows at unique ⊢
  rw [split, List.flatMap_append, List.flatMap_cons] at unique ⊢
  rw [List.map_append, List.map_append] at unique
  obtain ⟨_, restUnique, apartEarlier⟩ := List.nodup_append.mp unique
  obtain ⟨ownUnique, _, apartLater⟩ := List.nodup_append.mp restUnique
  have labelsUnique : (tree.labels.map Node.id).Nodup := by
    rw [own, List.map_map] at ownUnique
    rw [← Tree.map_label_lines, List.map_map]
    exact ownUnique
  have here : spot.label.id ∈ document.rows.map Row.id := by
    rw [own, List.map_map]
    have labels : spot.label ∈ tree.labels := by
      rw [← Tree.map_label_spots]
      exact List.mem_map_of_mem spotMem
    rw [← Tree.map_label_lines] at labels
    obtain ⟨line, lineMem, same⟩ := List.mem_map.mp labels
    exact List.mem_map.mpr ⟨line, lineMem, congrArg Node.id same⟩
  -- the number stands in this document alone, so no row elsewhere passes it
  have elsewhere : ∀ documents : List Document,
      spot.label.id ∉ (documents.flatMap Document.rows).map Row.id →
      (documents.flatMap Document.rows).filter
        (fun row => decide (spot.label.id ∈ row.line)) = [] := by
    intro documents absent
    refine List.filter_eq_nil_iff.mpr fun row rowMem through => absent ?_
    obtain ⟨other, otherMem, inOther⟩ := List.mem_flatMap.mp rowMem
    have found := row_of_mem_line_document inOther (of_decide_eq_true through)
    obtain ⟨twin, twinMem, same⟩ := List.mem_map.mp found
    exact List.mem_map.mpr ⟨twin, List.mem_flatMap.mpr ⟨other, otherMem, twinMem⟩, same⟩
  have before := elsewhere earlier fun listed =>
    apartEarlier _ listed _ (List.mem_append_left _ here) rfl
  have after := elsewhere later fun listed => apartLater _ here _ listed rfl
  show spot.tree.labels = ((_ : List Row).filter
    fun row => decide (spot.label.id ∈ row.line)).map Row.node
  rw [List.filter_append, List.filter_append, before, after, List.nil_append, List.append_nil,
    own, List.filter_map, List.map_map, Tree.labels_spot Node.id labelsUnique spotMem]
  rfl

theorem mem_subtree (numbered : catalog.Numbered) {root id : NodeId} :
    id ∈ catalog.subtree root ↔ ∃ row ∈ catalog.rows, row.id = id ∧ root ∈ row.line := by
  unfold subtree
  cases located : catalog.site? root with
  | none =>
    refine iff_of_false List.not_mem_nil ?_
    rintro ⟨row, member, _, through⟩
    rw [Row.line_eq] at through
    obtain ⟨node, inside, rfl⟩ := List.mem_map.mp through
    obtain ⟨upper, found, _⟩ := row_of_mem_line member inside
    have there := numbered.row?_of_mem found
    rw [row?_eq, show Row.id ⟨row.layer, upper, node⟩ = node.id from rfl, located] at there
    exact nomatch there
  | some site =>
    obtain ⟨member, rfl⟩ := mem_sites_of_site? located
    simp only
    rw [numbered.subtree_site member, List.map_map, List.mem_map]
    constructor
    · rintro ⟨row, inside, rfl⟩
      obtain ⟨live, through⟩ := List.mem_filter.mp inside
      exact ⟨row, live, rfl, of_decide_eq_true through⟩
    · rintro ⟨row, live, rfl, through⟩
      exact ⟨row, List.mem_filter.mpr ⟨live, decide_eq_true through⟩, rfl⟩

/-- A subtree is a part of the document order. -/
theorem sublist_subtree (numbered : catalog.Numbered) (root : NodeId) :
    (catalog.subtree root).Sublist catalog.documentOrder := by
  unfold subtree
  cases located : catalog.site? root with
  | none => exact List.nil_sublist _
  | some site =>
    obtain ⟨member, _⟩ := mem_sites_of_site? located
    simp only
    rw [numbered.subtree_site member, List.map_map, documentOrder_eq]
    exact List.filter_sublist.map Row.id

theorem nodup_subtree (numbered : catalog.Numbered) (root : NodeId) :
    (catalog.subtree root).Nodup :=
  numbered.documentOrder_nodup.sublist (numbered.sublist_subtree root)

end Numbered

theorem subtree_of_absent {catalog : Catalog} {root : NodeId}
    (absent : catalog.contains root = false) : catalog.subtree root = [] := by
  unfold subtree
  rw [Option.not_isSome_iff_eq_none.mp (Bool.eq_false_iff.mp absent)]

/-- A node stands at the head of its subtree. -/
theorem subtree_eq_cons {catalog : Catalog} {root : NodeId}
    (found : catalog.contains root = true) :
    catalog.subtree root = root :: (catalog.subtree root).tail := by
  obtain ⟨site, located⟩ := Option.isSome_iff_exists.mp found
  obtain ⟨_, rfl⟩ := mem_sites_of_site? located
  unfold subtree
  rw [located]
  rcases site with ⟨rank, document, above, path, ⟨label, children⟩⟩
  show ((Tree.node label children).labels).map Node.id =
    label.id :: (((Tree.node label children).labels).map Node.id).tail
  rw [Tree.labels_node, List.map_cons, List.tail_cons]

theorem subtree_tail (catalog : Catalog) {root id : NodeId} :
    id ∈ catalog.subtree root ↔
      (id = root ∧ catalog.contains root = true) ∨ id ∈ (catalog.subtree root).tail := by
  cases found : catalog.contains root with
  | true => rw [subtree_eq_cons found, List.mem_cons, List.tail_cons, and_iff_left rfl]
  | false => simp [subtree_of_absent found]

/-- The nodes below a node are those of its subtree, itself aside. -/
theorem Numbered.mem_subtree_tail {catalog : Catalog} (numbered : catalog.Numbered)
    {root id : NodeId} :
    id ∈ (catalog.subtree root).tail ↔ id ∈ catalog.subtree root ∧ id ≠ root := by
  cases found : catalog.contains root with
  | false => simp [subtree_of_absent found]
  | true =>
    have distinct := numbered.nodup_subtree root
    rw [subtree_eq_cons found, List.nodup_cons] at distinct
    rw [subtree_eq_cons found, List.tail_cons, List.mem_cons]
    constructor
    · exact fun below => ⟨Or.inr below, fun same => distinct.1 (same ▸ below)⟩
    · exact fun ⟨either, other⟩ => either.resolve_left other

end Catalog

end EntityModel
