import EntityModel.Proofs.Arena.Building

/-
**A catalog as an arena.**

The trees of a catalog can be read as slots: each node with its document, the node right above it and
those right below it.

* `Catalog.arena` — the slots of a catalog, as its places give them.
* `Catalog.cells` — the filled slots, from the links of the trees; `cell?_eq_some_iff` — under
  `Numbered` a slot is found by its number.
* `cell_of_child`, `cell_of_parent`, `root_iff`, `nodup_children` — the numbers in the slots agree
  with each other and with the roots of the documents.
-/

namespace EntityModel

/-- The slot of the node at the place. -/
def Site.cell (site : Site) : Cell :=
  ⟨site.node, site.document.id, site.ancestors.head?.map Node.id, site.children.map Node.id⟩

/-- The document with its root by number. -/
def Document.volume (document : Document) : Volume :=
  ⟨document.id, document.uri, document.layer, document.root.map fun tree => tree.label.id⟩

/-- The links of the tree of a document. -/
def Document.links (document : Document) : List (Tree.Link Node) :=
  Tree.linksOf document.root

theorem Document.mem_links {document : Document} {link : Tree.Link Node} : link ∈ document.links ↔
    ∃ tree, document.root = some tree ∧ link ∈ tree.links := by
  unfold Document.links
  cases document.root with
  | none => exact iff_of_false List.not_mem_nil fun ⟨_, same, _⟩ => nomatch same
  | some tree => exact ⟨fun inside => ⟨tree, rfl, inside⟩, fun ⟨_, same, inside⟩ =>
      Option.some.inj same ▸ inside⟩

namespace Catalog

/-- The slots of a catalog. -/
def arena (catalog : Catalog) : Arena where
  volumes := catalog.documents.map Document.volume
  nextDocument := catalog.nextDocument
  slots := (List.range catalog.nextNode).map fun number => (catalog.site? ⟨number⟩).map Site.cell

/-- The filled slots of a catalog, in document order. -/
def cells (catalog : Catalog) : List Cell :=
  catalog.documents.flatMap fun document => document.links.map (Cell.ofLink document.id none)

theorem mem_cells {catalog : Catalog} {cell : Cell} : cell ∈ catalog.cells ↔
    ∃ document ∈ catalog.documents, ∃ link ∈ document.links,
      cell = .ofLink document.id none link := by
  unfold cells
  rw [List.mem_flatMap]
  refine exists_congr fun document => and_congr_right fun _ => ?_
  rw [List.mem_map]
  exact exists_congr fun link => and_congr_right fun _ => eq_comm

/-- The slots of the places are those of the links. -/
theorem map_cell_sites (catalog : Catalog) : catalog.sites.map Site.cell = catalog.cells := by
  have own : ∀ (rank : Nat) (document : Document), (sitesOf rank document).map Site.cell =
      document.links.map (Cell.ofLink document.id none) := by
    intro rank document
    unfold sitesOf Document.links
    cases document.root with
    | none => rfl
    | some tree =>
      rw [Tree.linksOf, Option.elim_some, ← Tree.map_link_spots, List.map_map, List.map_map]
      refine List.map_congr_left fun spot _ => ?_
      unfold Cell.ofLink
      rw [Function.comp_apply, Function.comp_apply, Option.or_none]
      rfl
  have from_start : ∀ (documents : List Document) (start : Nat),
      ((documents.zipIdx start).map fun pair =>
        sitesOf pair.2 pair.1).flatten.map Site.cell =
        documents.flatMap fun document => document.links.map (Cell.ofLink document.id none) := by
    intro documents
    induction documents with
    | nil => exact fun _ => rfl
    | cons document documents ih =>
      intro start
      rw [List.zipIdx_cons, List.map_cons, List.flatten_cons, List.map_append, ih, own,
        List.flatMap_cons]
  exact from_start catalog.documents 0

theorem map_id_cells (catalog : Catalog) :
    (catalog.cells.map fun cell => cell.node.id) = catalog.rows.map Row.id := by
  rw [← map_cell_sites, ← map_row_sites, List.map_map, List.map_map]
  rfl

/-! ### Slots by number -/

theorem length_slots (catalog : Catalog) : catalog.arena.slots.length = catalog.nextNode := by
  unfold arena
  rw [List.length_map, List.length_range]

theorem cell?_arena (catalog : Catalog) (id : NodeId) : catalog.arena.cell? id =
    if id.number < catalog.nextNode then
      catalog.cells.find? fun cell => decide (cell.node.id = id)
    else none := by
  have found : catalog.cells.find? (fun cell => decide (cell.node.id = id)) =
      (catalog.site? id).map Site.cell := by
    rw [← map_cell_sites, List.find?_map]
    rfl
  unfold Arena.cell? arena
  rw [List.getElem?_map, found]
  split
  · rename_i given
    rw [List.getElem?_range given]
    rfl
  · rename_i beyond
    rw [List.getElem?_eq_none (by rw [List.length_range]; exact Nat.le_of_not_lt beyond)]
    rfl

theorem Numbered.cell?_eq_some_iff {catalog : Catalog} (numbered : catalog.Numbered) {id : NodeId}
    {cell : Cell} : catalog.arena.cell? id = some cell ↔ cell ∈ catalog.cells ∧ cell.node.id = id := by
  have unique : (catalog.cells.map fun cell => cell.node.id).Nodup := by
    rw [map_id_cells]
    exact numbered.unique
  rw [cell?_arena]
  constructor
  · intro found
    split at found
    · exact ⟨List.mem_of_find?_eq_some found, by simpa using List.find?_some found⟩
    · exact nomatch found
  · rintro ⟨member, rfl⟩
    have listed : cell.node.id ∈ catalog.rows.map Row.id := by
      rw [← map_id_cells]
      exact List.mem_map_of_mem member
    obtain ⟨row, live, same⟩ := List.mem_map.mp listed
    rw [if_pos (same ▸ numbered.below row live)]
    have some : (catalog.cells.find? fun other => decide (other.node.id = cell.node.id)).isSome := by
      rw [List.find?_isSome]
      exact ⟨cell, member, decide_eq_true rfl⟩
    obtain ⟨other, found⟩ := Option.isSome_iff_exists.mp some
    have number : other.node.id = cell.node.id := by simpa using List.find?_some found
    rw [found, List.inj_on_of_nodup_map unique (List.mem_of_find?_eq_some found) member number]

/-- What is in a slot comes from a link of a tree. -/
theorem exists_link {catalog : Catalog} {id : NodeId} {cell : Cell}
    (found : catalog.arena.cell? id = some cell) : ∃ document ∈ catalog.documents,
      ∃ link ∈ document.links, link.label.id = id ∧ cell = .ofLink document.id none link := by
  rw [cell?_arena] at found
  split at found
  · have number : cell.node.id = id := by simpa using List.find?_some found
    obtain ⟨document, member, link, inside, rfl⟩ := mem_cells.mp (List.mem_of_find?_eq_some found)
    exact ⟨document, member, link, inside, number, rfl⟩
  · exact nomatch found

theorem row_of_link {catalog : Catalog} {document : Document} (member : document ∈ catalog.documents)
    {link : Tree.Link Node} (inside : link ∈ document.links) :
    Row.ofLine document.layer link.toLine ∈ catalog.rows := by
  obtain ⟨tree, root, within⟩ := Document.mem_links.mp inside
  refine row_of_line member root ?_
  rw [← Tree.map_line_links]
  exact List.mem_map_of_mem within

section Links

variable {catalog : Catalog} (numbered : catalog.Numbered)

include numbered

theorem Numbered.cell?_of_link {document : Document} (member : document ∈ catalog.documents)
    {link : Tree.Link Node} (inside : link ∈ document.links) :
    catalog.arena.cell? link.label.id = some (.ofLink document.id none link) :=
  numbered.cell?_eq_some_iff.mpr ⟨mem_cells.mpr ⟨document, member, link, inside, rfl⟩, rfl⟩

theorem Numbered.isSome_cell? (id : NodeId) :
    (catalog.arena.cell? id).isSome = catalog.contains id := by
  rw [Bool.eq_iff_iff, contains_iff, Option.isSome_iff_exists]
  constructor
  · rintro ⟨cell, found⟩
    obtain ⟨document, member, link, inside, same, _⟩ := exists_link found
    exact ⟨_, row_of_link member inside, same⟩
  · rintro ⟨row, member, rfl⟩
    have listed : row.id ∈ catalog.cells.map fun cell => cell.node.id := by
      rw [map_id_cells]
      exact List.mem_map_of_mem member
    obtain ⟨cell, inside, same⟩ := List.mem_map.mp listed
    exact ⟨cell, numbered.cell?_eq_some_iff.mpr ⟨inside, same⟩⟩

theorem Numbered.cell?_of_site {site : Site} (member : site ∈ catalog.sites) :
    catalog.arena.cell? site.id = some site.cell :=
  numbered.cell?_eq_some_iff.mpr ⟨map_cell_sites catalog ▸ List.mem_map_of_mem member, rfl⟩

theorem Numbered.node?_of_cell {id : NodeId} {cell : Cell}
    (found : catalog.arena.cell? id = some cell) : catalog.node? id = some cell.node := by
  obtain ⟨document, member, link, inside, rfl, rfl⟩ := exists_link found
  exact numbered.node?_of_mem (row_of_link member inside)

/-- The nodes of a subtree are those with its root on their line. -/
theorem Numbered.mem_subtree_of_link {document : Document} (member : document ∈ catalog.documents)
    {link : Tree.Link Node} (inside : link ∈ document.links) {root : NodeId} :
    link.label.id ∈ catalog.subtree root ↔ root ∈ link.toLine.whole.map Node.id := by
  have live := row_of_link member inside
  rw [numbered.mem_subtree]
  constructor
  · rintro ⟨row, listed, same, through⟩
    rw [numbered.eq_of_id listed live same] at through
    exact through
  · exact fun through => ⟨_, live, rfl, through⟩

/-- **Who is listed as a child** is there and has the parent. -/
theorem Numbered.cell_of_child {parent child : NodeId} {cell : Cell}
    (found : catalog.arena.cell? parent = some cell) (listed : child ∈ cell.children) :
    ∃ below, catalog.arena.cell? child = some below ∧ below.parent = some parent ∧
      below.document = cell.document := by
  obtain ⟨document, member, link, inside, rfl, rfl⟩ := exists_link found
  obtain ⟨tree, root, within⟩ := Document.mem_links.mp inside
  obtain ⟨node, below, rfl⟩ := List.mem_map.mp listed
  obtain ⟨lower, known, rfl, above⟩ := Tree.link_of_child within below
  refine ⟨_, numbered.cell?_of_link member (Document.mem_links.mpr ⟨tree, root, known⟩), ?_, rfl⟩
  unfold Cell.ofLink
  rw [above]
  rfl

/-- **The parent of a node** is there and lists the node. -/
theorem Numbered.cell_of_parent {child parent : NodeId} {cell : Cell}
    (found : catalog.arena.cell? child = some cell) (above : cell.parent = some parent) :
    ∃ upper, catalog.arena.cell? parent = some upper ∧ child ∈ upper.children ∧
      upper.document = cell.document := by
  obtain ⟨document, member, link, inside, rfl, rfl⟩ := exists_link found
  obtain ⟨tree, root, within⟩ := Document.mem_links.mp inside
  have nearest : (link.above.head?.map Node.id).or none = some parent := above
  cases line : link.above with
  | nil =>
    rw [line] at nearest
    exact nomatch nearest
  | cons node upper =>
    rw [line] at nearest
    obtain rfl : node.id = parent := Option.some.inj nearest
    obtain ⟨higher, known, rfl, _, listed⟩ := Tree.link_of_above within line
    exact ⟨_, numbered.cell?_of_link member (Document.mem_links.mpr ⟨tree, root, known⟩),
      List.mem_map_of_mem listed, rfl⟩

/-- **The roots** are the nodes without a parent, each in its own document. -/
theorem Numbered.root_iff {document : Document} (member : document ∈ catalog.documents)
    {id : NodeId} : document.volume.root = some id ↔ ∃ cell, catalog.arena.cell? id = some cell ∧
      cell.parent = none ∧ cell.document = document.id := by
  constructor
  · intro rooted
    obtain ⟨tree, root, rfl⟩ := Option.map_eq_some_iff.mp rooted
    exact ⟨_, numbered.cell?_of_link member (Document.mem_links.mpr ⟨tree, root, tree.topLink_mem⟩),
      rfl, rfl⟩
  · rintro ⟨cell, found, top, own⟩
    obtain ⟨other, here, link, inside, rfl, rfl⟩ := exists_link found
    obtain rfl := List.inj_on_of_nodup_map numbered.documentsUnique here member own
    obtain ⟨tree, root, within⟩ := Document.mem_links.mp inside
    have alone : link.above = [] := by
      have none : (link.above.head?.map Node.id).or none = none := top
      rw [Option.or_none, Option.map_eq_none_iff, List.head?_eq_none_iff] at none
      exact none
    rw [Tree.eq_topLink within alone]
    unfold Document.volume
    rw [root]
    rfl

/-- **No child is listed twice.** -/
theorem Numbered.nodup_children {id : NodeId} {cell : Cell}
    (found : catalog.arena.cell? id = some cell) : cell.children.Nodup := by
  obtain ⟨document, member, link, inside, rfl, rfl⟩ := exists_link found
  obtain ⟨tree, root, within⟩ := Document.mem_links.mp inside
  have once : (document.rows.map Row.id).Nodup := by
    refine List.Nodup.sublist (List.Sublist.map _ ?_) numbered.unique
    exact List.sublist_flatten_of_mem (List.mem_map_of_mem member)
  have labels : document.rows.map Row.id = tree.labels.map Node.id := by
    unfold Document.rows
    rw [root, ← Tree.map_label_lines, List.map_map, Tree.linesOf, Option.elim_some, List.map_map]
    rfl
  rw [labels] at once
  exact once.sublist ((Tree.children_sublist within).map _)

end Links

end Catalog

end EntityModel
