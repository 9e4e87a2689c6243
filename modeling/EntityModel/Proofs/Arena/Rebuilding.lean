import EntityModel.Proofs.Arena.Changes
import EntityModel.Proofs.Arena.Keys
import EntityModel.Proofs.Catalog.Arranged
import EntityModel.Views

/-
**Writing nodes out, slot by slot.**

A node is written out with its own head, the elements it keeps inside, and the nodes right below it,
which are written out in the same way.

* `Arena.Rebuilds` — the recursion; `Rebuilds.unique` — it comes to one result only.
* `Arena.Holds` — a tree stands in the slots. It is written out as the tree is
  (`Holds.rebuilds`), and found from its top (`Holds.subtree`).
* `Numbered.rebuilds_iff` — **the recursion over the slots comes to what the trees are written as.**
* `Built` — what building makes of an element: nodes with consecutive new numbers, which are written
  out as the element arranged; `Grown.built` — **a planted element is built.**
-/

namespace EntityModel

namespace Arena

/-- The nodes, and those below them, are written out as these elements; who is not there is left out.
-/
inductive Rebuilds (arena : Arena) : List NodeId → List Element → Prop where
  | done : Rebuilds arena [] []
  | skip {id : NodeId} {ids : List NodeId} {elements : List Element}
      (absent : arena.cell? id = none) (rest : Rebuilds arena ids elements) :
      Rebuilds arena (id :: ids) elements
  | node {id : NodeId} {ids : List NodeId} {cell : Cell} {children elements : List Element}
      (here : arena.cell? id = some cell) (below : Rebuilds arena cell.children children)
      (rest : Rebuilds arena ids elements) :
      Rebuilds arena (id :: ids) (.node cell.node.head (cell.node.inline ++ children) :: elements)

/-- Nodes are written out in one way only. -/
theorem Rebuilds.unique {arena : Arena} {ids : List NodeId} {elements others : List Element}
    (first : arena.Rebuilds ids elements) (second : arena.Rebuilds ids others) :
    elements = others := by
  induction first generalizing others with
  | done =>
    cases second with
    | done => rfl
  | skip absent rest ih =>
    cases second with
    | skip _ after => exact ih after
    | node here _ after =>
      rw [absent] at here
      exact nomatch here
  | node here below rest ihBelow ihRest =>
    cases second with
    | skip absent after =>
      rw [absent] at here
      exact nomatch here
    | node there under after =>
      rw [here] at there
      obtain rfl := Option.some.inj there
      rw [ihBelow under, ihRest after]

/-- The nodes of the tree are in the slots and know their children. -/
def Holds (arena : Arena) (tree : Tree Node) : Prop :=
  ∀ link ∈ tree.links, ∃ cell, arena.cell? link.label.id = some cell ∧ cell.node = link.label ∧
    cell.children = link.children.map Node.id

/-- **A tree in the slots** is written out as it is. -/
theorem Holds.rebuilds {arena : Arena} (tree : Tree Node) : ∀ {ids : List NodeId}
    {elements : List Element}, arena.Holds tree → arena.Rebuilds ids elements →
      arena.Rebuilds (tree.label.id :: ids) (tree.toElement :: elements) := by
  induction tree using Tree.induct with
  | step label children ih =>
    intro ids elements held rest
    have siblings : ∀ trees : List (Tree Node), (∀ child ∈ trees, child ∈ children) →
        arena.Rebuilds (trees.map fun child => child.label.id) (trees.map Tree.toElement) := by
      intro trees
      induction trees with
      | nil => exact fun _ => .done
      | cons child trees later =>
        intro each
        refine ih child (each child List.mem_cons_self) (fun link inside => ?_)
          (later fun other member => each other (List.mem_cons_of_mem _ member))
        refine held (link.below [label]) ?_
        rw [Tree.links_node]
        exact List.mem_cons_of_mem _ (Tree.mem_links_below.mpr
          ⟨child, each child List.mem_cons_self, link, inside, rfl⟩)
    obtain ⟨cell, here, same, listed⟩ := held _ (Tree.topLink_mem _)
    have below : arena.Rebuilds cell.children (children.map Tree.toElement) := by
      rw [listed]
      show arena.Rebuilds ((children.map Tree.label).map Node.id) _
      rw [List.map_map]
      exact siblings children fun _ member => member
    have written := Rebuilds.node here below rest
    rw [same] at written
    rw [Tree.toElement, Tree.fold_node]
    exact written

end Arena

namespace Catalog

section Held

variable {catalog : Catalog} (numbered : catalog.Numbered)

include numbered

/-- What stands at a place stands in the slots. -/
theorem Numbered.holds_site {site : Site} (member : site ∈ catalog.sites) :
    catalog.arena.Holds site.spot.tree := by
  obtain ⟨known, tree, root, within⟩ := exists_root_of_mem_sites member
  intro link inside
  have whole := Tree.link_of_spot within inside
  have found := numbered.cell?_of_link known (Document.mem_links.mpr ⟨tree, root, whole⟩)
  exact ⟨_, found, rfl, rfl⟩

/-- **The recursion over the slots** comes to what the trees are written as. -/
theorem Numbered.rebuilds_iff {id : NodeId} {elements : List Element} :
    catalog.arena.Rebuilds [id] elements ↔ elements = (catalog.toElement? id).toList := by
  have written : catalog.arena.Rebuilds [id] (catalog.toElement? id).toList := by
    unfold toElement?
    cases located : catalog.site? id with
    | none => exact .skip (numbered.cell?_of_absent located) .done
    | some site =>
      obtain ⟨member, rfl⟩ := mem_sites_of_site? located
      exact (numbered.holds_site member).rebuilds site.spot.tree .done
  exact ⟨fun other => other.unique written, fun same => same ▸ written⟩

theorem Numbered.toElement?_of_holds {tree : Tree Node} (held : catalog.arena.Holds tree) :
    catalog.toElement? tree.label.id = some tree.toElement := by
  have written := numbered.rebuilds_iff.mp (held.rebuilds tree .done)
  exact (Option.toList_eq_singleton_iff.mp written.symm)

theorem Numbered.subtree_of_holds {tree : Tree Node} (held : catalog.arena.Holds tree) :
    catalog.subtree tree.label.id = tree.labels.map Node.id := by
  have walk := @walk_tree catalog.arena tree [] [] (fun link inside => by
    obtain ⟨cell, found, _, listed⟩ := held link inside
    exact ⟨cell, found, listed⟩) .done
  rw [List.append_nil] at walk
  exact (numbered.walk_iff.mp walk).symm

theorem Numbered.node?_of_holds {tree : Tree Node} (held : catalog.arena.Holds tree) {node : Node}
    (member : node ∈ tree.labels) : catalog.node? node.id = some node := by
  rw [← Tree.map_label_links] at member
  obtain ⟨link, inside, rfl⟩ := List.mem_map.mp member
  obtain ⟨cell, found, same, _⟩ := held link inside
  rw [numbered.node?_of_cell found, same]

end Held

/-! ### Building -/

/-- The nodes below the root are what building makes of the element, which is of the kind and stands
below a node of the kind `outer`. -/
structure Built (outer : Option Kind) (kind : Kind) (element : Element) (before after : Catalog)
    (root : NodeId) : Prop where
  /-- The node is written out as the element with absorbed children first. -/
  written : after.toElement? root = some (element.arranged outer kind)
  /-- So it is by the recursion over the slots. -/
  rebuilt : ∀ elements, after.arena.Rebuilds [root] elements ↔
    elements = [element.arranged outer kind]
  /-- The new nodes are those below the root. -/
  new : ∀ id, id ∈ after.subtree root ↔ after.contains id = true ∧ before.contains id = false
  /-- They have consecutive numbers in document order, and they and the elements kept inside them are
  as many as there are elements. -/
  numbers : ∃ count, after.subtree root = (List.range' before.nextNode count).map NodeId.mk ∧
    after.nextNode = before.nextNode + count ∧
    count + Tree.sizeAll (element.absorbed outer kind) = element.size
  /-- Inside them are the absorbed elements. -/
  inline : (after.subtree root).flatMap (fun id => ((after.node? id).map Node.inline).getD []) =
    element.absorbed outer kind

/-- **A planted element is built.** -/
theorem Grown.built {outer : Option Kind} {kind : Kind} {element : Element} {layer : Layer}
    {upper : List Node} {before after : Catalog}
    (grown : Grown (draft outer kind element) layer upper before after)
    (numbered : before.Numbered)
    (held : after.arena.Holds (before.plant (draft outer kind element))) :
    Built outer kind element before after (before.plant (draft outer kind element)).label.id := by
  have twin := grown.numbered_after numbered
  have drafted := before.toDraft_plant (draft outer kind element)
  have written := twin.toElement?_of_holds held
  rw [toElement_of_drafted drafted] at written
  have subtree := twin.subtree_of_holds held
  have ids := before.ids_plant (draft outer kind element)
  refine ⟨written, fun elements => ?_, fun id => ?_, ⟨_, subtree.trans ids, grown.nextNode,
    size_draft_add element outer kind⟩, ?_⟩
  · rw [twin.rebuilds_iff, written]
    rfl
  · rw [subtree, ids, ← ids_rowsBelow before _ layer upper, contains_iff, List.mem_map]
    constructor
    · rintro ⟨row, new, rfl⟩
      refine ⟨⟨row, grown.mem_rows.mpr (Or.inr new), rfl⟩, ?_⟩
      rw [Bool.eq_false_iff]
      intro there
      obtain ⟨old, member, same⟩ := contains_iff.mp there
      have low := numbered.below old member
      rw [same] at low
      exact absurd (fresh_of_rowsBelow new).2.1 (Nat.not_le.mpr low)
    · rintro ⟨⟨row, member, rfl⟩, absent⟩
      rcases grown.mem_rows.mp member with old | new
      · have there : before.contains row.id = true := contains_iff.mpr ⟨row, old, rfl⟩
        rw [absent] at there
        exact nomatch there
      · exact ⟨row, new, rfl⟩
  · have own : ∀ node ∈ (before.plant (draft outer kind element)).labels,
        ((after.node? node.id).map Node.inline).getD [] = node.toDraft.inline := by
      intro node member
      rw [twin.node?_of_holds held member]
      rfl
    rw [subtree, List.flatMap_map, List.flatMap_congr own, ← flatMap_inline_draft, ← drafted,
      Tree.labels_map, List.flatMap_map, drafted]

/-- **Loading builds** the root of a document. -/
theorem Numbered.built_addDocument {catalog : Catalog} (numbered : catalog.Numbered) (uri : String)
    (layer : Layer) (element : Element) :
    Built none (.ofRoot layer element.label.tag) element catalog
      (catalog.addDocument uri layer element).1 ⟨catalog.nextNode⟩ := by
  have grown := grown_addDocument catalog uri layer element
  rw [← show (catalog.plant (draft none (.ofRoot layer element.label.tag) element)).label.id =
    ⟨catalog.nextNode⟩ from Tree.id_label_planted _ _]
  refine grown.built numbered fun link inside => ?_
  have listed : (catalog.addDocument uri layer element).2 ∈
      (catalog.addDocument uri layer element).1.documents :=
    List.mem_append_right _ List.mem_cons_self
  exact ⟨_, (grown.numbered_after numbered).cell?_of_link listed
    (Document.mem_links.mpr ⟨_, rfl, inside⟩), rfl, rfl⟩

/-- **Inserting builds** a child of the node at the place. -/
theorem Numbered.built_insertUnder {catalog : Catalog} (numbered : catalog.Numbered) {site : Site}
    (member : site ∈ catalog.sites) (index : Option Nat) (element : Element) :
    Built (some site.node.kind)
      (site.node.kind.ofNested (site.ancestors.head?.map Node.kind) element.label.tag) element
      catalog (catalog.insertUnder site index element).1 ⟨catalog.nextNode⟩ := by
  have grown := grown_insertUnder numbered member index element
  rw [← show (catalog.plant (draft (some site.node.kind)
    (site.node.kind.ofNested (site.ancestors.head?.map Node.kind) element.label.tag)
      element)).label.id = ⟨catalog.nextNode⟩ from Tree.id_label_planted _ _]
  refine grown.built numbered fun link inside => ?_
  have cell := (numbered.mem_cells_insertUnder member index element).mpr
    (Or.inr (List.mem_map_of_mem inside))
  exact ⟨_, (grown.numbered_after numbered).cell?_eq_some_iff.mpr ⟨cell, rfl⟩, rfl, rfl⟩

end Catalog

end EntityModel
