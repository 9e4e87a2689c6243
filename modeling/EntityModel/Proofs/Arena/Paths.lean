import EntityModel.Proofs.Arena.View

/-
**Going up and down in the slots of a catalog.**

The loops of the arena end on the slots of a catalog, and come by what its trees hold.

* `climb_ancestors` — going up from a node leads through the nodes above it in its tree.
* `walk_subtree` — going through a node and all below it finds the subtree.
* `inOrder_documentOrder` — the roots one after the other give the document order.
-/

namespace EntityModel

namespace Catalog

section Paths

variable {catalog : Catalog} (numbered : catalog.Numbered)

include numbered

theorem Numbered.cell?_of_absent {id : NodeId} (absent : catalog.site? id = none) :
    catalog.arena.cell? id = none := by
  rw [← Option.isNone_iff_eq_none, ← Option.isSome_eq_false_iff, numbered.isSome_cell?, contains,
    absent]
  rfl

theorem Numbered.climb_link {document : Document} (member : document ∈ catalog.documents)
    {above : List Node} : ∀ {link : Tree.Link Node}, link ∈ document.links → link.above = above →
      catalog.arena.Climb link.label.id (above.map Node.id) := by
  induction above with
  | nil =>
    intro link inside top
    refine .top ?_
    rw [numbered.cell?_of_link member inside]
    show (link.above.head?.map Node.id).or none = none
    rw [top]
    rfl
  | cons parent upper ih =>
    intro link inside line
    obtain ⟨tree, root, within⟩ := Document.mem_links.mp inside
    obtain ⟨higher, known, rfl, rest, _⟩ := Tree.link_of_above within line
    refine .step ?_ (ih (Document.mem_links.mpr ⟨tree, root, known⟩) rest)
    rw [numbered.cell?_of_link member inside]
    show (link.above.head?.map Node.id).or none = some higher.label.id
    rw [line]
    rfl

/-- **Going up from a node** leads through the nodes above it in its tree, and ends. -/
theorem Numbered.climb_ancestors (id : NodeId) :
    catalog.arena.Climb id (catalog.ancestors id) := by
  unfold Catalog.ancestors
  cases located : catalog.site? id with
  | none =>
    refine .top ?_
    rw [numbered.cell?_of_absent located]
    rfl
  | some site =>
    obtain ⟨member, rfl⟩ := mem_sites_of_site? located
    obtain ⟨known, tree, root, within⟩ := exists_root_of_mem_sites member
    have inside : site.spot.link ∈ tree.links := by
      rw [← Tree.map_link_spots]
      exact List.mem_map_of_mem within
    exact numbered.climb_link known (Document.mem_links.mpr ⟨tree, root, inside⟩) rfl

omit numbered in
/-- A tree whose links are in the slots is found from its top, in document order. -/
theorem walk_tree {arena : Arena} (tree : Tree Node) : ∀ {stack found : List NodeId},
    (∀ link ∈ tree.links, ∃ cell, arena.cell? link.label.id = some cell ∧
      cell.children = link.children.map Node.id) →
    arena.Walk stack found →
    arena.Walk (tree.label.id :: stack) (tree.labels.map Node.id ++ found) := by
  induction tree using Tree.induct with
  | step label children ih =>
    intro stack found held rest
    have siblings : ∀ trees : List (Tree Node), (∀ child ∈ trees, child ∈ children) →
        arena.Walk (trees.map (fun child => child.label.id) ++ stack)
          ((trees.map Tree.labels).flatten.map Node.id ++ found) := by
      intro trees
      induction trees with
      | nil => exact fun _ => rest
      | cons child trees later =>
        intro each
        have others := later fun other member => each other (List.mem_cons_of_mem _ member)
        rw [List.map_cons, List.map_cons, List.flatten_cons, List.map_append, List.append_assoc]
        refine ih child (each child List.mem_cons_self) (fun link inside => ?_) others
        refine held (link.below [label]) ?_
        rw [Tree.links_node]
        exact List.mem_cons_of_mem _ (Tree.mem_links_below.mpr
          ⟨child, each child List.mem_cons_self, link, inside, rfl⟩)
    obtain ⟨cell, here, listed⟩ := held _ (Tree.topLink_mem _)
    rw [Tree.labels_node]
    refine .visit here ?_
    rw [listed]
    show arena.Walk ((children.map Tree.label).map Node.id ++ stack) _
    rw [List.map_map]
    exact siblings children fun _ member => member

/-- **Going through a node and all below it** finds its subtree, and ends. -/
theorem Numbered.walk_subtree (id : NodeId) : catalog.arena.Walk [id] (catalog.subtree id) := by
  unfold Catalog.subtree
  cases located : catalog.site? id with
  | none =>
    exact .skip (numbered.cell?_of_absent located) .done
  | some site =>
    obtain ⟨member, rfl⟩ := mem_sites_of_site? located
    obtain ⟨known, tree, root, within⟩ := exists_root_of_mem_sites member
    have walk := @walk_tree catalog.arena site.spot.tree [] [] (fun link inside => ?_) .done
    · rw [List.append_nil] at walk
      exact walk
    · have whole := Tree.link_of_spot within inside
      have held := numbered.cell?_of_link known (Document.mem_links.mpr ⟨tree, root, whole⟩)
      exact ⟨_, held, rfl⟩

/-- **The roots one after the other** give the document order. -/
theorem Numbered.inOrder_documentOrder : catalog.arena.InOrder catalog.documentOrder := by
  have parts : ∀ documents : List Document, (∀ document ∈ documents, document ∈ catalog.documents) →
      ∃ parts, List.Forall₂ (fun root part => catalog.arena.Walk [root] part)
        ((documents.map Document.volume).filterMap Volume.root) parts ∧
          (documents.flatMap Document.rows).map Row.id = parts.flatten := by
    intro documents
    induction documents with
    | nil => exact fun _ => ⟨[], .nil, rfl⟩
    | cons document documents ih =>
      intro each
      obtain ⟨parts, walks, same⟩ := ih fun other member => each other (List.mem_cons_of_mem _ member)
      have member := each document List.mem_cons_self
      rw [List.map_cons, List.filterMap_cons, List.flatMap_cons, List.map_append, same]
      unfold Document.volume Document.rows
      cases root : document.root with
      | none => exact ⟨parts, walks, rfl⟩
      | some tree =>
        have walk := @walk_tree catalog.arena tree [] [] (fun link inside => ⟨_,
          numbered.cell?_of_link member (Document.mem_links.mpr ⟨tree, root, inside⟩), rfl⟩) .done
        rw [List.append_nil] at walk
        refine ⟨tree.labels.map Node.id :: parts, .cons walk walks, ?_⟩
        rw [List.flatten_cons, ← Tree.map_label_lines, List.map_map, Tree.linesOf, Option.elim_some,
          List.map_map]
        rfl
  obtain ⟨parts, walks, same⟩ := parts catalog.documents fun _ member => member
  refine ⟨parts, walks, ?_⟩
  rw [documentOrder_eq]
  exact same

end Paths

end Catalog

end EntityModel
