import EntityModel.Proofs.Workspace.Slots

/-
**The slots stay a forest.**

Inserts hang in a tree at once, while deletions and unloads wait for the commit; subtrees are deleted
inside others, documents lose their roots without going. Whatever is done, the numbers that the nodes
know of each other describe trees, one below the root of each document.

* `Arena.Forest` — parents and children agree, and every node hangs below the root of its document.
* `Catalog.Forest` — the slots of a catalog are a forest, and going up, going down and the document
  order end and come by the right nodes.
* `Numbered.forest` — the slots of trees are a forest.
* `forest_after` — **after every history of commands the slots are a forest, and whatever comes next
  brings back no node that is gone and changes neither what a node is nor where it hangs.**
-/

namespace EntityModel

/-- The slots describe trees. -/
structure Arena.Forest (arena : Arena) : Prop where
  /-- In the slot of a number is the node with that number, or nothing. -/
  number : ∀ id cell, arena.cell? id = some cell → cell.node.id = id
  /-- Children are there and know their parent, and parents are there and list their children. -/
  linked : ∀ parent child,
    (∃ upper, arena.cell? parent = some upper ∧ child ∈ upper.children) ↔
      ∃ cell, arena.cell? child = some cell ∧ cell.parent = some parent
  once : ∀ id cell, arena.cell? id = some cell → cell.children.Nodup
  lower : ∀ id cell parent, arena.cell? id = some cell → cell.parent = some parent →
    parent.number < id.number
  /-- A node without a parent is the root of its own document, and of no other. -/
  top : ∀ id cell, arena.cell? id = some cell → cell.parent = none →
    ∀ volume ∈ arena.volumes, volume.root = some id ↔ volume.id = cell.document
  root : ∀ volume ∈ arena.volumes, ∀ id, volume.root = some id →
    ∃ cell, arena.cell? id = some cell ∧ cell.parent = none ∧ cell.document = volume.id
  home : ∀ id cell, arena.cell? id = some cell → ∃ volume ∈ arena.volumes, volume.id = cell.document
  volumes : (arena.volumes.map Volume.id).Nodup
  /-- A node is in the document of its parent. -/
  together : ∀ id cell parent upper, arena.cell? id = some cell → cell.parent = some parent →
    arena.cell? parent = some upper → upper.document = cell.document

/-- The slots of the catalog describe trees, and all loops on them end with the right nodes. -/
structure Catalog.Forest (catalog : Catalog) : Prop extends catalog.arena.Forest where
  live : ∀ id, (catalog.arena.cell? id).isSome = catalog.contains id
  climb : ∀ id, catalog.arena.Climb id (catalog.ancestors id)
  /-- Going up, the numbers get smaller. -/
  descending : ∀ id, (id :: catalog.ancestors id).Pairwise fun lower upper =>
    upper.number < lower.number
  walk : ∀ id, catalog.arena.Walk [id] (catalog.subtree id)
  walkOnce : ∀ id, (catalog.subtree id).Nodup
  below : ∀ root id, id ∈ catalog.subtree root ↔
    catalog.contains id = true ∧ root ∈ id :: catalog.ancestors id
  inOrder : catalog.arena.InOrder catalog.documentOrder
  orderOnce : catalog.documentOrder.Nodup
  order : ∀ id, id ∈ catalog.documentOrder ↔ catalog.contains id = true

/-- Where parents have smaller numbers, going up leads to smaller and smaller ones. -/
theorem Arena.Climb.descending {arena : Arena} (ascending : arena.Ascending) {id : NodeId}
    {above : List NodeId} (climb : arena.Climb id above) :
    (id :: above).Pairwise fun lower upper => upper.number < lower.number := by
  induction climb with
  | top alone => exact List.pairwise_singleton _ _
  | @step id parent above below rest ih =>
    obtain ⟨cell, found, known⟩ := Option.bind_eq_some_iff.mp below
    have lower := ascending id cell parent found known
    refine List.pairwise_cons.mpr ⟨fun other member => ?_, ih⟩
    rcases List.mem_cons.mp member with rfl | higher
    · exact lower
    · exact Nat.lt_trans ((List.pairwise_cons.mp ih).1 other higher) lower

namespace Catalog

theorem Numbered.ancestors_row {catalog : Catalog} (numbered : catalog.Numbered) {row : Row}
    (member : row ∈ catalog.rows) : catalog.ancestors row.id = row.above.map Node.id := by
  obtain ⟨site, _, located, rfl⟩ := numbered.site?_of_row member
  unfold Catalog.ancestors
  rw [located]
  rfl

/-- **The slots of trees are a forest.** -/
theorem Numbered.forest {catalog : Catalog} (numbered : catalog.Numbered)
    (ascending : catalog.arena.Ascending) : catalog.Forest := by
  have ends := numbered.climb_ancestors
  refine ⟨⟨?_, ?_, ?_, ascending, ?_, ?_, ?_, ?_, ?_⟩, numbered.isSome_cell?, ends,
    fun id => (ends id).descending ascending, numbered.walk_subtree, numbered.nodup_subtree, ?_,
    numbered.inOrder_documentOrder, numbered.documentOrder_nodup, ?_⟩
  · exact fun id cell found => (numbered.cell?_eq_some_iff.mp found).2
  · intro parent child
    constructor
    · rintro ⟨upper, found, listed⟩
      obtain ⟨cell, known, above, _⟩ := numbered.cell_of_child found listed
      exact ⟨cell, known, above⟩
    · rintro ⟨cell, found, above⟩
      obtain ⟨upper, known, listed, _⟩ := numbered.cell_of_parent found above
      exact ⟨upper, known, listed⟩
  · exact fun id cell found => numbered.nodup_children found
  · intro id cell found above volume member
    obtain ⟨document, known, rfl⟩ := List.mem_map.mp member
    rw [numbered.root_iff known]
    constructor
    · rintro ⟨other, there, _, own⟩
      rw [found] at there
      rw [Option.some.inj there]
      exact own.symm
    · exact fun own => ⟨cell, found, above, own.symm⟩
  · intro volume member id rooted
    obtain ⟨document, known, rfl⟩ := List.mem_map.mp member
    exact (numbered.root_iff known).mp rooted
  · intro id cell found
    obtain ⟨document, known, link, _, _, rfl⟩ := exists_link found
    exact ⟨document.volume, List.mem_map_of_mem known, rfl⟩
  · show ((catalog.documents.map Document.volume).map Volume.id).Nodup
    rw [List.map_map]
    exact numbered.documentsUnique
  · intro id cell parent upper found above there
    obtain ⟨other, known, _, same⟩ := numbered.cell_of_parent found above
    rw [there] at known
    rw [Option.some.inj known]
    exact same
  · intro root id
    rw [numbered.mem_subtree, contains_iff]
    constructor
    · rintro ⟨row, member, rfl, through⟩
      exact ⟨⟨row, member, rfl⟩, numbered.ancestors_row member ▸ through⟩
    · rintro ⟨⟨row, member, rfl⟩, through⟩
      exact ⟨row, member, rfl, (numbered.ancestors_row member ▸ through : root ∈ row.id :: _)⟩
  · intro id
    rw [documentOrder_eq, contains_iff, List.mem_map]

end Catalog

/-- **The slots stay a forest** after every history of commands, and whatever comes next is done by
operations that bring back no node that is gone and change neither what a node is nor where it
hangs. -/
theorem forest_after (options : Options) (commands : List Command) :
    ((Workspace.ofOptions options).after commands).catalog.Forest ∧
      ∀ later : List Command,
        Arena.Steps ((Workspace.ofOptions options).after commands).catalog.arena
            (((Workspace.ofOptions options).after commands).after later).catalog.arena ∧
          Arena.Follows ((Workspace.ofOptions options).after commands).catalog.arena
            (((Workspace.ofOptions options).after commands).after later).catalog.arena := by
  have coherent := Workspace.coherent_after options commands
  have ascending := (Workspace.slotwise_after (Workspace.coherent_ofOptions options)
    commands).ascending Arena.ascending_empty
  refine ⟨coherent.numbered.forest ascending, fun later => ?_⟩
  have steps := Workspace.slotwise_after coherent later
  exact ⟨steps, steps.follows⟩

end EntityModel
