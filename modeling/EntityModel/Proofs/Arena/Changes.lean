import EntityModel.Proofs.Arena.View
import EntityModel.Proofs.Commit.Removal

/-
**The changes of a catalog, slot by slot.**

What the operations on trees do to a catalog is what the operations of the arena do to its slots.

* `arena_modify`, `arena_addDocument`, `arena_insertUnder`, `arena_removeSubtree`,
  `arena_dropDocument` — **every change of a catalog is the operation on the arena.**
-/

namespace EntityModel

/-- Arenas with the same documents and the same in every slot are the same. -/
theorem Arena.ext_cells {first second : Arena} (volumes : first.volumes = second.volumes)
    (nextDocument : first.nextDocument = second.nextDocument)
    (length : first.slots.length = second.slots.length)
    (cells : ∀ id cell, first.cell? id = some cell ↔ second.cell? id = some cell) :
    first = second := by
  have slots : first.slots = second.slots := by
    refine List.ext_getElem length fun index low high => ?_
    have same : first.cell? ⟨index⟩ = second.cell? ⟨index⟩ := Option.ext (cells ⟨index⟩)
    unfold Arena.cell? at same
    simp only [List.getElem?_eq_getElem low, List.getElem?_eq_getElem high, Option.join_some] at same
    exact same
  rcases first with ⟨_, _, _⟩
  rcases second with ⟨_, _, _⟩
  rw [Arena.mk.injEq]
  exact ⟨volumes, nextDocument, slots⟩

theorem Cell.without_of_not_mem {id : NodeId} {cell : Cell} (unlisted : id ∉ cell.children) :
    cell.without id = cell := by
  have all : cell.children.filter (fun child => child ≠ id) = cell.children :=
    List.filter_eq_self.mpr fun child listed => decide_eq_true fun same => unlisted (same ▸ listed)
  unfold Cell.without
  rw [all]

/-- The links of a document after an insertion: those it had, grown, and those of the new tree below
every parent. -/
theorem Document.mem_links_insertAt (document : Document) {parents : Node → Bool}
    {index : Option Nat} {child : Tree Node} {link : Tree.Link Node} :
    link ∈ Document.links
        { document with root := document.root.map (Tree.insertAt parents index child) } ↔
      (∃ old ∈ document.links, link = old.grown parents index child.label) ∨
        ∃ upper ∈ document.links, parents upper.label = true ∧
          ∃ lower ∈ child.links, link = lower.below upper.toLine.whole := by
  unfold Document.links
  cases document.root with
  | none => simp [Tree.linksOf]
  | some tree =>
    show link ∈ (Tree.insertAt parents index child tree).links ↔ _
    rw [Tree.mem_links_insertAt, ← Tree.map_line_links]
    simp [Tree.linksOf]

/-- The slot of a grown link lists the new child where the link is that of a parent. -/
theorem Cell.ofLink_grown (document : DocumentId) (id : NodeId) (index : Option Nat) (child : Node)
    (link : Tree.Link Node) :
    Cell.ofLink document none (link.grown (fun node => node.id = id) index child) =
      if link.label.id = id then (Cell.ofLink document none link).adopt index child.id
      else Cell.ofLink document none link := by
  unfold Cell.ofLink Cell.adopt Tree.Link.grown
  by_cases here : link.label.id = id
  · simp only [here, decide_true, if_true]
    rw [← Tree.insertInto_map]
  · simp [here]

namespace Catalog

/-! ### A node changes -/

theorem cells_modify (catalog : Catalog) {change : Node → Node}
    (keeps : ∀ node, (change node).id = node.id) (id : NodeId) : (catalog.modify id change).cells =
      catalog.cells.map fun cell => { cell with node := onlyAt id change cell.node } := by
  unfold cells modify mapDocuments
  rw [List.flatMap_map, List.map_flatMap]
  refine List.flatMap_congr fun document _ => ?_
  unfold Document.links
  cases document.root with
  | none => rfl
  | some tree =>
    show ((tree.map (onlyAt id change)).links).map (Cell.ofLink document.id none) =
      (tree.links.map (Cell.ofLink document.id none)).map _
    rw [Tree.links_map, List.map_map, List.map_map]
    refine List.map_congr_left fun link _ => ?_
    have same : Node.id ∘ onlyAt id change = Node.id := funext (id_onlyAt keeps id)
    unfold Cell.ofLink
    simp only [Function.comp_apply, Tree.Link.map, Tree.Line.map, List.head?_map, Option.map_map,
      List.map_map, same]

/-- **A node changes in its slot.** -/
theorem arena_modify (catalog : Catalog) {change : Node → Node}
    (keeps : ∀ node, (change node).id = node.id) (id : NodeId) :
    (catalog.modify id change).arena = catalog.arena.write id change := by
  refine Arena.ext_cells ?_ rfl ?_ fun other cell => ?_
  · show (catalog.documents.map _).map Document.volume = catalog.documents.map Document.volume
    rw [List.map_map]
    refine List.map_congr_left fun document _ => ?_
    have root : ∀ tree : Tree Node, (tree.map (onlyAt id change)).label.id = tree.label.id := by
      intro tree
      rw [Tree.label_map]
      exact id_onlyAt keeps id tree.label
    unfold Document.volume
    rw [Function.comp_apply, Option.map_map]
    congr 2
    exact funext root
  · show _ = (catalog.arena.slots.modify _ _).length
    rw [List.length_modify, length_slots, length_slots]
    rfl
  · have same : (catalog.modify id change).arena.cell? other =
        (catalog.arena.write id change).cell? other := by
      unfold Arena.write
      rw [Arena.cell?_modify, cell?_arena, cell?_arena, cells_modify catalog keeps, List.find?_map]
      have number : (fun cell : Cell => decide (cell.node.id = other)) ∘
          (fun cell : Cell => { cell with node := onlyAt id change cell.node }) =
          fun cell => decide (cell.node.id = other) := by
        funext cell
        show decide ((onlyAt id change cell.node).id = other) = _
        rw [id_onlyAt keeps]
      rw [number]
      show (if other.number < catalog.nextNode then _ else _) = _
      split
      · cases found : catalog.cells.find? fun cell => decide (cell.node.id = other) with
        | none => split <;> rfl
        | some cell =>
          have here : cell.node.id = other := by simpa using List.find?_some found
          unfold onlyAt
          simp only [Option.map_some, here]
          split
          · rfl
          · rfl
      · split <;> rfl
    rw [same]

/-! ### A subtree goes -/

/-- The document without the subtree of the node. -/
def pruned (id : NodeId) (document : Document) : Document :=
  { document with root := document.root.bind (Tree.prune fun node => node.id = id) }

theorem mem_cells_removeSubtree {catalog : Catalog} {id : NodeId} {cell : Cell} :
    cell ∈ (catalog.removeSubtree id).cells ↔ ∃ document ∈ catalog.documents,
      ∃ link ∈ document.links, id ∉ link.toLine.whole.map Node.id ∧
        cell = (Cell.ofLink document.id none link).without id := by
  have links : ∀ document : Document, (pruned id document).links =
      (document.links.filter fun link => !link.toLine.whole.any fun node => node.id = id).map
        (Tree.Link.without fun node => node.id = id) := by
    intro document
    unfold Document.links pruned
    cases document.root with
    | none => rfl
    | some tree => exact Tree.links_prune _ tree
  have passes : ∀ link : Tree.Link Node,
      (!link.toLine.whole.any fun node => decide (node.id = id)) = true ↔
        id ∉ link.toLine.whole.map Node.id := by
    intro link
    rw [Bool.not_eq_true', List.any_eq_false]
    simp [List.mem_map]
  have cells : ∀ (document : DocumentId) (link : Tree.Link Node),
      Cell.ofLink document none (link.without fun node => node.id = id) =
        (Cell.ofLink document none link).without id := by
    intro document link
    unfold Cell.ofLink Cell.without Tree.Link.without
    rw [List.filter_map]
    simp [Function.comp_def]
  rw [mem_cells]
  constructor
  · rintro ⟨_, member, _, within, rfl⟩
    obtain ⟨document, before, rfl⟩ := List.mem_map.mp member
    obtain ⟨link, kept, rfl⟩ := List.mem_map.mp (links document ▸ within)
    obtain ⟨inside, apart⟩ := List.mem_filter.mp kept
    exact ⟨document, before, link, inside, (passes link).mp apart, cells document.id link⟩
  · rintro ⟨document, before, link, inside, apart, rfl⟩
    refine ⟨pruned id document, List.mem_map_of_mem before, _, ?_, (cells document.id link).symm⟩
    rw [links]
    exact List.mem_map_of_mem (List.mem_filter.mpr ⟨inside, (passes link).mpr apart⟩)

theorem volume_pruned (id : NodeId) (document : Document) : (pruned id document).volume =
    if document.volume.root = some id then { document.volume with root := none }
    else document.volume := by
  unfold Document.volume pruned
  cases document.root with
  | none => rfl
  | some tree =>
    simp only [Option.bind_some, Option.map_some, Option.some.injEq]
    cases kept : Tree.prune (fun node => decide (node.id = id)) tree with
    | none =>
      rw [Tree.prune_eq_none_iff, decide_eq_true_eq] at kept
      rw [if_pos kept]
      rfl
    | some left =>
      have stays : tree.label.id ≠ id := by
        intro same
        have gone : Tree.prune (fun node : Node => decide (node.id = id)) tree = none :=
          Tree.prune_eq_none_iff.mpr (decide_eq_true same)
        rw [gone] at kept
        exact nomatch kept
      rw [if_neg stays, Option.map_some, Tree.label_prune kept]

section Removal

variable {catalog : Catalog} (numbered : catalog.Numbered) {id : NodeId} {cell : Cell}
  (found : catalog.arena.cell? id = some cell)

include numbered found

/-- Only the parent loses a child. -/
theorem Numbered.cell?_detach (other : NodeId) : (catalog.arena.detach id cell).cell? other =
    (catalog.arena.cell? other).map (Cell.without id) := by
  have stays : some other ≠ cell.parent →
      (catalog.arena.cell? other).map (Cell.without id) = catalog.arena.cell? other := by
    intro apart
    cases there : catalog.arena.cell? other with
    | none => rfl
    | some upper =>
      have unlisted : id ∉ upper.children := fun listed => by
        obtain ⟨below, known, above, _⟩ := numbered.cell_of_child there listed
        rw [found] at known
        exact apart (Option.some.inj known ▸ above).symm
      rw [Option.map_some, Cell.without_of_not_mem unlisted]
  unfold Arena.detach
  cases above : cell.parent with
  | none =>
    rw [stays (above ▸ nofun)]
    rfl
  | some parent =>
    simp only
    rw [Arena.cell?_modify]
    split
    · rfl
    · rename_i apart
      rw [stays]
      rw [above]
      exact fun same => apart (Option.some.inj same)

/-- Only the document of a root loses its root. -/
theorem Numbered.volumes_detach : (catalog.arena.detach id cell).volumes =
    (catalog.removeSubtree id).documents.map Document.volume := by
  show _ = (catalog.documents.map (pruned id)).map Document.volume
  have rooted : ∀ document ∈ catalog.documents, document.volume.root = some id ↔
      cell.parent = none ∧ document.id = cell.document := by
    intro document member
    rw [numbered.root_iff member]
    constructor
    · rintro ⟨other, known, top, own⟩
      rw [found] at known
      rw [Option.some.inj known]
      exact ⟨top, own.symm⟩
    · exact fun ⟨top, own⟩ => ⟨cell, found, top, own.symm⟩
  rw [List.map_map]
  unfold Arena.detach
  cases above : cell.parent with
  | none =>
    show (catalog.documents.map Document.volume).map _ = _
    rw [List.map_map]
    refine List.map_congr_left fun document member => ?_
    have here := rooted document member
    rw [Function.comp_apply, Function.comp_apply, volume_pruned]
    by_cases own : document.id = cell.document
    · rw [if_pos (here.mpr ⟨above, own⟩)]
      exact if_pos own
    · rw [if_neg fun root => own (here.mp root).2]
      exact if_neg own
  | some parent =>
    refine List.map_congr_left fun document member => ?_
    rw [Function.comp_apply, volume_pruned, if_neg]
    intro root
    rw [((rooted document member).mp root).1] at above
    exact nomatch above

end Removal

/-- **A subtree goes**: its root is taken off, and its slots are emptied. -/
theorem Numbered.arena_removeSubtree {catalog : Catalog} (numbered : catalog.Numbered) {id : NodeId}
    (live : catalog.contains id = true) :
    (catalog.removeSubtree id).arena = catalog.arena.remove id (catalog.subtree id) := by
  rw [← numbered.isSome_cell?] at live
  obtain ⟨cell, found⟩ := Option.isSome_iff_exists.mp live
  have length : (catalog.arena.detach id cell).slots.length = catalog.nextNode := by
    unfold Arena.detach
    rw [← length_slots]
    split
    · exact List.length_modify _ _ _
    · rfl
  have next : (catalog.arena.detach id cell).nextDocument = catalog.nextDocument := by
    unfold Arena.detach
    split <;> rfl
  unfold Arena.remove
  rw [found]
  simp only
  have emptied := Arena.volumes_foldl_vacate (catalog.subtree id) (catalog.arena.detach id cell)
  refine Arena.ext_cells ?_ ?_ ?_ fun other left => ?_
  · rw [emptied.1, numbered.volumes_detach found]
    rfl
  · rw [emptied.2, next]
    rfl
  · rw [length_slots, Arena.length_foldl_vacate, length]
    rfl
  · rw [(numbered_removeSubtree numbered id).cell?_eq_some_iff, mem_cells_removeSubtree,
      Arena.cell?_foldl_vacate, numbered.cell?_detach found]
    constructor
    · rintro ⟨⟨document, member, link, inside, apart, rfl⟩, rfl⟩
      refine (if_neg fun within => apart ?_).trans
        (congrArg (Option.map (Cell.without id)) (numbered.cell?_of_link member inside))
      exact (numbered.mem_subtree_of_link member inside).mp within
    · intro held
      split at held
      · exact nomatch held
      · rename_i outside
        obtain ⟨before, there, rfl⟩ := Option.map_eq_some_iff.mp held
        obtain ⟨document, member, link, inside, rfl, rfl⟩ := exists_link there
        refine ⟨⟨document, member, link, inside, fun through => outside ?_, rfl⟩, rfl⟩
        exact (numbered.mem_subtree_of_link member inside).mpr through

/-! ### A tree comes in -/

/-- The slots of a catalog with a planted tree: the old ones, each changed in what it lists, and
those of the tree behind them. -/
theorem cell?_planted {before after : Catalog} (earlier : before.Numbered) (later : after.Numbered)
    {draft : Tree Draft} {document : DocumentId} {upper : Option NodeId} {change : Cell → Cell}
    (keeps : ∀ cell, (change cell).node = cell.node)
    (cells : ∀ cell, cell ∈ after.cells ↔ (∃ old ∈ before.cells, cell = change old) ∨
      cell ∈ (Tree.planted before.nextNode draft).slotsBelow document upper) (id : NodeId) :
    after.arena.cell? id = if id.number < before.nextNode then (before.arena.cell? id).map change
      else ((Tree.planted before.nextNode draft).slotsBelow document upper)[
        id.number - before.nextNode]? := by
  have old : ∀ {cell}, cell ∈ before.cells → cell.node.id.number < before.nextNode := by
    intro cell member
    rw [← length_slots]
    exact Arena.lt_of_cell? (earlier.cell?_eq_some_iff.mpr ⟨member, rfl⟩)
  have new : ∀ {cell},
      cell ∈ (Tree.planted before.nextNode draft).slotsBelow document upper →
        before.nextNode ≤ cell.node.id.number := by
    intro cell member
    obtain ⟨index, found⟩ := List.mem_iff_getElem?.mp member
    rw [(Tree.getElem?_slotsBelow.mp found).2]
    exact Nat.le_add_right _ _
  refine Option.ext fun cell => ?_
  rw [later.cell?_eq_some_iff, cells]
  split
  · rename_i low
    rw [Option.map_eq_some_iff]
    constructor
    · rintro ⟨⟨held, member, rfl⟩ | member, rfl⟩
      · rw [keeps]
        exact ⟨held, earlier.cell?_eq_some_iff.mpr ⟨member, rfl⟩, rfl⟩
      · exact absurd low (Nat.not_lt.mpr (new member))
    · rintro ⟨held, found, rfl⟩
      obtain ⟨member, rfl⟩ := earlier.cell?_eq_some_iff.mp found
      exact ⟨Or.inl ⟨held, member, rfl⟩, congrArg Node.id (keeps held)⟩
  · rename_i high
    have high : before.nextNode ≤ id.number := Nat.le_of_not_lt high
    rw [Tree.getElem?_slotsBelow, Nat.add_sub_cancel' high]
    refine ⟨?_, fun ⟨member, own⟩ => ⟨Or.inr member, own⟩⟩
    rintro ⟨⟨held, member, rfl⟩ | member, own⟩
    · rw [keeps] at own
      exact absurd (own ▸ old member) (Nat.not_lt.mpr high)
    · exact ⟨member, own⟩

theorem Numbered.no_volume {catalog : Catalog} (numbered : catalog.Numbered) :
    ∀ volume ∈ catalog.documents.map Document.volume, volume.id ≠ ⟨catalog.nextDocument⟩ := by
  intro volume member same
  obtain ⟨document, inside, rfl⟩ := List.mem_map.mp member
  have low : document.id.number < catalog.nextDocument := numbered.documentsBelow document inside
  rw [show document.id = _ from same] at low
  exact Nat.lt_irrefl _ low

theorem Numbered.kindOf_addVolume {catalog : Catalog} (numbered : catalog.Numbered) (uri : String)
    (layer : Layer) (tag : String) : (catalog.arena.addVolume uri layer).kindOf
      ⟨catalog.nextDocument⟩ none tag = .ofRoot layer tag := by
  have absent : (catalog.documents.map Document.volume).find?
      (fun volume => decide (volume.id = ⟨catalog.nextDocument⟩)) = none :=
    List.find?_eq_none.mpr fun volume member own =>
      numbered.no_volume volume member (of_decide_eq_true own)
  unfold Arena.kindOf Arena.addVolume
  simp only [Option.bind_none]
  show Kind.ofRoot ((((catalog.documents.map Document.volume ++ _).find? _).map Volume.layer).getD _)
    tag = _
  rw [List.find?_append, absent, Option.none_or, List.find?_cons]
  simp only [arena, decide_true, Option.map_some, Option.getD_some]

/-- **A document comes in**: its tree is built, and then the document is told of its root. -/
theorem Numbered.arena_addDocument {catalog : Catalog} (numbered : catalog.Numbered) (uri : String)
    (layer : Layer) (root : Element) :
    (catalog.addDocument uri layer root).1.arena = catalog.arena.load uri layer root := by
  have grown := grown_addDocument catalog uri layer root
  have planted : (catalog.addDocument uri layer root).1.cells = catalog.cells ++
      (Tree.planted catalog.nextNode (draft none (.ofRoot layer root.label.tag) root)).slotsBelow
        ⟨catalog.nextDocument⟩ none := by
    unfold cells addDocument
    simp only
    rw [List.flatMap_append, List.flatMap_cons, List.flatMap_nil, List.append_nil]
    rfl
  have slots := @cell?_planted _ _ numbered (grown.numbered_after numbered)
    (draft none (.ofRoot layer root.label.tag) root) ⟨catalog.nextDocument⟩ none id (fun _ => rfl)
    fun cell => by
      rw [planted, List.mem_append]
      simp
  have room : (catalog.arena.addVolume uri layer).slots.length = catalog.nextNode :=
    length_slots catalog
  have built := Arena.build_eq ⟨catalog.nextDocument⟩ root (catalog.arena.addVolume uri layer) none
    fun _ same => nomatch same
  rw [room, numbered.kindOf_addVolume] at built
  show _ = Arena.setRoot (Arena.build ⟨catalog.nextDocument⟩ none _ root).1 ⟨catalog.nextDocument⟩
    (some (Arena.build ⟨catalog.nextDocument⟩ none _ root).2)
  rw [built]
  refine Arena.ext_cells ?_ rfl ?_ fun id cell => ?_
  · show (catalog.documents ++ [_]).map Document.volume =
      (catalog.documents.map Document.volume ++ [_]).map _
    rw [List.map_append, List.map_append]
    congr 1
    · refine (List.map_congr_left fun volume member => ?_).trans (List.map_id _) |>.symm
      exact if_neg (numbered.no_volume volume member)
    · rw [List.map_singleton, List.map_singleton]
      refine congrArg List.singleton ((if_pos rfl).trans ?_).symm
      unfold Document.volume
      rw [Option.map_some, show (catalog.plant _).label.id = _ from Tree.id_label_planted _ _]
      rfl
  · show _ = (Arena.extend _ _).slots.length
    rw [length_slots, Arena.length_extend, Tree.length_slotsBelow]
    exact grown.nextNode.trans (congrArg (· + _) (length_slots catalog).symm)
  · show _ ↔ (Arena.extend _ _).cell? id = some cell
    rw [slots, Option.map_id, Arena.cell?_extend, room]
    rfl

section Insertion

variable {catalog : Catalog} (numbered : catalog.Numbered) {site : Site}
  (member : site ∈ catalog.sites)

include numbered member

/-- The kind of the node above a place is in its slot. -/
theorem Numbered.kind?_above : catalog.arena.kind? (site.ancestors.head?.map Node.id) =
    site.ancestors.head?.map Node.kind := by
  cases above : site.ancestors with
  | nil => rfl
  | cons parent upper =>
    have row := row_of_above (row_mem_rows member) above
    have there : (catalog.arena.cell? parent.id).isSome := by
      rw [numbered.isSome_cell?]
      exact contains_iff.mpr ⟨_, row, rfl⟩
    obtain ⟨cell, found⟩ := Option.isSome_iff_exists.mp there
    have own := numbered.node?_of_cell found
    rw [show catalog.node? parent.id = some parent from numbered.node?_of_mem row] at own
    unfold Arena.kind?
    rw [List.head?_cons, Option.map_some, Option.map_some, Option.bind_some, found, Option.map_some,
      ← Option.some.inj own]

/-- The kind of what is inserted is read off the slots of the parent and of the node above it. -/
theorem Numbered.kindOf_site (document : DocumentId) (tag : String) :
    catalog.arena.kindOf document (some site.id) tag =
      site.node.kind.ofNested (site.ancestors.head?.map Node.kind) tag := by
  unfold Arena.kindOf
  rw [Option.bind_some, numbered.cell?_of_site member]
  simp only
  rw [show site.cell.parent = site.ancestors.head?.map Node.id from rfl, numbered.kind?_above member]
  rfl

/-- The place of a node is in one document only. -/
theorem Numbered.document_of_link {document : Document} (inside : document ∈ catalog.documents)
    {link : Tree.Link Node} (within : link ∈ document.links) (same : link.label.id = site.id) :
    document.id = site.document.id := by
  have found := numbered.cell?_of_link inside within
  rw [same, numbered.cell?_of_site member] at found
  exact congrArg Cell.document (Option.some.inj found).symm

/-- The slots after an insertion: the parent lists the new root, and a tree is planted. -/
theorem Numbered.mem_cells_insertUnder (index : Option Nat) (element : Element) {cell : Cell} :
    cell ∈ (catalog.insertUnder site index element).1.cells ↔
      (∃ old ∈ catalog.cells, cell =
        if old.node.id = site.id then old.adopt index ⟨catalog.nextNode⟩ else old) ∨
      cell ∈ (Tree.planted catalog.nextNode (draft (some site.node.kind)
        (site.node.kind.ofNested (site.ancestors.head?.map Node.kind) element.label.tag)
          element)).slotsBelow site.document.id (some site.id) := by
  generalize planted : draft (some site.node.kind) (site.node.kind.ofNested
    (site.ancestors.head?.map Node.kind) element.label.tag) element = form
  rw [mem_cells]
  constructor
  · rintro ⟨_, inside, link, within, rfl⟩
    obtain ⟨document, before, rfl⟩ := List.mem_map.mp inside
    rw [show catalog.plant _ = Tree.planted catalog.nextNode form from planted ▸ rfl] at within
    rcases document.mem_links_insertAt.mp within with
      ⟨old, known, rfl⟩ | ⟨upper, known, same, lower, new, rfl⟩
    · refine Or.inl ⟨_, mem_cells.mpr ⟨document, before, old, known, rfl⟩, ?_⟩
      rw [Cell.ofLink_grown, Tree.id_label_planted]
      rfl
    · have same := of_decide_eq_true same
      refine Or.inr (List.mem_map.mpr ⟨lower, new, ?_⟩)
      rw [Cell.ofLink_below, same, numbered.document_of_link member before known same]
  · rintro (⟨old, known, rfl⟩ | new)
    · obtain ⟨document, before, link, within, rfl⟩ := mem_cells.mp known
      refine ⟨_, List.mem_map_of_mem before, _, document.mem_links_insertAt.mpr
        (Or.inl ⟨link, within, rfl⟩), ?_⟩
      rw [Cell.ofLink_grown, show (catalog.plant _).label.id = _ from Tree.id_label_planted _ _]
      rfl
    · obtain ⟨lower, inside, rfl⟩ := List.mem_map.mp new
      obtain ⟨document, before, upper, within, same, _⟩ :=
        exists_link (numbered.cell?_of_site member)
      refine ⟨_, List.mem_map_of_mem before, lower.below upper.toLine.whole, ?_, ?_⟩
      · rw [show catalog.plant _ = Tree.planted catalog.nextNode form from planted ▸ rfl]
        exact document.mem_links_insertAt.mpr
          (Or.inr ⟨upper, within, decide_eq_true same, lower, inside, rfl⟩)
      · rw [Cell.ofLink_below, same, numbered.document_of_link member before within same]

/-- **An element comes in**: it is built below the parent, which is then told of it. -/
theorem Numbered.arena_insertUnder (index : Option Nat) (element : Element) :
    (catalog.insertUnder site index element).1.arena =
      catalog.arena.insert site.id index element := by
  have grown := grown_insertUnder numbered member index element
  have parent := numbered.cell?_of_site member
  have low := Arena.lt_of_cell? parent
  have slots := @cell?_planted _ _ numbered (grown.numbered_after numbered) _ site.document.id
    (some site.id) _ (fun cell => by split <;> rfl) fun cell =>
      numbered.mem_cells_insertUnder member index element
  have built := Arena.build_eq site.document.id element catalog.arena (some site.id)
    fun _ same => Option.some.inj same ▸ low
  rw [length_slots, numbered.kindOf_site member] at built
  have above : catalog.arena.kind? (some site.id) = some site.node.kind := by
    unfold Arena.kind?
    rw [Option.bind_some, parent]
    rfl
  rw [above] at built
  unfold Arena.insert
  rw [parent]
  show _ = (Arena.build site.document.id (some site.id) catalog.arena element).1.attach site.id index
    (Arena.build site.document.id (some site.id) catalog.arena element).2
  rw [built]
  refine Arena.ext_cells ?_ rfl ?_ fun id cell => ?_
  · show (catalog.documents.map _).map Document.volume = catalog.documents.map Document.volume
    rw [List.map_map]
    refine List.map_congr_left fun document _ => ?_
    unfold Document.volume
    rw [Function.comp_apply, Option.map_map]
    congr 2
    exact funext fun tree => congrArg Node.id (Tree.label_insertAt _ index _ tree)
  · show _ = (List.modify _ _ _).length
    rw [length_slots, List.length_modify, Arena.length_extend, Tree.length_slotsBelow, length_slots]
    exact grown.nextNode
  · unfold Arena.attach
    rw [slots, Arena.cell?_modify, Arena.cell?_extend, length_slots]
    rw [length_slots] at low
    by_cases same : id = site.id
    · subst same
      rw [if_pos rfl, if_pos low, if_pos low, parent, Option.map_some, Option.map_some]
      exact iff_of_eq (congrArg (some · = some cell) (if_pos rfl))
    · rw [if_neg same]
      cases found : catalog.arena.cell? id with
      | none => rfl
      | some old =>
        have own : old.node.id = id := (numbered.cell?_eq_some_iff.mp found).2
        simp only [Option.map_some, own, if_neg same]

end Insertion

/-! ### A document goes -/

theorem arena_dropDocument (catalog : Catalog) (id : DocumentId)
    (hollow : ∀ document ∈ catalog.documents, document.id = id → document.root = none) :
    (catalog.dropDocument id).arena = catalog.arena.dropDocument id := by
  have cells : (catalog.dropDocument id).cells = catalog.cells := by
    unfold cells dropDocument
    simp only
    revert hollow
    induction catalog.documents with
    | nil => exact fun _ => rfl
    | cons document documents ih =>
      intro hollow
      have later := ih fun other member => hollow other (List.mem_cons_of_mem _ member)
      rw [List.filter_cons, List.flatMap_cons]
      split
      · rw [List.flatMap_cons, later]
      · rename_i gone
        have same : document.id = id := by simpa using gone
        have none : document.links = [] := by
          unfold Document.links
          rw [hollow document List.mem_cons_self same]
          rfl
        rw [none, later]
        rfl
  refine Arena.ext_cells ?_ rfl ?_ fun other cell => ?_
  · show (catalog.documents.filter _).map Document.volume =
      (catalog.documents.map Document.volume).filter _
    rw [List.filter_map]
    rfl
  · rw [length_slots]
    exact (length_slots catalog).symm
  · have same : (catalog.dropDocument id).arena.cell? other = catalog.arena.cell? other := by
      rw [cell?_arena, cell?_arena, cells]
      rfl
    rw [same]
    rfl

end Catalog

end EntityModel
