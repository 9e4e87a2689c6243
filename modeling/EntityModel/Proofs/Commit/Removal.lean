import EntityModel.Proofs.Workspace.Lifecycle
import EntityModel.Workspace.Commit

/-
**The first part of a commit: nodes leave.**

* `Withdrawn`, `Dropped` — what the two loops over the nodes of a removed tree do: the nodes give up
  symbols and references, then nothing rests on them any more.
* `Removal` — the state of the pass after some trees are gone: the workspace is sound, only the rows
  through their roots are missing, and the dependencies of a reference have changed only if its owner
  is queued.
* `Removal.deleteTrees`, `Removal.dropDocuments` — the whole part.
-/

namespace EntityModel

namespace Pass

/-! ### Nodes give up symbols and references -/

/-- The nodes have withdrawn their symbols and references, and nothing else has changed. -/
structure Withdrawn (nodes : List Node) (before after : Pass) : Prop where
  reworked : Catalog.Reworked id before.workspace.catalog after.workspace.catalog
  symbols : ∀ {symbol id}, (symbol, id) ∈ after.workspace.catalog.symbols ↔
    (symbol, id) ∈ before.workspace.catalog.symbols ∧ id ∉ nodes.map Node.id
  ledger : after.workspace.ledger =
    (nodes.flatMap Node.referenceIds).foldl Ledger.forget before.workspace.ledger
  touched : ∀ {symbol}, symbol ∈ after.touched ↔
    symbol ∈ before.touched ∨ ∃ node ∈ nodes, node.declared? = some symbol
  queue : after.queue = before.queue
  options : after.workspace.options = before.workspace.options
  transaction : after.workspace.transaction = before.workspace.transaction

theorem mem_touch {pass : Pass} {symbols : List Symbol} {symbol : Symbol} :
    symbol ∈ (pass.touch symbols).touched ↔
      symbol ∈ pass.touched ∨ (symbol ∈ symbols ∧ symbol.isEmpty = false) := by
  unfold touch
  rw [OrderedSet.mem_insertAll, List.mem_filter, Bool.not_eq_true']

theorem mem_declared_toList {node : Node} {symbol : Symbol} :
    symbol ∈ node.symbol.toList ∧ symbol.isEmpty = false ↔ node.declared? = some symbol := by
  rw [Node.declared?_eq_some_iff, Option.mem_toList]

theorem withdrawn_foldl (nodes : List Node) : ∀ pass : Pass,
    (∀ node ∈ nodes, ∀ symbol, (symbol, node.id) ∈ pass.workspace.catalog.symbols →
      node.symbol = some symbol) →
    Withdrawn nodes pass (nodes.foldl withdrawNode pass) := by
  induction nodes with
  | nil =>
    exact fun pass _ => ⟨Catalog.Reworked.refl _, by simp, rfl, by simp, rfl, rfl, rfl⟩
  | cons node nodes ih =>
    intro pass only
    have index : ∀ {symbol id},
        (symbol, id) ∈ (pass.withdrawNode node).workspace.catalog.symbols ↔
          (symbol, id) ∈ pass.workspace.catalog.symbols ∧ id ≠ node.id :=
      Catalog.mem_withdrawSymbol (only node List.mem_cons_self)
    have rest := ih (pass.withdrawNode node) fun other member symbol inside =>
      only other (List.mem_cons_of_mem _ member) symbol (index.mp inside).1
    refine ⟨?_, ?_, ?_, ?_, rest.queue, rest.options, rest.transaction⟩
    · exact (Catalog.reworked_withdrawSymbol pass.workspace.catalog node).trans rest.reworked
    · intro symbol id
      rw [List.foldl_cons, rest.symbols, index, List.map_cons, List.mem_cons, not_or, and_assoc]
    · rw [List.foldl_cons, rest.ledger, List.flatMap_cons, List.foldl_append]
      rfl
    · intro symbol
      rw [List.foldl_cons, rest.touched]
      have first : symbol ∈ (pass.withdrawNode node).touched ↔
          symbol ∈ pass.touched ∨ node.declared? = some symbol :=
        mem_touch.trans (or_congr_right mem_declared_toList)
      rw [first, or_assoc, List.exists_mem_cons_iff]

/-! ### Nothing rests on the nodes any more -/

/-- The references that rested on the nodes are queued and rest on them no more. -/
structure Dropped (nodes : List Node) (before after : Pass) : Prop where
  catalog : after.workspace.catalog = before.workspace.catalog
  indexed : after.workspace.ledger.Indexed
  queued : ∀ {id}, id ∈ before.queue → id ∈ after.queue
  kept : ∀ {id : ReferenceId}, id.owner ∉ after.queue →
    after.workspace.ledger.dependencies id = before.workspace.ledger.dependencies id
  noneKept : ∀ {id}, before.workspace.ledger.dependencies id = .none →
    after.workspace.ledger.dependencies id = .none
  keys : ∀ {id node}, node ∈ (after.workspace.ledger.dependencies id).targets ∨
      node ∈ (after.workspace.ledger.dependencies id).context →
    (node ∈ (before.workspace.ledger.dependencies id).targets ∨
      node ∈ (before.workspace.ledger.dependencies id).context) ∧ node ∉ nodes.map Node.id
  touched : after.touched = before.touched
  options : after.workspace.options = before.workspace.options
  transaction : after.workspace.transaction = before.workspace.transaction

theorem erase_of_not_mem {α : Type} [DecidableEq α] {set : OrderedSet α} {item : α}
    (absent : item ∉ set) : set.erase item = set := by
  refine OrderedSet.ext_items (List.filter_eq_self.mpr fun member inside => ?_)
  refine decide_eq_true fun same => ?_
  exact absent (same ▸ inside)

theorem withoutNode_of_not_mem {dependencies : Dependencies} {node : NodeId}
    (targets : node ∉ dependencies.targets) (context : node ∉ dependencies.context) :
    dependencies.withoutNode node = dependencies := by
  unfold Dependencies.withoutNode
  rw [erase_of_not_mem targets, erase_of_not_mem context]

theorem dropped_foldl (nodes : List Node) : ∀ pass : Pass, pass.workspace.ledger.Indexed →
    Dropped nodes pass (nodes.foldl dropNode pass) := by
  induction nodes with
  | nil =>
    exact fun pass indexed => ⟨rfl, indexed, fun inside => inside, fun _ => rfl, fun same => same,
      fun depends => ⟨depends, List.not_mem_nil⟩, rfl, rfl, rfl⟩
  | cons node nodes ih =>
    intro pass indexed
    have rest := ih (pass.dropNode node) (indexed.dropNode node.id)
    have dependencies : ∀ id, (pass.dropNode node).workspace.ledger.dependencies id =
        (pass.workspace.ledger.dependencies id).withoutNode node.id :=
      Ledger.dependencies_dropNode pass.workspace.ledger node.id
    have queue : ∀ {id}, id ∈ (pass.dropNode node).queue ↔ id ∈ pass.queue ∨
        id ∈ (pass.workspace.ledger.dependents node.id).map ReferenceId.owner :=
      OrderedSet.mem_insertAll
    refine ⟨rest.catalog, rest.indexed, ?_, ?_, ?_, ?_, rest.touched, rest.options,
      rest.transaction⟩
    · exact fun inside => rest.queued (queue.mpr (Or.inl inside))
    · intro id apart
      rw [List.foldl_cons, rest.kept apart, dependencies]
      have unqueued : id ∉ pass.workspace.ledger.dependents node.id := fun depends =>
        apart (rest.queued (queue.mpr (Or.inr (List.mem_map_of_mem depends))))
      rw [Ledger.mem_dependents indexed, not_or] at unqueued
      exact withoutNode_of_not_mem unqueued.1 unqueued.2
    · intro id same
      refine rest.noneKept ?_
      rw [dependencies, same]
      rfl
    · intro id other depends
      obtain ⟨before, apart⟩ := rest.keys depends
      rw [dependencies] at before
      have split : (other ∈ (pass.workspace.ledger.dependencies id).targets ∨
          other ∈ (pass.workspace.ledger.dependencies id).context) ∧ other ≠ node.id := by
        rcases before with target | context
        · obtain ⟨inside, different⟩ := OrderedSet.mem_erase.mp target
          exact ⟨Or.inl inside, different⟩
        · obtain ⟨inside, different⟩ := OrderedSet.mem_erase.mp context
          exact ⟨Or.inr inside, different⟩
      refine ⟨split.1, ?_⟩
      rw [List.map_cons, List.mem_cons, not_or]
      exact ⟨split.2, apart⟩

end Pass

/-! ### Whole trees -/

/-- Whether the line of the row passes one of the nodes. -/
def Row.passes (roots : List NodeId) (row : Row) : Bool :=
  roots.any fun root => decide (root ∈ row.line)

theorem Row.passes_iff {roots : List NodeId} {row : Row} :
    row.passes roots = true ↔ ∃ root ∈ roots, root ∈ row.line := by
  simp [passes]

theorem Row.passes_append (roots : List NodeId) (root : NodeId) (row : Row) :
    row.passes (roots ++ [root]) = (row.passes roots || decide (root ∈ row.line)) := by
  simp [passes]

namespace Catalog

theorem Numbered.of_rows {before after : Catalog} (numbered : before.Numbered)
    (rows : after.rows.Sublist before.rows) (nextNode : after.nextNode = before.nextNode)
    (documents : (after.documents.map Document.id).Sublist (before.documents.map Document.id))
    (nextDocument : after.nextDocument = before.nextDocument) : after.Numbered := by
  refine ⟨numbered.unique.sublist (rows.map Row.id), ?_, numbered.documentsUnique.sublist documents,
    ?_⟩
  · intro row member
    rw [nextNode]
    exact numbered.below row (rows.subset member)
  · intro document member
    rw [nextDocument]
    obtain ⟨other, inside, same⟩ := List.mem_map.mp (documents.subset (List.mem_map_of_mem member))
    rw [← same]
    exact numbered.documentsBelow other inside

theorem numbered_removeSubtree {catalog : Catalog} (numbered : catalog.Numbered) (root : NodeId) :
    (catalog.removeSubtree root).Numbered := by
  have ids : (catalog.removeSubtree root).documents.map Document.id =
      catalog.documents.map Document.id := by
    unfold removeSubtree mapDocuments
    rw [List.map_map]
    rfl
  refine numbered.of_rows ?_ rfl (ids ▸ List.Sublist.refl _) rfl
  rw [rows_removeSubtree]
  exact List.filter_sublist

/-- A document keeps its root or loses its tree. -/
theorem heading_removeSubtree {catalog : Catalog} {root : NodeId}
    {heading : DocumentId × Layer × Option NodeId}
    (member : heading ∈ (catalog.removeSubtree root).documents.map Document.heading) :
    ∃ earlier ∈ catalog.documents.map Document.heading, earlier.1 = heading.1 ∧
      ∀ top, heading.2.2 = some top → earlier.2.2 = some top := by
  unfold removeSubtree mapDocuments at member
  rw [List.map_map] at member
  obtain ⟨document, inside, rfl⟩ := List.mem_map.mp member
  refine ⟨document.heading, List.mem_map_of_mem inside, rfl, fun top kept => ?_⟩
  unfold Document.heading at kept ⊢
  rw [Function.comp_apply] at kept
  obtain ⟨pruned, found, rfl⟩ := Option.map_eq_some_iff.mp kept
  obtain ⟨tree, rooted, left⟩ := Option.bind_eq_some_iff.mp found
  rw [rooted]
  rcases tree with ⟨label, children⟩
  rw [Tree.prune_node] at left
  split at left
  · exact nomatch left
  · obtain rfl := Option.some.inj left
    rfl

section Subtree

variable {catalog : Catalog} (numbered : catalog.Numbered) {site : Site}
  (member : site ∈ catalog.sites)

include numbered member

theorem Numbered.row_of_subtree {node : Node} (inside : node ∈ site.subtree) :
    ∃ row ∈ catalog.rows, row.node = node ∧ site.id ∈ row.line := by
  rw [numbered.subtree_site member] at inside
  obtain ⟨row, through, rfl⟩ := List.mem_map.mp inside
  obtain ⟨live, passes⟩ := List.mem_filter.mp through
  exact ⟨row, live, rfl, of_decide_eq_true passes⟩

theorem Numbered.node_mem_subtree {row : Row} (live : row ∈ catalog.rows)
    (through : site.id ∈ row.line) : row.node ∈ site.subtree := by
  rw [numbered.subtree_site member]
  exact List.mem_map.mpr ⟨row, List.mem_filter.mpr ⟨live, decide_eq_true through⟩, rfl⟩

theorem Numbered.id_mem_subtree {row : Row} (live : row ∈ catalog.rows) :
    row.id ∈ site.subtree.map Node.id ↔ site.id ∈ row.line := by
  constructor
  · intro listed
    obtain ⟨node, inside, same⟩ := List.mem_map.mp listed
    obtain ⟨other, found, rfl, passes⟩ := numbered.row_of_subtree member inside
    rw [← numbered.eq_of_id found live same]
    exact passes
  · exact fun through => List.mem_map_of_mem (numbered.node_mem_subtree member live through)

end Subtree

end Catalog

/-- The pass with the tree below a node cut out of its catalog. -/
def Pass.cut (pass : Pass) (root : NodeId) : Pass :=
  { pass with workspace :=
      { pass.workspace with catalog := pass.workspace.catalog.removeSubtree root } }

/-- The tree at the root, if there is one, has left the catalog and the ledger. -/
structure TreeGone (root : NodeId) (before after : Pass) : Prop where
  rows : after.workspace.catalog.rows =
    before.workspace.catalog.rows.filter fun row => decide (root ∉ row.line)
  numbered : after.workspace.catalog.Numbered
  headings : ∀ heading ∈ after.workspace.catalog.documents.map Document.heading,
    ∃ earlier ∈ before.workspace.catalog.documents.map Document.heading, earlier.1 = heading.1 ∧
      ∀ top, heading.2.2 = some top → earlier.2.2 = some top
  symbols : ∀ {symbol id}, (symbol, id) ∈ after.workspace.catalog.symbols ↔
    (symbol, id) ∈ before.workspace.catalog.symbols ∧ after.workspace.catalog.contains id = true
  indexed : after.workspace.ledger.Indexed
  owners : ∀ {id}, after.workspace.ledger.dependencies id ≠ .none →
    after.workspace.catalog.contains id.owner = true
  keys : ∀ {id node}, node ∈ (after.workspace.ledger.dependencies id).targets ∨
    node ∈ (after.workspace.ledger.dependencies id).context →
      after.workspace.catalog.contains node = true
  /-- Only queued owners have lost dependencies. -/
  kept : ∀ {id : ReferenceId}, after.workspace.catalog.contains id.owner = true →
    id.owner ∉ after.queue →
      after.workspace.ledger.dependencies id = before.workspace.ledger.dependencies id
  noneKept : ∀ {id}, before.workspace.ledger.dependencies id = .none →
    after.workspace.ledger.dependencies id = .none
  queued : ∀ {id}, id ∈ before.queue → id ∈ after.queue
  noted : ∀ {symbol}, symbol ∈ before.touched → symbol ∈ after.touched
  touched : ∀ row ∈ before.workspace.catalog.rows, root ∈ row.line → ∀ symbol,
    row.node.declared? = some symbol → symbol ∈ after.touched
  options : after.workspace.options = before.workspace.options
  transaction : after.workspace.transaction = before.workspace.transaction

/-- A root that is not there takes nothing with it. -/
theorem treeGone_refl {pass : Pass} (sound : pass.workspace.Sound) {root : NodeId}
    (absent : pass.workspace.catalog.node? root = none) : TreeGone root pass pass := by
  have apart : ∀ row ∈ pass.workspace.catalog.rows, root ∉ row.line := by
    intro row member through
    rw [Row.line_eq] at through
    obtain ⟨node, inside, rfl⟩ := List.mem_map.mp through
    rw [sound.numbered.node?_of_mem_line member inside] at absent
    exact nomatch absent
  refine ⟨?_, sound.numbered, fun heading member => ⟨heading, member, rfl, fun _ same => same⟩, ?_,
    sound.indexed, sound.contains_owner, sound.keys, fun _ _ => rfl, fun same => same,
    fun inside => inside, fun inside => inside, ?_, rfl, rfl⟩
  · exact (List.filter_eq_self.mpr fun row member => decide_eq_true (apart row member)).symm
  · exact fun {symbol id} =>
      ⟨fun related => ⟨related, sound.contains_of_symbol related⟩, And.left⟩
  · exact fun row member through => absurd through (apart row member)

section Tree

variable {pass : Pass} (sound : pass.workspace.Sound) {site : Site}
  (member : site ∈ pass.workspace.catalog.sites)

include sound member

/-- The nodes of the tree withdraw the symbols and the references they have in the workspace the
tree has been cut out of. -/
theorem withdrawn_subtree :
    Pass.Withdrawn site.subtree (pass.cut site.id)
      (site.subtree.foldl Pass.withdrawNode (pass.cut site.id)) := by
  refine Pass.withdrawn_foldl site.subtree _ fun node inside symbol related => ?_
  obtain ⟨row, live, rfl, _⟩ := sound.numbered.row_of_subtree member inside
  have declares := (sound.exact symbol row.id).mp related
  rw [sound.numbered.node?_of_mem live] at declares
  exact (Node.declared?_eq_some_iff.mp declares).1

section Leaving

variable {withdrawn after : Pass}
  (withdrew : Pass.Withdrawn site.subtree (pass.cut site.id) withdrawn)
  (dropped : Pass.Dropped site.subtree withdrawn after)

omit sound member in
include withdrew dropped in
theorem rows_leaving : after.workspace.catalog.rows =
    pass.workspace.catalog.rows.filter fun row => decide (site.id ∉ row.line) := by
  rw [dropped.catalog, withdrew.reworked.rows_of_id]
  exact Catalog.rows_removeSubtree pass.workspace.catalog site.id

include withdrew dropped in
/-- What is left is what was there and is not in the tree. -/
theorem contains_leaving {id : NodeId} : after.workspace.catalog.contains id = true ↔
    pass.workspace.catalog.contains id = true ∧ id ∉ site.subtree.map Node.id := by
  have numbered := sound.numbered
  rw [Catalog.contains_iff, Catalog.contains_iff, rows_leaving withdrew dropped]
  constructor
  · rintro ⟨row, inside, rfl⟩
    obtain ⟨before, apart⟩ := List.mem_filter.mp inside
    refine ⟨⟨row, before, rfl⟩, fun gone => ?_⟩
    exact of_decide_eq_true apart ((numbered.id_mem_subtree member before).mp gone)
  · rintro ⟨⟨row, before, rfl⟩, apart⟩
    refine ⟨row, List.mem_filter.mpr ⟨before, decide_eq_true fun through => ?_⟩, rfl⟩
    exact apart ((numbered.id_mem_subtree member before).mpr through)

omit sound member in
include withdrew in
theorem dependencies_withdrawn (id : ReferenceId) :
    withdrawn.workspace.ledger.dependencies id =
      if id ∈ site.subtree.flatMap Node.referenceIds then .none
      else pass.workspace.ledger.dependencies id := by
  rw [withdrew.ledger]
  exact Ledger.dependencies_forgetAll _ _ id

include withdrew dropped in
/-- A reference that still depends on something belongs to a node that stays. -/
theorem owner_leaving {id : ReferenceId}
    (recorded : after.workspace.ledger.dependencies id ≠ .none) :
    after.workspace.catalog.contains id.owner = true := by
  have numbered := sound.numbered
  have remained : withdrawn.workspace.ledger.dependencies id ≠ .none := fun same =>
    recorded (dropped.noneKept same)
  rw [dependencies_withdrawn withdrew] at remained
  have stays : id ∉ site.subtree.flatMap Node.referenceIds := fun gone =>
    remained (if_pos gone)
  rw [if_neg stays] at remained
  obtain ⟨reference, found⟩ := Option.isSome_iff_exists.mp (sound.owners id remained)
  obtain ⟨node, held, named⟩ := Option.bind_eq_some_iff.mp found
  obtain ⟨row, inside, rfl, owner⟩ := numbered.node?_eq_some_iff.mp held
  refine (contains_leaving sound member withdrew dropped).mpr
    ⟨Catalog.contains_iff.mpr ⟨row, inside, owner⟩, fun through => stays ?_⟩
  · rw [← owner] at through
    have passes := (numbered.id_mem_subtree member inside).mp through
    refine List.mem_flatMap.mpr ⟨row.node, numbered.node_mem_subtree member inside passes, ?_⟩
    refine Node.mem_referenceIds.mpr ⟨owner.symm, ?_⟩
    rw [named]
    rfl

include withdrew dropped in
/-- A node that something still rests on stays. -/
theorem key_leaving {id : ReferenceId} {node : NodeId}
    (depends : node ∈ (after.workspace.ledger.dependencies id).targets ∨
      node ∈ (after.workspace.ledger.dependencies id).context) :
    after.workspace.catalog.contains node = true := by
  obtain ⟨before, apart⟩ := dropped.keys depends
  refine (contains_leaving sound member withdrew dropped).mpr ⟨?_, apart⟩
  rw [dependencies_withdrawn withdrew] at before
  by_cases gone : id ∈ site.subtree.flatMap Node.referenceIds
  · rw [if_pos gone] at before
    exact before.elim (fun inside => absurd inside List.not_mem_nil)
      fun inside => absurd inside List.not_mem_nil
  · rw [if_neg gone] at before
    exact sound.keys before

include withdrew dropped in
/-- The index keeps the symbols of the nodes that stay. -/
theorem symbols_leaving {symbol : Symbol} {id : NodeId} :
    (symbol, id) ∈ after.workspace.catalog.symbols ↔
      (symbol, id) ∈ pass.workspace.catalog.symbols ∧
        after.workspace.catalog.contains id = true := by
  rw [contains_leaving sound member withdrew dropped, dropped.catalog, withdrew.symbols]
  refine and_congr_right fun related => (and_iff_right ?_).symm
  exact sound.contains_of_symbol related

end Leaving

/-- A root that is there takes its tree with it. -/
theorem treeGone_site : TreeGone site.id pass
    (site.subtree.foldl Pass.dropNode
      (site.subtree.foldl Pass.withdrawNode (pass.cut site.id))) := by
  have withdrew := withdrawn_subtree sound member
  generalize site.subtree.foldl Pass.withdrawNode _ = withdrawn at withdrew ⊢
  have dropped : Pass.Dropped site.subtree withdrawn (site.subtree.foldl Pass.dropNode withdrawn) := by
    refine Pass.dropped_foldl site.subtree withdrawn ?_
    rw [withdrew.ledger]
    exact sound.indexed.forgetAll _
  generalize site.subtree.foldl Pass.dropNode withdrawn = after at dropped ⊢
  refine ⟨rows_leaving withdrew dropped, ?_, ?_, symbols_leaving sound member withdrew dropped,
    dropped.indexed, owner_leaving sound member withdrew dropped,
    key_leaving sound member withdrew dropped, ?_, ?_, ?_, ?_, ?_, ?_, ?_⟩
  · rw [dropped.catalog]
    exact withdrew.reworked.numbered (fun _ => rfl)
      (Catalog.numbered_removeSubtree sound.numbered site.id)
  · intro heading listed
    rw [dropped.catalog, withdrew.reworked.headings] at listed
    exact Catalog.heading_removeSubtree listed
  · intro id found unqueued
    rw [dropped.kept unqueued, dependencies_withdrawn withdrew, if_neg]
    intro gone
    obtain ⟨node, inside, owned⟩ := List.mem_flatMap.mp gone
    have stays := ((contains_leaving sound member withdrew dropped).mp found).2
    exact stays ((Node.mem_referenceIds.mp owned).1 ▸ List.mem_map_of_mem inside)
  · intro id same
    refine dropped.noneKept ?_
    rw [dependencies_withdrawn withdrew, same]
    split
    · rfl
    · rfl
  · intro id queued
    refine dropped.queued ?_
    rw [withdrew.queue]
    exact queued
  · intro symbol noted
    rw [dropped.touched, withdrew.touched]
    exact Or.inl noted
  · intro row inside through symbol declares
    rw [dropped.touched, withdrew.touched]
    exact Or.inr ⟨row.node, sound.numbered.node_mem_subtree member inside through, declares⟩
  · rw [dropped.options, withdrew.options]
    rfl
  · rw [dropped.transaction, withdrew.transaction]
    rfl

end Tree

theorem treeGone_deleteTree {pass : Pass} (sound : pass.workspace.Sound) (root : NodeId) :
    TreeGone root pass (pass.deleteTree root) := by
  unfold Pass.deleteTree
  cases located : pass.workspace.catalog.site? root with
  | none =>
    refine treeGone_refl sound ?_
    rw [Catalog.node?, located]
    rfl
  | some site =>
    obtain ⟨member, rfl⟩ := Catalog.mem_sites_of_site? located
    exact treeGone_site sound member

namespace TreeGone

variable {root : NodeId} {before after : Pass} (gone : TreeGone root before after)

include gone

theorem mem_rows {row : Row} : row ∈ after.workspace.catalog.rows ↔
    row ∈ before.workspace.catalog.rows ∧ root ∉ row.line := by
  rw [gone.rows, List.mem_filter, decide_eq_true_eq]

theorem contains_before {id : NodeId} (found : after.workspace.catalog.contains id = true) :
    before.workspace.catalog.contains id = true := by
  obtain ⟨row, member, same⟩ := Catalog.contains_iff.mp found
  exact Catalog.contains_iff.mpr ⟨row, (gone.mem_rows.mp member).1, same⟩

/-- A node that stays is the same node. -/
theorem node?_eq (numbered : before.workspace.catalog.Numbered) {id : NodeId}
    (found : after.workspace.catalog.contains id = true) :
    after.workspace.catalog.node? id = before.workspace.catalog.node? id := by
  obtain ⟨row, member, rfl⟩ := Catalog.contains_iff.mp found
  rw [gone.numbered.node?_of_mem member, numbered.node?_of_mem (gone.mem_rows.mp member).1]

theorem sound (sound : before.workspace.Sound) : after.workspace.Sound := by
  refine ⟨gone.numbered, ?_, gone.indexed, ?_, ?_, gone.keys⟩
  · intro symbol id
    rw [gone.symbols, sound.exact]
    cases found : after.workspace.catalog.contains id with
    | true =>
      rw [gone.node?_eq sound.numbered found]
      exact and_iff_left rfl
    | false =>
      have absent : after.workspace.catalog.node? id = none := by
        rw [Catalog.node?, Option.map_eq_none_iff, ← Option.not_isSome_iff_eq_none]
        exact Bool.eq_false_iff.mp found
      rw [absent]
      simp
  · intro row member
    exact sound.roles row (gone.mem_rows.mp member).1
  · intro id recorded
    unfold Workspace.reference?
    rw [gone.node?_eq sound.numbered (gone.owners recorded)]
    exact sound.owners id fun same => recorded (gone.noneKept same)

end TreeGone

/-- The state of the pass after the trees at the roots `done` are gone. -/
structure Removal (start : Workspace) (done : List NodeId) (pass : Pass) : Prop where
  sound : pass.workspace.Sound
  rows : pass.workspace.catalog.rows = start.catalog.rows.filter fun row => !row.passes done
  headings : ∀ heading ∈ pass.workspace.catalog.documents.map Document.heading,
    ∃ earlier ∈ start.catalog.documents.map Document.heading, earlier.1 = heading.1 ∧
      ∀ top, heading.2.2 = some top → earlier.2.2 = some top
  /-- Only queued owners have lost dependencies. -/
  kept : ∀ {id : ReferenceId}, pass.workspace.catalog.contains id.owner = true →
    id.owner ∉ pass.queue →
      pass.workspace.ledger.dependencies id = start.ledger.dependencies id
  noneKept : ∀ {id}, start.ledger.dependencies id = .none →
    pass.workspace.ledger.dependencies id = .none
  /-- The symbols of the nodes that are gone are noted. -/
  touched : ∀ row ∈ start.catalog.rows, row.passes done = true → ∀ symbol,
    row.node.declared? = some symbol → symbol ∈ pass.touched
  options : pass.workspace.options = start.options
  transaction : pass.workspace.transaction = start.transaction

theorem removal_start {start : Workspace} (sound : start.Sound) :
    Removal start [] (.start start) := by
  refine ⟨sound, ?_, fun heading member => ⟨heading, member, rfl, fun _ same => same⟩,
    fun _ _ => rfl, fun same => same, ?_, rfl, rfl⟩
  · exact (List.filter_eq_self.mpr fun _ _ => rfl).symm
  · exact fun row _ through => nomatch through

namespace Removal

variable {start : Workspace} {done : List NodeId} {pass : Pass} (removal : Removal start done pass)

include removal

theorem mem_rows {row : Row} : row ∈ pass.workspace.catalog.rows ↔
    row ∈ start.catalog.rows ∧ row.passes done = false := by
  rw [removal.rows, List.mem_filter, Bool.not_eq_true']

/-- One more tree is gone. -/
theorem step {root : NodeId} {after : Pass} (gone : TreeGone root pass after) :
    Removal start (done ++ [root]) after := by
  refine ⟨gone.sound removal.sound, ?_, ?_, ?_, fun same => gone.noneKept (removal.noneKept same), ?_,
    gone.options.trans removal.options, gone.transaction.trans removal.transaction⟩
  · rw [gone.rows, removal.rows, List.filter_filter]
    refine List.filter_congr fun row _ => ?_
    rw [Row.passes_append, Bool.not_or, Bool.and_comm, decide_not]
  · intro heading listed
    obtain ⟨earlier, before, number, kept⟩ := gone.headings heading listed
    obtain ⟨first, atStart, same, rooted⟩ := removal.headings earlier before
    exact ⟨first, atStart, same.trans number, fun top found => rooted top (kept top found)⟩
  · intro id found unqueued
    rw [gone.kept found unqueued]
    exact removal.kept (gone.contains_before found) fun queued => unqueued (gone.queued queued)
  · intro row inside through symbol declares
    cases earlier : row.passes done with
    | true => exact gone.noted (removal.touched row inside earlier symbol declares)
    | false =>
      rw [Row.passes_append, earlier, Bool.false_or, decide_eq_true_eq] at through
      exact gone.touched row (removal.mem_rows.mpr ⟨inside, earlier⟩) through symbol declares

theorem deleteTree (root : NodeId) : Removal start (done ++ [root]) (pass.deleteTree root) :=
  removal.step (treeGone_deleteTree removal.sound root)

omit removal in
theorem deleteTrees (roots : List NodeId) : ∀ {done : List NodeId} {pass : Pass},
    Removal start done pass → Removal start (done ++ roots) (roots.foldl Pass.deleteTree pass) := by
  induction roots with
  | nil =>
    intro done pass removal
    rw [List.append_nil]
    exact removal
  | cons root roots ih =>
    intro done pass removal
    rw [List.foldl_cons, ← List.singleton_append, ← List.append_assoc]
    exact ih (removal.deleteTree root)

end Removal

/-! ### Empty documents -/

namespace Catalog

theorem documents_dropDocuments (ids : List DocumentId) : ∀ catalog : Catalog,
    (ids.foldl dropDocument catalog).documents =
        catalog.documents.filter (fun document => decide (document.id ∉ ids)) ∧
      (ids.foldl dropDocument catalog).symbols = catalog.symbols ∧
      (ids.foldl dropDocument catalog).nextNode = catalog.nextNode ∧
      (ids.foldl dropDocument catalog).nextDocument = catalog.nextDocument := by
  induction ids with
  | nil =>
    refine fun catalog => ⟨?_, rfl, rfl, rfl⟩
    exact (List.filter_eq_self.mpr fun _ _ => decide_eq_true List.not_mem_nil).symm
  | cons id ids ih =>
    intro catalog
    obtain ⟨documents, others⟩ := ih (catalog.dropDocument id)
    refine ⟨?_, others⟩
    rw [List.foldl_cons, documents]
    unfold dropDocument
    rw [List.filter_filter]
    refine List.filter_congr fun document _ => ?_
    simp [Bool.and_comm]

/-- Documents without rows may go. -/
theorem rows_dropDocuments {catalog : Catalog} {ids : List DocumentId}
    (hollow : ∀ document ∈ catalog.documents, document.id ∈ ids → document.rows = []) :
    (ids.foldl dropDocument catalog).rows = catalog.rows := by
  unfold rows
  rw [(documents_dropDocuments ids catalog).1]
  generalize catalog.documents = documents at hollow ⊢
  induction documents with
  | nil => rfl
  | cons document documents ih =>
    have rest := ih fun other member => hollow other (List.mem_cons_of_mem _ member)
    by_cases goes : document.id ∈ ids
    · rw [List.filter_cons_of_neg (by simp [goes]), List.flatMap_cons,
        hollow document List.mem_cons_self goes, List.nil_append, rest]
    · rw [List.filter_cons_of_pos (by simp [goes]), List.flatMap_cons, List.flatMap_cons, rest]

end Catalog

/-- Soundness is about rows, index and ledger. -/
theorem Workspace.Sound.of_rows {before after : Workspace} (sound : before.Sound)
    (numbered : after.catalog.Numbered) (rows : after.catalog.rows = before.catalog.rows)
    (symbols : after.catalog.symbols = before.catalog.symbols)
    (ledger : after.ledger = before.ledger) : after.Sound := by
  have row? : ∀ id, after.catalog.row? id = before.catalog.row? id := by
    intro id
    rw [Catalog.row?, rows, Catalog.row?]
  have node? : ∀ id, after.catalog.node? id = before.catalog.node? id := by
    intro id
    rw [Catalog.node?_eq, Catalog.node?_eq, row?]
  refine ⟨numbered, ?_, ?_, ?_, ?_, ?_⟩
  · intro symbol id
    rw [symbols, node?]
    exact sound.exact symbol id
  · rw [ledger]
    exact sound.indexed
  · rw [rows]
    exact sound.roles
  · intro id recorded
    rw [ledger] at recorded
    unfold Workspace.reference?
    rw [node?]
    exact sound.owners id recorded
  · intro id node depends
    rw [ledger] at depends
    rw [Catalog.contains_iff, rows, ← Catalog.contains_iff]
    exact sound.keys depends

namespace Removal

variable {start : Workspace} {done : List NodeId} {pass : Pass} (removal : Removal start done pass)

include removal

theorem dropDocuments {ids : List DocumentId}
    (hollow : ∀ document ∈ pass.workspace.catalog.documents, document.id ∈ ids →
      document.rows = []) : Removal start done (pass.dropDocuments ids) := by
  have rows : (pass.dropDocuments ids).workspace.catalog.rows = pass.workspace.catalog.rows :=
    Catalog.rows_dropDocuments hollow
  obtain ⟨documents, symbols, nextNode, nextDocument⟩ :=
    Catalog.documents_dropDocuments ids pass.workspace.catalog
  have fewer : ((pass.dropDocuments ids).workspace.catalog.documents).Sublist
      pass.workspace.catalog.documents := by
    show (ids.foldl Catalog.dropDocument pass.workspace.catalog).documents.Sublist _
    rw [documents]
    exact List.filter_sublist
  have numbered : (pass.dropDocuments ids).workspace.catalog.Numbered :=
    removal.sound.numbered.of_rows (rows ▸ List.Sublist.refl _) nextNode
      (fewer.map Document.id) nextDocument
  refine ⟨removal.sound.of_rows numbered rows symbols rfl, ?_, ?_, ?_, removal.noneKept,
    removal.touched, removal.options, removal.transaction⟩
  · rw [rows]
    exact removal.rows
  · intro heading listed
    exact removal.headings heading ((fewer.map Document.heading).subset listed)
  · intro id found
    refine removal.kept ?_
    rw [Catalog.contains_iff, ← rows, ← Catalog.contains_iff]
    exact found

end Removal

/-- A document whose root is gone has no rows left. -/
theorem Removal.hollow {start : Workspace} {done : List NodeId} {pass : Pass}
    (removal : Removal start done pass) {ids : List DocumentId}
    (rooted : ∀ heading ∈ start.catalog.documents.map Document.heading, heading.1 ∈ ids →
      ∀ root, heading.2.2 = some root → root ∈ done) :
    ∀ document ∈ pass.workspace.catalog.documents, document.id ∈ ids → document.rows = [] := by
  intro document member listed
  unfold Document.rows
  cases root : document.root with
  | none => rfl
  | some tree =>
    obtain ⟨earlier, before, number, kept⟩ :=
      removal.headings document.heading (List.mem_map_of_mem member)
    have top : document.heading.2.2 = some tree.label.id := by
      unfold Document.heading
      rw [root]
      rfl
    have gone := rooted earlier before (number ▸ listed) _ (kept _ top)
    obtain ⟨rest, lines⟩ := Tree.lines_eq_cons tree
    have row : Row.ofLine document.layer ⟨[], tree.label⟩ ∈ pass.workspace.catalog.rows := by
      refine List.mem_flatMap.mpr ⟨document, member, ?_⟩
      unfold Document.rows
      rw [root, Tree.linesOf, Option.elim_some, lines]
      exact List.mem_cons_self
    have apart := (removal.mem_rows.mp row).2
    have through : Row.passes done (Row.ofLine document.layer ⟨[], tree.label⟩) = true :=
      Row.passes_iff.mpr ⟨_, gone, List.mem_cons_self⟩
    rw [apart] at through
    exact absurd through Bool.false_ne_true

end EntityModel
