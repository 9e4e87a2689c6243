import Mathlib.Data.Fin.VecNotation
import Mathlib.Data.List.FinRange
import EntityModel.Proofs.Catalog.Loads
import EntityModel.Proofs.Workspace.Grouping

/-
**The order in which documents are loaded.**

Where no two nodes of a family of documents declare the same, every order of loading and every
grouping of the loads into commits leads to the same nodes with the same names and targets, each
identified by its document and its path in it.

* `Workspace.ofGroups` — documents are loaded in groups, with a commit after each group.
* `written_ofGroups`, `settled_ofGroups` — what is written then, and that all else follows from it.
* `declaring_le_one` — no symbol is declared twice in the end if none is in the documents.
* `peers_of_permuted` — documents in another order are the same elements under other numbers.
* `Rearranged` — two workspaces tell the same of the documents of a family; `exists_rearranged`.
* `rearranged_after` — **the order of the documents and the grouping of the loads do not matter.**
-/

namespace EntityModel

/-- The edit that loads the document. -/
def WrittenDocument.loading (document : WrittenDocument) : Change :=
  .load document.uri document.layer document.root

namespace Workspace

/-- A new workspace after the documents are loaded in this order, with a commit after each group. -/
def ofGroups (options : Options) (groups : List (List WrittenDocument)) : Workspace :=
  (ofOptions options).after (grouped (groups.map (List.map WrittenDocument.loading)))

section Groups

variable {options : Options} (groups : List (List WrittenDocument))

/-- What is written in the end does not depend on the commits in between. -/
theorem written_ofGroups :
    (ofGroups options groups).catalog.written = Catalog.ofDocuments groups.flatten := by
  have start : Holds .empty (ofOptions options) := ⟨rfl, rfl, rfl⟩
  have held := (Holds.grouped (groups.map (List.map WrittenDocument.loading))
    (coherent_ofOptions options) start).written
  rw [← List.map_flatten, List.foldl_map] at held
  exact held

theorem settled_ofGroups (rebinds : options.rebindWaiting = true) :
    (ofGroups options groups).Tended ∧ (ofGroups options groups).Settled ∧
      (ofGroups options groups).options = options := by
  have plain := @plain_of_grouped (groups.map (List.map WrittenDocument.loading))
  have tended := tended_after rebinds plain
  have closed := (coherent_ofOptions options).closed_grouped
    (groups.map (List.map WrittenDocument.loading)) rfl
  exact ⟨tended, tended.current.settled tended.coherent tended.rebinds closed, options_after plain⟩

end Groups

/-! ### Symbols -/

/-- Where all that is declared is declared once, a symbol has at most one node. -/
theorem declaring_le_one {workspace : Workspace} (settled : workspace.Settled)
    (distinct : (workspace.catalog.written.rows.filterMap Row.declares?).Nodup) (symbol : Symbol) :
    (workspace.catalog.declaring symbol).length ≤ 1 := by
  have declared : workspace.catalog.rows.filterMap (fun row => row.node.declared?) =
      workspace.catalog.written.rows.filterMap Row.declares? := by
    rw [Catalog.rows_written, List.filterMap_map]
    refine List.filterMap_congr fun row member => ?_
    rw [settled.declared? member]
    exact (declares?_frame id row).symm
  have once := List.nodup_iff_count_le_one.mp distinct symbol
  rw [← declared, List.count_filterMap, List.countP_eq_length_filter] at once
  refine le_of_eq_of_le (congrArg List.length (List.filter_congr fun row _ => ?_)) once
  rw [Bool.eq_iff_iff, decide_eq_true_eq, beq_iff_eq]

end Workspace

/-! ### Families of documents -/

namespace Catalog

/-- The rows of documents that are loaded and not read, document by document. -/
theorem rows_ofDocuments {n : Nat} (family : Fin n → WrittenDocument) :
    (ofDocuments (List.ofFn family)).rows = (List.ofFn fun rank : Fin n =>
      ((family rank).placed rank (firstNumber (List.ofFn family) rank)).rows).flatten := by
  rw [rows, documents_ofDocuments, List.flatMap_def]
  congr 1
  refine List.ext_getElem ?_ fun rank _ _ => ?_
  · simp only [List.length_map, List.length_mapIdx, List.length_ofFn]
  · simp only [List.getElem_map, List.getElem_mapIdx, List.getElem_ofFn]

theorem document_ofDocuments {n : Nat} (family : Fin n → WrittenDocument) (rank : Fin n) :
    (ofDocuments (List.ofFn family)).documents[(rank : Nat)]? =
      some ((family rank).placed rank (firstNumber (List.ofFn family) rank)) := by
  rw [documents_ofDocuments, List.getElem?_mapIdx, List.getElem?_ofFn, dif_pos rank.isLt]
  rfl

/-- The symbols that are declared are those of the documents. -/
theorem declares_ofDocuments {n : Nat} (family : Fin n → WrittenDocument) :
    (ofDocuments (List.ofFn family)).rows.filterMap Row.declares? =
      (List.ofFn family).flatMap WrittenDocument.symbols := by
  rw [rows_ofDocuments, List.filterMap_flatten, List.map_ofFn, List.flatMap_def, List.map_ofFn]
  congr 2
  funext rank
  exact (family rank).declares_placed _ _

end Catalog

namespace Workspace

/-- A document of the family stands at its rank, with all that is known of its nodes. -/
theorem exists_tree_of_written {workspace : Workspace} {n : Nat} {family : Fin n → WrittenDocument}
    (written : workspace.catalog.written = Catalog.ofDocuments (List.ofFn family)) (rank : Fin n) :
    ∃ tree, workspace.catalog.documents[(rank : Nat)]? =
        some ⟨⟨rank⟩, (family rank).uri, (family rank).layer, some tree⟩ ∧
      tree.map Node.written =
        (family rank).tree (Catalog.firstNumber (List.ofFn family) rank) := by
  have held : (workspace.catalog.documents.map Document.written)[(rank : Nat)]? =
      (Catalog.ofDocuments (List.ofFn family)).documents[(rank : Nat)]? :=
    congrArg (fun catalog => catalog.documents[(rank : Nat)]?) written
  rw [Catalog.document_ofDocuments, List.getElem?_map] at held
  obtain ⟨⟨id, uri, layer, root⟩, found, same⟩ := Option.map_eq_some_iff.mp held
  obtain ⟨rfl, rfl, rfl, trees⟩ := (Document.mk.injEq ..).mp same
  obtain ⟨tree, rfl, bare⟩ := Option.map_eq_some_iff.mp trees
  exact ⟨tree, found, bare⟩

theorem length_of_written {workspace : Workspace} {n : Nat} {family : Fin n → WrittenDocument}
    (written : workspace.catalog.written = Catalog.ofDocuments (List.ofFn family)) :
    workspace.catalog.documents.length = n := by
  have lengths := congrArg (fun catalog => catalog.documents.length) written
  simp only [Catalog.documents_ofDocuments, List.length_mapIdx, List.length_ofFn] at lengths
  rw [← lengths]
  exact (List.length_map Document.written).symm

section Permuted

variable {n : Nat} {family others : Fin n → WrittenDocument} {place : Equiv.Perm (Fin n)}
  {rename : NodeId → NodeId} {first second : Workspace}
  (written : first.catalog.written = Catalog.ofDocuments (List.ofFn family))
  (twinWritten : second.catalog.written = Catalog.ofDocuments (List.ofFn others))
  (placed : ∀ rank, others (place rank) = family rank)
  (moves : ∀ rank : Fin n, ∀ offset < (family rank).form.size,
    rename ⟨Catalog.firstNumber (List.ofFn family) rank + offset⟩ =
      ⟨Catalog.firstNumber (List.ofFn others) (place rank) + offset⟩)

include written twinWritten placed moves

/-- **Documents in another order are the same elements** under other numbers. -/
theorem peers_of_permuted (options : second.options = first.options) :
    first.Peers rename second := by
  refine ⟨?_, options⟩
  have frames : first.catalog.rows.map (Row.map (Node.frame rename)) =
      first.catalog.written.rows.map (Row.map (Node.frame rename)) := by
    rw [Catalog.rows_written, List.map_map]
    refine List.map_congr_left fun row _ => ?_
    rw [Function.comp_apply, Row.map_map]
    rfl
  have each : (List.map (Row.map (Node.frame rename)) ∘ fun rank : Fin n =>
        ((family rank).placed rank (Catalog.firstNumber (List.ofFn family) rank)).rows) =
      (fun rank : Fin n => ((others rank).placed rank
        (Catalog.firstNumber (List.ofFn others) rank)).rows) ∘ place := by
    funext rank
    rw [Function.comp_apply, Function.comp_apply, placed]
    exact ((family rank).rows_shift (moves rank) rank (place rank)).symm
  show (second.catalog.rows.map (Row.map Node.written)).Perm _
  rw [← Catalog.rows_written, twinWritten, frames, written, Catalog.rows_ofDocuments,
    Catalog.rows_ofDocuments, List.map_flatten, List.map_ofFn, each]
  exact (place.ofFn_comp_perm _).symm.flatten

/-- **Each document has the same tree** at its two ranks, where nodes under renamed numbers are the
same. -/
theorem trees_of_permuted (numbered : first.catalog.Numbered) (twinNumbered : second.catalog.Numbered)
    (known : ∀ id node, first.catalog.node? id = some node →
      second.catalog.node? (rename id) = some (node.renumber rename)) (rank : Fin n) :
    ∃ tree : Tree Node, tree.map Node.toDraft = (family rank).form ∧
      first.catalog.documents[(rank : Nat)]? =
        some ⟨⟨rank⟩, (family rank).uri, (family rank).layer, some tree⟩ ∧
      second.catalog.documents[(place rank : Nat)]? =
        some ⟨⟨place rank⟩, (family rank).uri, (family rank).layer,
          some (tree.map (Node.renumber rename))⟩ := by
  obtain ⟨tree, here, bare⟩ := exists_tree_of_written written rank
  obtain ⟨twin, there, twinBare⟩ := exists_tree_of_written twinWritten (place rank)
  rw [placed] at there twinBare
  have shifted : twin.map Node.written = (tree.map Node.written).map (Node.frame rename) := by
    rw [twinBare, bare, (family rank).tree_shift (moves rank)]
  have same : twin = tree.map (Node.renumber rename) := by
    rw [← Catalog.fill_tree twinNumbered (List.mem_of_getElem? there) rfl, shifted, Tree.map_map,
      Tree.map_map]
    refine Tree.map_congr tree fun node inside => ?_
    have found := known node.id node
      (Catalog.node?_of_label numbered (List.mem_of_getElem? here) rfl inside)
    show (second.catalog.node? (rename node.id)).getD _ = _
    rw [found]
    rfl
  refine ⟨tree, ?_, here, same ▸ there⟩
  have drafts := congrArg (Tree.map Node.toDraft) bare
  rw [Tree.map_map, WrittenDocument.toDraft_tree] at drafts
  exact drafts

end Permuted

/-- The workspaces tell the same of the documents of a family, of which the first has loaded them in
one order and the second in another. -/
structure Rearranged {n : Nat} (documents : Fin n → WrittenDocument) (order other : Equiv.Perm (Fin n))
    (rename : NodeId → NodeId) (first second : Workspace) : Prop where
  /-- There are no other documents. -/
  lengths : first.catalog.documents.length = n ∧ second.catalog.documents.length = n
  /-- The same path leads to the same node of the same document, with all that is known of it. -/
  trees : ∀ index, ∃ tree : Tree Node, tree.map Node.toDraft = (documents index).form ∧
    first.catalog.documents[(order.symm index : Nat)]? =
      some ⟨⟨order.symm index⟩, (documents index).uri, (documents index).layer, some tree⟩ ∧
    second.catalog.documents[(other.symm index : Nat)]? =
      some ⟨⟨other.symm index⟩, (documents index).uri, (documents index).layer,
        some (tree.map (Node.renumber rename))⟩
  lookup : ∀ symbol, second.catalog.lookup symbol = (first.catalog.lookup symbol).map rename
  /-- Slot by slot, the texts, the symbols, the reasons and the numbers of candidates are the same. -/
  references : ∀ id reference, first.reference? id = some reference →
    ∃ twin, second.reference? ⟨rename id.owner, id.role⟩ = some twin ∧
      twin.status = reference.status ∧ twin.slots = reference.slots.map (Slot.renumber rename)

/-- Settled workspaces in which the same documents are written tell the same, if no symbol is declared
twice. -/
theorem exists_rearranged {n : Nat} {documents : Fin n → WrittenDocument}
    (distinct : ((List.ofFn documents).flatMap WrittenDocument.symbols).Nodup)
    {order other : Equiv.Perm (Fin n)} {first second : Workspace} (settled : first.Settled)
    (resettled : second.Settled) (sound : first.Sound) (resound : second.Sound)
    (options : second.options = first.options)
    (written : first.catalog.written = Catalog.ofDocuments (List.ofFn (documents ∘ order)))
    (rewritten : second.catalog.written = Catalog.ofDocuments (List.ofFn (documents ∘ other))) :
    ∃ rename : NodeId → NodeId, Rearranged documents order other rename first second := by
  let place : Equiv.Perm (Fin n) := order.trans other.symm
  have placed : ∀ rank, (documents ∘ other) (place rank) = (documents ∘ order) rank :=
    fun rank => congrArg documents (other.apply_symm_apply (order rank))
  obtain ⟨rename, moves⟩ := Catalog.exists_renumbering (documents ∘ order) fun rank =>
    Catalog.firstNumber (List.ofFn (documents ∘ other)) (place rank)
  have peers := peers_of_permuted written rewritten placed moves options
  have once : (first.catalog.written.rows.filterMap Row.declares?).Nodup := by
    rw [written, Catalog.declares_ofDocuments]
    exact ((order.ofFn_comp_perm documents).flatMap_right _).nodup_iff.mpr distinct
  have declares : ∀ symbol, second.catalog.declaring symbol =
      (first.catalog.declaring symbol).map (Row.map (partner rename second)) :=
    fun symbol => peers.declares_of_unique settled resettled resound.numbered
      (declaring_le_one settled once symbol)
  refine ⟨rename, ⟨length_of_written written, length_of_written rewritten⟩, ?_, ?_, ?_⟩
  · intro index
    have trees := trees_of_permuted written rewritten placed moves sound.numbered resound.numbered
      (fun id node => peers.node?_of_first settled resettled sound resound declares)
      (order.symm index)
    have back : order (order.symm index) = index := order.apply_symm_apply index
    simp only [Function.comp_apply, back, place, Equiv.trans_apply] at trees
    exact trees
  · exact fun symbol => peers.lookup sound resound declares symbol
  · intro id reference held
    exact ⟨_, peers.reference?_of_first settled resettled sound resound declares held,
      reference.status_renumber rename, reference.slots_renumber rename⟩

end Workspace

/-- **Load order does not matter.** Documents in which no two nodes declare the same can be loaded in
any two orders and with commits anywhere in between: in the end each path in each document leads to
the same node with the same names, and every reference has the same slots with the same targets. -/
theorem rearranged_after {options : Options} (rebinds : options.rebindWaiting = true) {n : Nat}
    {documents : Fin n → WrittenDocument}
    (distinct : ((List.ofFn documents).flatMap WrittenDocument.symbols).Nodup)
    (order other : Equiv.Perm (Fin n)) {groups others : List (List WrittenDocument)}
    (grouping : groups.flatten = List.ofFn (documents ∘ order))
    (regrouping : others.flatten = List.ofFn (documents ∘ other)) :
    ∃ rename : NodeId → NodeId, Workspace.Rearranged documents order other rename
      (Workspace.ofGroups options groups) (Workspace.ofGroups options others) := by
  obtain ⟨tended, settled, sameOptions⟩ := Workspace.settled_ofGroups groups rebinds
  obtain ⟨later, resettled, otherOptions⟩ := Workspace.settled_ofGroups others rebinds
  refine Workspace.exists_rearranged distinct settled resettled tended.coherent.toSound
    later.coherent.toSound (otherOptions.trans sameOptions.symm) ?_ ?_
  · rw [Workspace.written_ofGroups, grouping]
  · rw [Workspace.written_ofGroups, regrouping]

/-- A schema with an association from orders to customers. -/
def salesSchema : WrittenDocument :=
  ⟨"sales.csdl", .conceptual,
    .node { Head.ofTag "Schema" with attributes := .ofList [("Namespace", "Sales")] }
      [.node { Head.ofTag "EntityType" with attributes := .ofList [("Name", "Customer")] }
        [.node { Head.ofTag "Property" with attributes := .ofList [("Name", "Id")] } []],
        .node { Head.ofTag "Association" with attributes := .ofList [("Name", "Orders")] }
          [.node { Head.ofTag "End" with
            attributes := .ofList [("Role", "Buyer"), ("Type", "Sales.Customer")] } []]]⟩

/-- A mapping of the association: the symbol of its row is known by the end of the association. -/
def salesMapping : WrittenDocument :=
  ⟨"sales.msl", .mapping,
    .node (.ofTag "Mapping")
      [.node (.ofTag "EntityContainerMapping")
        [.node { Head.ofTag "AssociationSetMapping" with
            attributes := .ofList [("TypeName", "Sales.Orders")] }
          [.node { Head.ofTag "EndProperty" with attributes := .ofList [("Name", "Buyer")] }
            [.node { Head.ofTag "ScalarProperty" with
              attributes := .ofList [("Name", "Id")] } []]]]]⟩

/-- Loaded first, the mapping finds nothing until the schema is there. -/
theorem rearranged_sales : ∃ rename : NodeId → NodeId,
    Workspace.Rearranged ![salesSchema, salesMapping] (Equiv.refl _) (Equiv.swap 0 1) rename
      (Workspace.ofGroups .standard [[salesSchema, salesMapping]])
      (Workspace.ofGroups .standard [[salesMapping], [], [salesSchema]]) :=
  @rearranged_after .standard rfl 2 ![salesSchema, salesMapping] (by decide +kernel) (Equiv.refl _)
    (Equiv.swap 0 1) [[salesSchema, salesMapping]] [[salesMapping], [], [salesSchema]] rfl rfl

end EntityModel
