import EntityModel.Proofs.Catalog.Changes
import EntityModel.Proofs.Resolution.Congruence
import EntityModel.Proofs.Tree.Numbering

/-
**New trees in a catalog.**

Loading a document and inserting an element do the same to the rows: those that were there stay in
their order, and the rows of the planted tree come in between.

* `Catalog.Grown` — one catalog is another with a draft planted in it.
* `grown_addDocument`, `grown_insertUnder` — the two ways.
* `Grown.filter_old`, `Grown.fresh` — the old rows are told from the new ones by their numbers; the
  new ones are drafts below the new root.
* `Grown.declaring`, `Grown.evaluate` — nothing that is looked up or evaluated changes.
-/

namespace EntityModel

namespace Catalog

/-! ### Planting -/

theorem size_plant (catalog : Catalog) (draft : Tree Draft) :
    (catalog.plant draft).size = draft.size := by
  have shape := congrArg Tree.size (Tree.map_snd_number catalog.nextNode draft)
  rw [← shape, plant, ← Tree.length_labels, ← Tree.length_labels, Tree.labels_map, Tree.labels_map,
    List.length_map, List.length_map]

theorem ids_plant (catalog : Catalog) (draft : Tree Draft) :
    (catalog.plant draft).labels.map Node.id =
      (List.range' catalog.nextNode draft.size).map NodeId.mk := by
  rw [plant, Tree.labels_map, List.map_map, ← Tree.fst_labels_number, List.map_map]
  rfl

theorem mem_labels_plant {catalog : Catalog} {draft : Tree Draft} {node : Node}
    (member : node ∈ (catalog.plant draft).labels) :
    ∃ number form, node = .ofDraft number form ∧ catalog.nextNode ≤ number ∧
      number < catalog.nextNode + draft.size := by
  have listed : node.id ∈ (List.range' catalog.nextNode draft.size).map NodeId.mk := by
    rw [← ids_plant]
    exact List.mem_map_of_mem member
  rw [plant, Tree.labels_map] at member
  obtain ⟨⟨number, form⟩, _, rfl⟩ := List.mem_map.mp member
  obtain ⟨other, inside, same⟩ := List.mem_map.mp listed
  obtain rfl : other = number := congrArg NodeId.number same
  exact ⟨other, form, rfl, (List.mem_range'_1.mp inside).1, (List.mem_range'_1.mp inside).2⟩

/-- The rows of a tree in a document of the layer, below the nodes `upper`. -/
def rowsBelow (layer : Layer) (upper : List Node) (tree : Tree Node) : List Row :=
  tree.lines.map fun line => Row.ofLine layer (line.below upper)

/-- One catalog is another with the draft planted in it, in a document of the layer and below the
nodes `upper`. -/
structure Grown (draft : Tree Draft) (layer : Layer) (upper : List Node)
    (before after : Catalog) : Prop where
  rows : after.rows.Perm (before.rows ++ rowsBelow layer upper (before.plant draft))
  order : before.rows.Sublist after.rows
  symbols : after.symbols = before.symbols
  nextNode : after.nextNode = before.nextNode + draft.size
  documents :
    (after.documents.map Document.heading = before.documents.map Document.heading ∧
      after.nextDocument = before.nextDocument) ∨
    (after.documents.map Document.heading = before.documents.map Document.heading ++
        [(⟨before.nextDocument⟩, layer, some (before.plant draft).label.id)] ∧
      after.nextDocument = before.nextDocument + 1)

theorem rows_addDocument (catalog : Catalog) (uri : String) (layer : Layer) (root : Element) :
    (catalog.addDocument uri layer root).1.rows = catalog.rows ++
      rowsBelow layer [] (catalog.plant (draft none (.ofRoot layer root.label.tag) root)) := by
  unfold addDocument Catalog.rows
  simp only
  rw [List.flatMap_append, List.flatMap_cons, List.flatMap_nil, List.append_nil]
  congr 1
  unfold rowsBelow
  simp only [Tree.Line.below_nil]
  rfl

theorem grown_addDocument (catalog : Catalog) (uri : String) (layer : Layer) (root : Element) :
    Grown (draft none (.ofRoot layer root.label.tag) root) layer [] catalog
      (catalog.addDocument uri layer root).1 := by
  have rows := rows_addDocument catalog uri layer root
  refine ⟨List.Perm.of_eq rows, rows ▸ List.sublist_append_left _ _, rfl, ?_, Or.inr ⟨?_, rfl⟩⟩
  · rw [← size_plant]
    rfl
  · unfold addDocument
    simp only
    rw [List.map_append]
    rfl

theorem Numbered.filter_id {catalog : Catalog} (numbered : catalog.Numbered) {row : Row}
    (member : row ∈ catalog.rows) :
    catalog.rows.filter (fun other => decide (other.id = row.id)) = [row] := by
  obtain ⟨earlier, later, split⟩ := List.append_of_mem member
  have unique := numbered.unique
  rw [split, List.map_append, List.map_cons] at unique
  obtain ⟨_, behind, apart⟩ := List.nodup_append.mp unique
  rw [split, List.filter_append, List.filter_cons_of_pos (by simp)]
  have before : earlier.filter (fun other => decide (other.id = row.id)) = [] := by
    refine List.filter_eq_nil_iff.mpr fun other inside same => ?_
    exact apart other.id (List.mem_map_of_mem inside) row.id List.mem_cons_self (by simpa using same)
  have after : later.filter (fun other => decide (other.id = row.id)) = [] := by
    refine List.filter_eq_nil_iff.mpr fun other inside same => ?_
    have equal : other.id = row.id := by simpa using same
    exact (List.nodup_cons.mp behind).1 (equal ▸ List.mem_map_of_mem inside)
  rw [before, after, List.nil_append]

/-- Adding a child below a node, seen on the rows of one document. -/
theorem rows_insertAt_perm (document : Document) (parent : NodeId) (index : Option Nat)
    (child : Tree Node) :
    Document.rows { document with
        root := document.root.map (Tree.insertAt (fun node => node.id = parent) index child) } |>.Perm
      (document.rows ++ (document.rows.filter fun row => decide (row.id = parent)).flatMap fun row =>
        rowsBelow row.layer (row.node :: row.above) child) := by
  unfold Document.rows
  cases document.root with
  | none => exact List.Perm.refl _
  | some tree =>
    show ((Tree.insertAt _ index child tree).lines.map (Row.ofLine document.layer)).Perm _
    refine ((Tree.lines_insertAt_perm _ index child tree).map _).trans (List.Perm.of_eq ?_)
    rw [List.map_append, Tree.linesOf, Option.elim_some, List.filter_map, List.flatMap_map,
      List.map_flatMap]
    congr 1
    refine List.flatMap_congr fun line _ => ?_
    unfold Tree.graft rowsBelow
    rw [List.map_map]
    rfl

theorem grown_insertUnder {catalog : Catalog} (numbered : catalog.Numbered) {parent : Site}
    (member : parent ∈ catalog.sites) (index : Option Nat) (element : Element) :
    Grown (draft (some parent.node.kind)
        (parent.node.kind.ofNested (parent.ancestors.head?.map Node.kind) element.label.tag) element)
      parent.document.layer (parent.node :: parent.ancestors) catalog
      (catalog.insertUnder parent index element).1 := by
  have here : parent.row ∈ catalog.rows := row_mem_rows member
  refine ⟨?_, ?_, rfl, ?_, Or.inl ⟨?_, rfl⟩⟩
  · unfold insertUnder mapDocuments Catalog.rows
    simp only
    rw [List.flatMap_map]
    refine (List.Perm.flatMap_left _ fun document _ =>
      rows_insertAt_perm document parent.id index _).trans ?_
    refine (List.flatMap_append_perm _ _ _).symm.trans (List.Perm.append_left _ (List.Perm.of_eq ?_))
    have single := numbered.filter_id here
    unfold Catalog.rows at single
    rw [List.filter_flatMap] at single
    rw [← List.flatMap_assoc, show parent.id = parent.row.id from rfl, single, List.flatMap_cons,
      List.flatMap_nil, List.append_nil]
    rfl
  · unfold insertUnder mapDocuments Catalog.rows
    simp only
    rw [List.flatMap_map]
    induction catalog.documents with
    | nil => exact List.Sublist.refl _
    | cons document documents ih =>
      rw [List.flatMap_cons, List.flatMap_cons]
      refine List.Sublist.append ?_ ih
      unfold Document.rows
      cases document.root with
      | none => exact List.Sublist.refl _
      | some tree => exact (Tree.lines_sublist_insertAt _ index _ tree).map _
  · rw [← size_plant]
    rfl
  · unfold insertUnder mapDocuments
    simp only
    rw [List.map_map]
    refine List.map_congr_left fun document _ => ?_
    unfold Document.heading
    rw [Function.comp_apply, Option.map_map]
    congr 3
    funext tree
    rcases tree with ⟨label, children⟩
    rw [Function.comp_apply, Tree.insertAt_node]
    rfl

/-! ### Old and new rows -/

/-- The rows of a planted tree are drafts below its root, with new numbers. -/
theorem fresh_of_rowsBelow {catalog : Catalog} {draft : Tree Draft} {layer : Layer}
    {upper : List Node} {row : Row}
    (member : row ∈ rowsBelow layer upper (catalog.plant draft)) :
    (∃ number form, row.node = .ofDraft number form) ∧ catalog.nextNode ≤ row.id.number ∧
      row.id.number < catalog.nextNode + draft.size ∧
      (catalog.plant draft).label.id ∈ row.line := by
  obtain ⟨line, inside, rfl⟩ := List.mem_map.mp member
  have label : line.label ∈ (catalog.plant draft).labels := by
    rw [← Tree.map_label_lines]
    exact List.mem_map_of_mem inside
  obtain ⟨number, form, same, low, high⟩ := mem_labels_plant label
  have own : (Row.ofLine layer (line.below upper)).id.number = number := by
    show line.label.id.number = number
    rw [same]
    rfl
  refine ⟨⟨number, form, same⟩, own.symm ▸ low, own.symm ▸ high, ?_⟩
  have top : (catalog.plant draft).label ∈ (line.below upper).whole := by
    rw [Tree.Line.whole_below]
    exact List.mem_append_left _ (Tree.label_mem_whole inside)
  exact List.mem_map_of_mem top

theorem ids_rowsBelow (catalog : Catalog) (draft : Tree Draft) (layer : Layer)
    (upper : List Node) : (rowsBelow layer upper (catalog.plant draft)).map Row.id =
      (List.range' catalog.nextNode draft.size).map NodeId.mk := by
  rw [← ids_plant, ← Tree.map_label_lines, rowsBelow, List.map_map, List.map_map]
  rfl

namespace Grown

variable {draft : Tree Draft} {layer : Layer} {upper : List Node} {before after : Catalog}
  (grown : Grown draft layer upper before after)

include grown

theorem mem_rows {row : Row} : row ∈ after.rows ↔
    row ∈ before.rows ∨ row ∈ rowsBelow layer upper (before.plant draft) := by
  rw [grown.rows.mem_iff, List.mem_append]

/-- The number of documents that are new. -/
theorem documentIds : ∃ count, after.nextDocument = before.nextDocument + count ∧
    after.documents.map Document.id = before.documents.map Document.id ++
      (List.range' before.nextDocument count).map DocumentId.mk := by
  have ids : ∀ catalog : Catalog, catalog.documents.map Document.id =
      (catalog.documents.map Document.heading).map Prod.fst := by
    intro catalog
    rw [List.map_map]
    rfl
  rcases grown.documents with ⟨headings, next⟩ | ⟨headings, next⟩
  · refine ⟨0, next, ?_⟩
    rw [ids, headings, ids, List.range'_zero, List.map_nil, List.append_nil]
  · refine ⟨1, next, ?_⟩
    rw [ids, headings, ids, List.map_append]
    rfl

section Numbered

variable (numbered : before.Numbered)

include numbered

theorem numbered_after : after.Numbered := by
  refine ⟨?_, ?_, ?_, ?_⟩
  · rw [(grown.rows.map Row.id).nodup_iff, List.map_append, ids_rowsBelow, List.nodup_append]
    refine ⟨numbered.unique,
      List.Nodup.map (fun _ _ same => congrArg NodeId.number same) List.nodup_range', ?_⟩
    rintro id old other new rfl
    obtain ⟨row, member, rfl⟩ := List.mem_map.mp old
    obtain ⟨number, inside, same⟩ := List.mem_map.mp new
    have low : row.id.number < before.nextNode := numbered.below row member
    rw [← same] at low
    exact absurd (List.mem_range'_1.mp inside).1 (Nat.not_le.mpr low)
  · intro row member
    rw [grown.nextNode]
    rcases grown.mem_rows.mp member with old | new
    · exact Nat.lt_of_lt_of_le (numbered.below row old) (Nat.le_add_right _ _)
    · exact (fresh_of_rowsBelow new).2.2.1
  · obtain ⟨count, _, ids⟩ := grown.documentIds
    rw [ids, List.nodup_append]
    refine ⟨numbered.documentsUnique,
      List.Nodup.map (fun _ _ same => congrArg DocumentId.number same) List.nodup_range', ?_⟩
    rintro id old other new rfl
    obtain ⟨document, member, rfl⟩ := List.mem_map.mp old
    obtain ⟨number, inside, same⟩ := List.mem_map.mp new
    have low := numbered.documentsBelow document member
    rw [← same] at low
    exact absurd (List.mem_range'_1.mp inside).1 (Nat.not_le.mpr low)
  · intro document member
    obtain ⟨count, next, ids⟩ := grown.documentIds
    have listed : document.id ∈ after.documents.map Document.id := List.mem_map_of_mem member
    rw [ids] at listed
    rw [next]
    rcases List.mem_append.mp listed with old | new
    · obtain ⟨other, inside, same⟩ := List.mem_map.mp old
      rw [← same]
      exact Nat.lt_of_lt_of_le (numbered.documentsBelow other inside) (Nat.le_add_right _ _)
    · obtain ⟨number, inside, same⟩ := List.mem_map.mp new
      rw [← same]
      exact (List.mem_range'_1.mp inside).2

/-- **The old rows are told by their numbers**, and their order is kept. -/
theorem filter_old :
    after.rows.filter (fun row => decide (row.id.number < before.nextNode)) = before.rows := by
  have oldKept : before.rows.filter (fun row => decide (row.id.number < before.nextNode)) =
      before.rows :=
    List.filter_eq_self.mpr fun row member => decide_eq_true (numbered.below row member)
  have newDropped : (rowsBelow layer upper (before.plant draft)).filter
      (fun row => decide (row.id.number < before.nextNode)) = [] := by
    refine List.filter_eq_nil_iff.mpr fun row member low => ?_
    exact absurd (of_decide_eq_true low) (Nat.not_lt.mpr (fresh_of_rowsBelow member).2.1)
  have lengths := (grown.rows.filter
    (fun row => decide (row.id.number < before.nextNode))).length_eq
  rw [List.filter_append, oldKept, newDropped, List.append_nil] at lengths
  have kept := grown.order.filter (fun row => decide (row.id.number < before.nextNode))
  rw [oldKept] at kept
  exact (kept.eq_of_length lengths.symm).symm

theorem row?_of_old {id : NodeId} {row : Row} (found : before.row? id = some row) :
    after.row? id = some row := by
  obtain ⟨member, same⟩ := mem_rows_of_row? found
  exact (grown.numbered_after numbered).row?_eq_some_iff.mpr ⟨grown.mem_rows.mpr (Or.inl member), same⟩

theorem node?_of_old {id : NodeId} {node : Node} (found : before.node? id = some node) :
    after.node? id = some node := by
  rw [node?_eq] at found ⊢
  obtain ⟨row, isRow, rfl⟩ := Option.map_eq_some_iff.mp found
  rw [grown.row?_of_old numbered isRow]
  rfl

theorem contains_of_old {id : NodeId} (found : before.contains id = true) :
    after.contains id = true := by
  rw [contains_eq] at found ⊢
  obtain ⟨row, isRow⟩ := Option.isSome_iff_exists.mp found
  rw [grown.row?_of_old numbered isRow]
  rfl

/-- New nodes declare nothing. -/
theorem declaring (symbol : Symbol) : after.declaring symbol = before.declaring symbol := by
  have old := grown.filter_old numbered
  rw [Catalog.declaring, Catalog.declaring, ← old, List.filter_filter]
  refine List.filter_congr fun row member => ?_
  rcases grown.mem_rows.mp member with before | new
  · rw [decide_eq_true (numbered.below row before), Bool.and_true]
  · obtain ⟨⟨number, form, same⟩, _⟩ := fresh_of_rowsBelow new
    rw [same]
    rfl

theorem symbolsExact (exact : before.SymbolsExact) : after.SymbolsExact := by
  intro symbol id
  rw [grown.symbols, exact]
  constructor
  · intro declares
    obtain ⟨node, found, own⟩ := Option.bind_eq_some_iff.mp declares
    rw [grown.node?_of_old numbered found]
    exact own
  · intro declares
    obtain ⟨node, found, own⟩ := Option.bind_eq_some_iff.mp declares
    obtain ⟨row, member, rfl, rfl⟩ := (grown.numbered_after numbered).node?_eq_some_iff.mp found
    rcases grown.mem_rows.mp member with old | new
    · rw [numbered.node?_of_mem old]
      exact own
    · obtain ⟨⟨number, form, same⟩, _⟩ := fresh_of_rowsBelow new
      rw [same] at own
      exact nomatch own

/-- **New trees change no evaluation** as long as nothing is read of them. -/
theorem evaluate (exact : before.SymbolsExact) {separator : Char} {owner : NodeId}
    {reference : Reference} (live : before.contains owner = true) :
    after.evaluate separator owner reference = before.evaluate separator owner reference := by
  have twin := grown.numbered_after numbered
  have twinExact := grown.symbolsExact numbered exact
  suffices same : after.evaluate separator owner reference =
      (before.evaluate separator owner reference).renumber id by
    rw [same, Resolution.renumber_id]
    rfl
  refine evaluate_congr numbered exact twin twinExact rfl rfl ?_ ?_ ?_
  · rw [contains_eq] at live
    obtain ⟨row, isRow⟩ := Option.isSome_iff_exists.mp live
    rw [grown.row?_of_old numbered isRow, isRow]
  · intro symbol _
    rw [consultEnd_eq numbered exact, consultEnd_eq twin twinExact, end?, end?,
      grown.declaring numbered, NameReading.renumber_id]
    rfl
  · intro slot _ _
    rw [candidates, candidates, grown.declaring numbered]
    have identity : Candidate.renumber id = id := rfl
    rw [identity, List.map_id]

end Numbered

end Grown

end Catalog

end EntityModel
