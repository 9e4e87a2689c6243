import Mathlib.Data.List.Induction
import Mathlib.Data.List.OfFn
import Mathlib.Logic.Function.Basic
import EntityModel.Proofs.Catalog.Classified
import EntityModel.Proofs.Resolution.Afresh

/-
**Documents that are loaded one after the other.**

What a document brings with it does not depend on when it is loaded: its nodes have the same shape and
declare the same, under numbers that follow on those of the documents before it.

* `Catalog.plant_toDraft` — nodes are planted anew under consecutive numbers.
* `WrittenDocument` — a document to be loaded; `WrittenDocument.placed` — the same with its rank and
  its numbers; `WrittenDocument.symbols` — what it declares.
* `tree_shift` — other numbers are the only difference between two times it is loaded.
* `Catalog.ofDocuments` — documents loaded and not read; `documents_ofDocuments` — their ranks and
  numbers.
* `exists_renumbering` — one renaming takes the numbers of all documents in one order to those in
  another.
-/

namespace EntityModel

/-- Nodes whose new numbers are consecutive are planted anew with these numbers. -/
theorem Catalog.plant_toDraft (catalog : Catalog) {tree : Tree Node} {rename : NodeId → NodeId}
    (consecutive : tree.labels.map (fun node => (rename node.id).number) =
      List.range' catalog.nextNode tree.size) :
    catalog.plant (tree.map Node.toDraft) = tree.map (Node.frame rename) := by
  rw [plant, Tree.number_map_of_labels tree consecutive, Tree.map_map]
  rfl

/-- A document that is to be loaded. -/
structure WrittenDocument where
  uri : String
  layer : Layer
  root : Element

namespace WrittenDocument

/-- Its elements, classified. -/
def form (document : WrittenDocument) : Tree Draft :=
  draft none (.ofRoot document.layer document.root.label.tag) document.root

/-- Its nodes, numbered from `start` on. -/
def tree (document : WrittenDocument) (start : Nat) : Tree Node :=
  (document.form.number start).map fun (number, draft) => .ofDraft number draft

/-- The document with its rank, its nodes numbered from `start` on. -/
def placed (document : WrittenDocument) (rank start : Nat) : Document :=
  ⟨⟨rank⟩, document.uri, document.layer, some (document.tree start)⟩

/-- The symbols that its nodes declare, one for each node that declares one. -/
def symbols (document : WrittenDocument) : List Symbol :=
  (document.placed 0 0).rows.filterMap Row.declares?

variable (document : WrittenDocument)

theorem toDraft_tree (start : Nat) : (document.tree start).map Node.toDraft = document.form :=
  Catalog.toDraft_plant ⟨[], .empty, 0, start⟩ document.form

theorem size_tree (start : Nat) : (document.tree start).size = document.form.size :=
  Catalog.size_plant ⟨[], .empty, 0, start⟩ document.form

theorem ids_tree (start : Nat) : (document.tree start).labels.map Node.id =
    (List.range' start document.form.size).map NodeId.mk :=
  Catalog.ids_plant ⟨[], .empty, 0, start⟩ document.form

/-- **Only the numbers depend on where they start.** -/
theorem tree_shift {start later : Nat} {rename : NodeId → NodeId}
    (shifts : ∀ offset < document.form.size, rename ⟨start + offset⟩ = ⟨later + offset⟩) :
    document.tree later = (document.tree start).map (Node.frame rename) := by
  have numbers : (document.tree start).labels.map (fun node => (rename node.id).number) =
      List.range' later (document.tree start).size := by
    have listed := congrArg (List.map fun id => (rename id).number) (document.ids_tree start)
    rw [List.map_map, List.map_map, List.range'_eq_map_range, List.map_map] at listed
    refine listed.trans ?_
    rw [size_tree, List.range'_eq_map_range]
    refine List.map_congr_left fun offset inside => ?_
    exact congrArg NodeId.number (shifts offset (List.mem_range.mp inside))
  have planted := @Catalog.plant_toDraft ⟨[], .empty, 0, later⟩ _ _ numbers
  rw [document.toDraft_tree] at planted
  exact planted

theorem rows_shift {start later : Nat} {rename : NodeId → NodeId}
    (shifts : ∀ offset < document.form.size, rename ⟨start + offset⟩ = ⟨later + offset⟩)
    (rank other : Nat) : (document.placed other later).rows =
      (document.placed rank start).rows.map (Row.map (Node.frame rename)) := by
  show (document.tree later).lines.map (Row.ofLine document.layer) =
    ((document.tree start).lines.map (Row.ofLine document.layer)).map _
  rw [document.tree_shift shifts, Tree.lines_map, List.map_map, List.map_map]
  rfl

/-- What a document declares does not depend on when it is loaded. -/
theorem declares_placed (rank start : Nat) :
    (document.placed rank start).rows.filterMap Row.declares? = document.symbols := by
  have shifted := @rows_shift document 0 start (fun id => ⟨start + id.number⟩)
    (fun offset _ => congrArg (fun number => NodeId.mk (start + number)) (Nat.zero_add offset)) 0 rank
  rw [shifted, List.filterMap_map]
  exact List.filterMap_congr fun row _ => declares?_frame _ row

end WrittenDocument

namespace Catalog

/-- The catalog with the document. -/
def load (catalog : Catalog) (document : WrittenDocument) : Catalog :=
  (catalog.addDocument document.uri document.layer document.root).1

/-- The documents, loaded in this order and not read. -/
def ofDocuments (documents : List WrittenDocument) : Catalog :=
  documents.foldl load .empty

/-- The number of the first node of the document with the rank. -/
def firstNumber (documents : List WrittenDocument) (rank : Nat) : Nat :=
  Tree.sizeAll ((documents.take rank).map WrittenDocument.form)

theorem ofDocuments_concat (documents : List WrittenDocument) (document : WrittenDocument) :
    ofDocuments (documents ++ [document]) = (ofDocuments documents).load document := by
  unfold ofDocuments
  rw [List.foldl_append]
  rfl

theorem nextDocument_ofDocuments (documents : List WrittenDocument) :
    (ofDocuments documents).nextDocument = documents.length := by
  induction documents using List.reverseRecOn with
  | nil => rfl
  | append_singleton documents document ih =>
    rw [ofDocuments_concat, List.length_append]
    show (ofDocuments documents).nextDocument + 1 = _
    rw [ih]
    rfl

theorem nextNode_ofDocuments (documents : List WrittenDocument) :
    (ofDocuments documents).nextNode = firstNumber documents documents.length := by
  unfold firstNumber
  rw [List.take_length]
  induction documents using List.reverseRecOn with
  | nil => rfl
  | append_singleton documents document ih =>
    rw [ofDocuments_concat, List.map_append, Tree.sizeAll_append]
    show (ofDocuments documents).nextNode + ((ofDocuments documents).plant document.form).size = _
    rw [ih, size_plant]
    rfl

/-- **The documents in a catalog have their ranks in the list and consecutive numbers.** -/
theorem documents_ofDocuments (documents : List WrittenDocument) :
    (ofDocuments documents).documents =
      documents.mapIdx fun rank document => document.placed rank (firstNumber documents rank) := by
  induction documents using List.reverseRecOn with
  | nil => rfl
  | append_singleton documents document ih =>
    have last : ((ofDocuments documents).load document).documents =
        (ofDocuments documents).documents ++ [document.placed (ofDocuments documents).nextDocument
          (ofDocuments documents).nextNode] := rfl
    rw [ofDocuments_concat, last, ih, nextDocument_ofDocuments, nextNode_ofDocuments,
      List.mapIdx_concat]
    unfold firstNumber
    congr 1
    · refine List.mapIdx_eq_mapIdx_iff.mpr fun rank inRange => ?_
      rw [List.take_append_of_le_length (Nat.le_of_lt inRange)]
    · rw [List.take_append_of_le_length (Nat.le_refl _)]

/-! ### Numbers -/

theorem firstNumber_add_size {n : Nat} (family : Fin n → WrittenDocument) (rank : Fin n) :
    firstNumber (List.ofFn family) rank + (family rank).form.size =
      firstNumber (List.ofFn family) (rank + 1) := by
  unfold firstNumber
  rw [List.take_add_one, List.getElem?_ofFn, dif_pos rank.isLt, List.map_append, Tree.sizeAll_append]
  rfl

theorem firstNumber_mono (documents : List WrittenDocument) {rank later : Nat}
    (before : rank ≤ later) : firstNumber documents rank ≤ firstNumber documents later := by
  obtain ⟨more, rfl⟩ := Nat.exists_eq_add_of_le before
  unfold firstNumber
  rw [List.take_add, List.map_append, Tree.sizeAll_append]
  exact Nat.le_add_right _ _

/-- **One renaming moves the numbers of all documents**, wherever each of them is to start. -/
theorem exists_renumbering {n : Nat} (family : Fin n → WrittenDocument) (starts : Fin n → Nat) :
    ∃ rename : NodeId → NodeId, ∀ rank : Fin n, ∀ offset < (family rank).form.size,
      rename ⟨firstNumber (List.ofFn family) rank + offset⟩ = ⟨starts rank + offset⟩ := by
  let number : (Σ rank : Fin n, Fin (family rank).form.size) → NodeId :=
    fun place => ⟨firstNumber (List.ofFn family) place.1 + place.2⟩
  have apart : Function.Injective number := by
    rintro ⟨rank, offset⟩ ⟨other, further⟩ same
    have equal : firstNumber (List.ofFn family) rank + offset =
        firstNumber (List.ofFn family) other + further := congrArg NodeId.number same
    have here := firstNumber_add_size family rank
    have there := firstNumber_add_size family other
    have inside := offset.isLt
    have within := further.isLt
    -- the numbers of a document end where those of the next one start
    rcases Nat.lt_trichotomy rank other with before | level | after
    · have later := firstNumber_mono (List.ofFn family) (show (rank : Nat) + 1 ≤ other from before)
      omega
    · obtain rfl : rank = other := Fin.ext level
      obtain rfl : offset = further := Fin.ext (by omega)
      rfl
    · have later := firstNumber_mono (List.ofFn family) (show (other : Nat) + 1 ≤ rank from after)
      omega
  refine ⟨Function.extend number (fun place => ⟨starts place.1 + place.2⟩) id, ?_⟩
  exact fun rank offset inside => apart.extend_apply _ _ ⟨rank, ⟨offset, inside⟩⟩

end Catalog

end EntityModel
