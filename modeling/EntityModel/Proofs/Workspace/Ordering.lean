import EntityModel.Proofs.Arena.Keys
import EntityModel.Proofs.Workspace.Slots

/-
**One order of all nodes, which stays.**

Symbols go to the node declared first, reports and findings follow the documents. The order meant is
computed in two ways: from keys that are read off going up, and by walks that go down.

* `Catalog.OneOrder` — keys, walks and sorted lists agree with the document order; `Numbered.oneOrder`
  — in a catalog of trees they do.
* `OrderKept` — what has been there keeps its order: a change gives no number twice, and without the
  new nodes the order is a part of the one before. `orderKept_next` — every command is of this kind;
  `orderKept_after` — **so is every history.**
* `OrderStays` — two nodes that are there before and after stand in the same order both times.
* `oneOrder_after` — **in every state there is one order, and it never changes for nodes that stay.**
-/

namespace EntityModel

namespace Catalog

/-! ### Keys, walks and the document order -/

/-- Keys, walks and sorted lists agree with the document order. -/
structure OneOrder (catalog : Catalog) : Prop where
  /-- What going up in the slots comes by is the key of the node. -/
  key : ∀ id key, catalog.arena.HasKey id key ↔ catalog.orderKey? id = some key
  keyed : ∀ id, (catalog.orderKey? id).isSome = catalog.contains id
  /-- Keys are compared as pairs of a number and a list. -/
  order : ∀ first second firstKey secondKey, catalog.orderKey? first = some firstKey →
    catalog.orderKey? second = some secondKey →
      (Prod.Lex (· < ·) (· < ·) firstKey secondKey ↔
        [first, second].Sublist catalog.documentOrder)
  listed : ∀ id, id ∈ catalog.documentOrder ↔ catalog.contains id = true
  once : catalog.documentOrder.Nodup
  /-- Nodes sorted by their keys are the part of the document order made of them. -/
  sorted : ∀ ids : List NodeId, ids.Nodup → (∀ id ∈ ids, catalog.contains id = true) →
    catalog.sortByDocumentOrder ids = catalog.documentOrder.filter fun id => decide (id ∈ ids)
  /-- Going down with a stack ends with the subtree, and with nothing else. -/
  walk : ∀ id found, catalog.arena.Walk [id] found ↔ found = catalog.subtree id
  /-- The subtree is the recursion over the children. -/
  recursion : ∀ id cell, catalog.arena.cell? id = some cell →
    catalog.subtree id = id :: cell.children.flatMap catalog.subtree
  absent : ∀ id, catalog.contains id = false → catalog.subtree id = []
  roots : catalog.documentOrder =
    (catalog.arena.volumes.filterMap Volume.root).flatMap catalog.subtree

theorem mem_documentOrder_iff {catalog : Catalog} {id : NodeId} :
    id ∈ catalog.documentOrder ↔ catalog.contains id = true := by
  rw [documentOrder_eq, contains_iff, List.mem_map]

theorem Numbered.oneOrder {catalog : Catalog} (numbered : catalog.Numbered) :
    catalog.OneOrder := by
  refine ⟨fun _ _ => numbered.hasKey_iff, fun id => ?_, ?_, fun _ => mem_documentOrder_iff,
    numbered.documentOrder_nodup, fun ids distinct live => ?_, fun _ _ => numbered.walk_iff,
    fun _ _ found => numbered.subtree_eq_flatMap found, fun _ => subtree_of_absent,
    numbered.documentOrder_eq_flatMap⟩
  · unfold orderKey? contains
    rw [Option.isSome_map]
  · intro first second firstKey secondKey firstIs secondIs
    rw [← keyLess_iff]
    exact numbered.keyLess_iff_sublist firstIs secondIs
  · exact sortByDocumentOrder_eq_filter numbered.documentOrder_nodup distinct fun id member =>
      mem_documentOrder_iff.mpr (live id member)

/-! ### An order that is kept -/

/-- A change gives no number twice, and without the new nodes the order is a part of the one before.
-/
structure OrderKept (before after : Catalog) : Prop where
  grown : before.nextNode ≤ after.nextNode
  old : (after.documentOrder.filter fun id => decide (id.number < before.nextNode)).Sublist
    before.documentOrder

/-- A change that only leaves nodes out keeps the order. -/
theorem orderKept_of_sublist {before after : Catalog} (grown : before.nextNode ≤ after.nextNode)
    (part : after.documentOrder.Sublist before.documentOrder) : OrderKept before after :=
  ⟨grown, List.filter_sublist.trans part⟩

theorem OrderKept.refl (catalog : Catalog) : OrderKept catalog catalog :=
  orderKept_of_sublist (Nat.le_refl _) (List.Sublist.refl _)

theorem OrderKept.trans {before between after : Catalog} (first : OrderKept before between)
    (second : OrderKept between after) : OrderKept before after := by
  refine ⟨Nat.le_trans first.grown second.grown, List.Sublist.trans ?_ first.old⟩
  have older : (after.documentOrder.filter fun id => decide (id.number < before.nextNode)) =
      (after.documentOrder.filter fun id => decide (id.number < between.nextNode)).filter
        fun id => decide (id.number < before.nextNode) := by
    have low := first.grown
    rw [List.filter_filter]
    refine List.filter_congr fun id _ => ?_
    by_cases old : id.number < before.nextNode
    · simp [old, Nat.lt_of_lt_of_le old low]
    · simp [old]
  rw [older]
  exact second.old.filter _

/-- New trees come in between. -/
theorem Grown.orderKept {draft : Tree Draft} {layer : Layer} {upper : List Node}
    {before after : Catalog} (grown : Grown draft layer upper before after)
    (numbered : before.Numbered) : OrderKept before after := by
  have same : (after.documentOrder.filter fun id => decide (id.number < before.nextNode)) =
      before.documentOrder := by
    rw [documentOrder_eq, documentOrder_eq, ← grown.filter_old numbered, List.filter_map]
    rfl
  exact ⟨grown.nextNode ▸ Nat.le_add_right _ _, same ▸ List.Sublist.refl _⟩

/-- Two nodes that are there before and after stand in the same order both times. -/
structure OrderStays (before after : Catalog) : Prop where
  pairs : ∀ first second, before.contains first = true → before.contains second = true →
    after.contains first = true → after.contains second = true →
      ([first, second].Sublist before.documentOrder ↔
        [first, second].Sublist after.documentOrder)
  /-- All those that stay stand in the same order. -/
  whole : before.documentOrder.filter (fun id => after.contains id) =
    after.documentOrder.filter fun id => before.contains id

theorem OrderKept.stays {before after : Catalog} (kept : OrderKept before after)
    (numbered : before.Numbered) : OrderStays before after := by
  have below : ∀ {id}, before.contains id = true → id.number < before.nextNode := by
    intro id live
    obtain ⟨row, member, rfl⟩ := contains_iff.mp live
    exact numbered.below row member
  have part : (after.documentOrder.filter fun id => before.contains id).Sublist
      before.documentOrder := by
    refine List.Sublist.trans (List.monotone_filter_right _ fun id live => ?_) kept.old
    exact decide_eq_true (below live)
  have distinct := numbered.documentOrder_nodup
  have whole : before.documentOrder.filter (fun id => after.contains id) =
      after.documentOrder.filter fun id => before.contains id := by
    have members : (after.documentOrder.filter fun id => before.contains id).Perm
        (before.documentOrder.filter fun id => after.contains id) := by
      refine (List.perm_ext_iff_of_nodup (distinct.sublist part) (distinct.filter _)).mpr ?_
      intro id
      simp only [List.mem_filter, mem_documentOrder_iff]
      exact and_comm
    have inside := part.filter fun id => after.contains id
    rw [List.filter_eq_self.mpr fun id member => ?_] at inside
    · exact (inside.eq_of_length members.length_eq).symm
    · exact mem_documentOrder_iff.mp (List.mem_of_mem_filter member)
  refine ⟨fun first second firstBefore secondBefore firstAfter secondAfter => ?_, whole⟩
  have pairs := @pair_sublist_filter_iff _ before.documentOrder after.contains first second
  rw [whole, pair_sublist_filter_iff] at pairs
  simpa [firstBefore, secondBefore, firstAfter, secondAfter] using pairs.symm

end Catalog

namespace Workspace

/-! ### Every command -/

section Steps

variable {workspace after : Workspace}

/-- What keeps all numbers keeps the order. -/
theorem orderKept_of_reworked {f : Node → Node} {before after : Catalog}
    (reworked : Catalog.Reworked f before after) (keeps : ∀ node, (f node).id = node.id) :
    Catalog.OrderKept before after :=
  Catalog.orderKept_of_sublist (Nat.le_of_eq reworked.nextNode.symm)
    (reworked.documentOrder keeps ▸ List.Sublist.refl _)

theorem orderKept_edit {fits : Site → Element → Prop} (numbered : workspace.catalog.Numbered)
    (edit : Edit fits workspace after) : Catalog.OrderKept workspace.catalog after.catalog := by
  cases edit with
  | «open» closed => exact .refl _
  | @write id change rewrites =>
    have keeps : ∀ node, (change node).id = node.id := by
      intro node
      obtain ⟨head, stage, _, _, same⟩ := rewrites node
      rw [same]
    exact orderKept_of_reworked (Catalog.reworked_modify _ keeps id) (id_onlyAt keeps id)
  | load uri layer root => exact (Catalog.grown_addDocument _ uri layer root).orderKept numbered
  | @insert site index element member fit =>
    exact (Catalog.grown_insertUnder numbered member index element).orderKept numbered
  | unload member => exact .refl _
  | delete member => exact .refl _

theorem orderKept_edits {fits : Site → Element → Prop} (coherent : workspace.Coherent)
    (edits : Edits fits workspace after) :
    Catalog.OrderKept workspace.catalog after.catalog := by
  induction edits with
  | refl => exact .refl _
  | tail earlier edit ih =>
    exact ih.trans (orderKept_edit (coherent.edits earlier).numbered edit)

/-- A commit leaves nodes out, and changes what the others say. -/
theorem orderKept_commit {report : Report} (coherent : workspace.Coherent)
    (done : workspace.commit = .ok (after, report)) :
    Catalog.OrderKept workspace.catalog after.catalog := by
  have grown := (slotwise_commit coherent done).follows.grown
  rw [Catalog.length_slots, Catalog.length_slots] at grown
  obtain ⟨transaction, course, _, runs, rfl⟩ := coherent.runs_of_commit done
  refine Catalog.orderKept_of_sublist grown ?_
  rw [runs.reworked.documentOrder course.inPlace_change.sameId, Catalog.documentOrder_eq,
    Catalog.documentOrder_eq, runs.removal.rows]
  exact List.filter_sublist.map Row.id

theorem orderKept_visit (coherent : workspace.Coherent) (visit : Visit workspace after) :
    Catalog.OrderKept workspace.catalog after.catalog := by
  cases visit with
  | parse member =>
    exact orderKept_of_reworked (reworked_parsed workspace _) (id_onlyAt (inPlace_read _).sameId _)
  | normalize member =>
    exact orderKept_of_reworked (reworked_normalized workspace _)
      (id_onlyAt (inPlace_named _).sameId _)
  | resolve member =>
    exact orderKept_of_reworked (reworked_resolved coherent.toSound member)
      (id_onlyAt (inPlace_answered _).sameId _)

/-- **Every command keeps the order.** -/
theorem orderKept_next (coherent : workspace.Coherent) (command : Command) :
    Catalog.OrderKept workspace.catalog (workspace.next command).catalog := by
  refine @next_of_step _ (fun state => Catalog.OrderKept workspace.catalog state.catalog)
    (.refl _) (fun turn => ?_) (orderKept_visit coherent) command
  cases turn with
  | edit edits => exact orderKept_edits coherent edits
  | commit edits committed =>
    exact (orderKept_edits coherent edits).trans
      (orderKept_commit (coherent.edits edits) committed)
  | rebind member owner ready held =>
    exact orderKept_of_reworked (reworked_applied workspace _ _)
      (id_onlyAt (inPlace_keepSlots _ _).sameId _)

end Steps

/-- **So does every history of commands.** -/
theorem orderKept_after {workspace : Workspace} (coherent : workspace.Coherent)
    (commands : List Command) :
    Catalog.OrderKept workspace.catalog (workspace.after commands).catalog := by
  induction commands generalizing workspace with
  | nil => exact .refl _
  | cons command commands ih =>
    exact (orderKept_next coherent command).trans (ih (coherent.next command))

end Workspace

/-- **In every state there is one order**: keys, walks and sorted lists agree with the document
order. Whatever comes next, nodes that are there before and after stand in it the same way. -/
theorem oneOrder_after (options : Options) (commands : List Command) :
    ((Workspace.ofOptions options).after commands).catalog.OneOrder ∧
      ∀ later : List Command,
        Catalog.OrderStays ((Workspace.ofOptions options).after commands).catalog
          (((Workspace.ofOptions options).after commands).after later).catalog := by
  have coherent := Workspace.coherent_after options commands
  refine ⟨coherent.numbered.oneOrder, fun later => ?_⟩
  exact (Workspace.orderKept_after coherent later).stays coherent.numbered

end EntityModel
