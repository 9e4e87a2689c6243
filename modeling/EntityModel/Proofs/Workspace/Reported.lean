import EntityModel.Proofs.Commit.Noted
import EntityModel.Proofs.Workspace.Reachable

/-
**What a commit reports is what it has done.**

Views are brought up to date from the report of a commit alone, so it has to name everything that has
changed, and should name nothing else.

* `sublist_toReparse`, `sublist_toRenormalize`, `sublist_toRebind` — the nodes dealt with are picked
  from the document order.
* `Report.Exact` — the nodes removed are those that are gone, the symbols those that other nodes
  declare than before, and a node that is not listed is as it was.
* `report_exact` — **every commit succeeds with an exact report**, whatever calls came before.
-/

namespace EntityModel

open Workspace

/-! ### Nodes in document order -/

theorem Catalog.sublist_sortByDocumentOrder {catalog : Catalog} (numbered : catalog.Numbered)
    {ids : List NodeId} (distinct : ids.Nodup)
    (live : ∀ id ∈ catalog.sortByDocumentOrder ids, ∃ row ∈ catalog.rows, row.id = id) :
    (catalog.sortByDocumentOrder ids).Sublist catalog.documentOrder := by
  rw [Catalog.sortByDocumentOrder_eq_filter numbered.documentOrder_nodup distinct]
  · exact List.filter_sublist
  · intro id member
    obtain ⟨row, inside, rfl⟩ := live id (Catalog.mem_sortByDocumentOrder.mpr member)
    rw [Catalog.documentOrder_eq]
    exact List.mem_map_of_mem inside

namespace Workspace

variable {workspace : Workspace} (numbered : workspace.catalog.Numbered)

include numbered

theorem sublist_toReparse (transaction : Transaction) :
    (workspace.toReparse transaction).Sublist workspace.catalog.documentOrder := by
  refine Catalog.sublist_sortByDocumentOrder numbered (OrderedSet.ofList _).nodup fun id member => ?_
  obtain ⟨row, inside, same, _⟩ := (mem_toReparse numbered).mp member
  exact ⟨row, inside, same⟩

theorem sublist_toRenormalize (transaction : Transaction) (reparsed : List NodeId) :
    (workspace.toRenormalize transaction reparsed).Sublist workspace.catalog.documentOrder := by
  refine Catalog.sublist_sortByDocumentOrder numbered (OrderedSet.ofList _).nodup fun id member => ?_
  obtain ⟨row, inside, same, _⟩ := (mem_toRenormalize numbered).mp member
  exact ⟨row, inside, same⟩

theorem sublist_toRebind (queue : OrderedSet NodeId) (resolved : List NodeId) :
    (workspace.toRebind queue resolved).Sublist workspace.catalog.documentOrder := by
  refine Catalog.sublist_sortByDocumentOrder numbered (queue.nodup.sublist List.filter_sublist)
    fun id member => ?_
  obtain ⟨row, inside, same, _⟩ := (mem_toRebind numbered).mp member
  exact ⟨row, inside, same⟩

end Workspace

/-! ### The report -/

/-- The report says what has changed from one workspace to the other, and nothing else. -/
structure Report.Exact (report : Report) (before after : Workspace) : Prop where
  removedOnce : report.removed.Nodup
  removed : ∀ {id}, id ∈ report.removed ↔
    before.catalog.contains id = true ∧ after.catalog.contains id = false
  changedSymbols : ∀ {symbol}, symbol ∈ report.changedSymbols ↔
    ∃ id, ¬ (id ∈ before.catalog.lookup symbol ↔ id ∈ after.catalog.lookup symbol)
  /-- No node is listed twice, in one list or in two. -/
  once : report.resolved.Nodup
  ordered : after.catalog.documentOrder.Nodup
  reparsed : report.reparsed.Sublist after.catalog.documentOrder
  renormalized : report.renormalized.Sublist after.catalog.documentOrder
  rebound : report.rebound.Sublist after.catalog.documentOrder
  others : ∀ {id}, after.catalog.contains id = true → id ∉ report.resolved →
    after.catalog.node? id = before.catalog.node? id

namespace Course.Loops

variable {workspace : Workspace} {transaction : Transaction} {course : Course}
  {renormalized : List NodeId} {resolved : Pass}
  (loops : course.Loops workspace.closed transaction renormalized resolved)
  (runs : course.Runs workspace.closed transaction)

include loops runs

/-- The nodes dealt with are those read again, those named again and those only resolved again. -/
theorem mem_resolved {id : NodeId} : id ∈ (course.report renormalized).resolved ↔
    id ∈ course.work ++ course.rebound := by
  show id ∈ (course.reread ++ renormalized) ++ course.rebound ↔ _
  rw [List.mem_append, List.mem_append, List.mem_append, runs.work, loops.below]

theorem nodup_resolved : (course.report renormalized).resolved.Nodup := by
  have below := loops.below
  show ((course.reread ++ renormalized) ++ course.rebound).Nodup
  refine List.nodup_append'.mpr ⟨List.nodup_append'.mpr ⟨loops.nodup_reread, ?_, ?_⟩, ?_, ?_⟩
  · rw [← below]
    exact nodup_toRenormalize _ _ _
  · intro id again later
    rw [← below, mem_toRenormalize runs.reading.sound.numbered] at later
    obtain ⟨_, _, _, new, _⟩ := later
    exact new again
  · rw [← loops.rebinding]
    exact nodup_toRebind _ _ _
  · intro id busy later
    obtain ⟨_, _, _, _, new, _⟩ := runs.rebound.mp later
    refine new (runs.work.mpr ?_)
    rw [below]
    exact List.mem_append.mp busy

/-- The nodes in document order are the same all through the commit. -/
theorem documentOrder_after :
    course.cleared.workspace.catalog.documentOrder = course.after.workspace.catalog.documentOrder ∧
    course.read.workspace.catalog.documentOrder = course.after.workspace.catalog.documentOrder ∧
    resolved.workspace.catalog.documentOrder = course.after.workspace.catalog.documentOrder := by
  have read := runs.reworked_reader.documentOrder course.inPlace_reader.sameId
  have queued := runs.reworked_prepare.documentOrder course.inPlace_prepare.sameId
  have after := runs.reworked.documentOrder course.inPlace_change.sameId
  have halfway := loops.halfway.reworked.documentOrder
    (course.queued.workspace.inPlace_answer.of_cases (onlyIn_cases course.work _)).sameId
  exact ⟨after.symm, read.trans after.symm, halfway.trans (queued.trans after.symm)⟩

/-- **The report of a commit is exact.** -/
theorem exact (sound : workspace.Sound) :
    (course.report renormalized).Exact workspace course.after.workspace := by
  obtain ⟨cleared, read, halfway⟩ := loops.documentOrder_after runs
  refine ⟨loops.nodup_removed sound, loops.mem_removed runs sound, loops.mem_touched runs sound,
    loops.nodup_resolved runs, runs.resolving.sound.numbered.documentOrder_nodup, ?_, ?_, ?_, ?_⟩
  · rw [← cleared]
    show course.reread.Sublist _
    rw [← loops.listed]
    exact sublist_toReparse runs.removal.sound.numbered transaction
  · rw [← read]
    show renormalized.Sublist _
    rw [← loops.below]
    exact sublist_toRenormalize runs.reading.sound.numbered transaction course.reread
  · rw [← halfway]
    show course.rebound.Sublist _
    rw [← loops.rebinding]
    exact sublist_toRebind loops.halfway.sound.numbered resolved.queue course.work
  · intro id found idle
    obtain ⟨row, live, rfl⟩ := runs.contains_after.mp found
    rw [loops.mem_resolved runs] at idle
    rw [sound.numbered.node?_of_mem (runs.live_before live),
      runs.reworked.node? course.inPlace_change.sameId,
      runs.removal.sound.numbered.node?_of_mem live, Option.map_some,
      runs.change_of_not_mem (show row.node.id ∉ _ from idle)]

end Course.Loops

/-- **Every commit succeeds, and reports exactly what it has done**, whatever calls came before. -/
theorem report_exact (options : Options) (commands : List Command)
    (opened : ((Workspace.ofOptions options).after commands).inTransaction = true) :
    ∃ after report, ((Workspace.ofOptions options).after commands).commit = .ok (after, report) ∧
      report.Exact ((Workspace.ofOptions options).after commands) after := by
  have coherent := Workspace.coherent_after options commands
  obtain ⟨transaction, opens⟩ := Option.isSome_iff_exists.mp opened
  obtain ⟨course, renormalized, resolved, runs, loops, done⟩ := exists_reported_run coherent opens
  exact ⟨course.after.workspace, course.report renormalized, done,
    loops.exact runs coherent.toSound⟩

/-- A type is replaced by another one of the same name while a set refers to it, and the container of
the set gets a new name. -/
def replacedType : List Command :=
  [.load "shop.edmx" .conceptual
    (.node { Head.ofTag "Schema" with attributes := .ofList [("Namespace", "Shop")] }
      [.node { Head.ofTag "EntityType" with attributes := .ofList [("Name", "Item")] } [],
        .node { Head.ofTag "EntityType" with
          attributes := .ofList [("Name", "Book"), ("BaseType", "Shop.Item")] } [],
        .node { Head.ofTag "EntityContainer" with attributes := .ofList [("Name", "Stock")] }
          [.node { Head.ofTag "EntitySet" with
            attributes := .ofList [("Name", "Items"), ("EntityType", "Shop.Item")] } []]]),
    .commit, .deleteNode ⟨1⟩,
    .insertElement ⟨0⟩ (some 0)
      (.node { Head.ofTag "EntityType" with attributes := .ofList [("Name", "Item")] } []),
    .renameNode ⟨3⟩ "Store"]

theorem report_exact_replacedType : ∃ after report,
    ((Workspace.ofOptions .standard).after replacedType).commit = .ok (after, report) ∧
      report.removed = [⟨1⟩] ∧ report.reparsed = [⟨5⟩, ⟨3⟩] ∧ report.renormalized = [⟨4⟩] ∧
      report.rebound = [⟨2⟩] ∧
      report.Exact ((Workspace.ofOptions .standard).after replacedType) after := by
  have reported : (((Workspace.ofOptions .standard).after replacedType).commit.toOption.map
      fun result => (result.2.removed, result.2.reparsed, result.2.renormalized,
        result.2.rebound)) = some ([⟨1⟩], [⟨5⟩, ⟨3⟩], [⟨4⟩], [⟨2⟩]) := by
    decide +kernel
  obtain ⟨after, report, done, exact⟩ := report_exact .standard replacedType (by decide +kernel)
  rw [done] at reported
  have lists := Option.some.inj reported
  simp only [Prod.mk.injEq] at lists
  obtain ⟨removed, reparsed, renormalized, rebound⟩ := lists
  exact ⟨after, report, done, removed, reparsed, renormalized, rebound, exact⟩

end EntityModel
