import EntityModel.Proofs.Commit.Resolving

/-
**A whole commit.**

* `Course`, `Course.Runs` — the passes a commit goes through and the nodes it deals with, with what
  the four parts say of them.
* `Course.Loops`, `Course.report` — the loops of the commit as they run, and what it reports.
* `exists_reported_run`, `exists_run` — **a commit never fails** on a coherent workspace with an open
  transaction.
* `Course.reworked` — the nodes that stay are changed by `Course.change`; `change_of_not_mem` and
  `dependencies_of_not_mem` — a node the commit does not deal with stays as it was, unless only its
  dependencies have gone.
* `Coherent.commit` — a commit keeps a workspace coherent and leaves no node unread.
-/

namespace EntityModel

open Workspace

/-- The passes that a commit goes through, and the nodes it reads, names and resolves. -/
structure Course where
  cleared : Pass
  read : Pass
  earlier : List (NodeId × Option Symbol)
  named : Pass
  queued : Pass
  after : Pass
  reread : List NodeId
  work : List NodeId
  rebound : List NodeId

namespace Course

/-- The course is that of a commit of the transaction, from the workspace with the transaction
closed. -/
structure Runs (start : Workspace) (transaction : Transaction) (course : Course) : Prop where
  removal : Removal start transaction.deleted.items course.cleared
  reading : Reading course.cleared course.reread (course.read, course.earlier)
  naming : Naming course.read course.earlier course.work course.named
  queueing : Queueing course.named course.named.touched.items course.queued
  resolving : Resolving course.queued (course.work ++ course.rebound) course.after
  reread : course.reread = course.cleared.workspace.toReparse transaction
  work : ∀ {id}, id ∈ course.work ↔ id ∈ course.reread ∨
    id ∈ course.read.workspace.toRenormalize transaction course.reread
  rebound : ∀ {id}, id ∈ course.rebound ↔ ∃ row ∈ course.queued.workspace.catalog.rows,
    row.id = id ∧ id ∈ course.queued.queue ∧ id ∉ course.work ∧
      row.node.stage.reaches .normalized = true

end Course

/-! ### A commit never fails -/

section Phases

variable {start : Workspace} {transaction : Transaction}

/-- The nodes named are read, those read just now among them. -/
theorem ready_to_name {cleared read : Pass} {earlier : List (NodeId × Option Symbol)}
    {reread : List NodeId} (numbered : cleared.workspace.catalog.Numbered)
    (listed : reread = cleared.workspace.toReparse transaction)
    (reading : Reading cleared reread (read, earlier)) {id : NodeId}
    (member : id ∈ reread ∨ id ∈ read.workspace.toRenormalize transaction reread) :
    ∃ row ∈ read.workspace.catalog.rows, row.id = id ∧ row.node.stage.reaches .parsed = true := by
  rcases member with again | below
  · have found := again
    rw [listed, mem_toReparse numbered] at found
    obtain ⟨row, live, rfl, _⟩ := found
    refine ⟨_, reading.reworked.map_mem live, ?_, ?_⟩
    · exact ((Catalog.inPlace_reread _).of_cases (onlyIn_cases reread _)).sameId row.node
    · show (onlyIn reread _ row.node).stage.reaches .parsed = true
      rw [onlyIn_of_mem (show row.node.id ∈ reread from again), Catalog.reread,
        show row.node.id = row.id from rfl, numbered.row?_of_mem live]
      rfl
  · obtain ⟨row, live, same, _, reached, _⟩ :=
      (mem_toRenormalize reading.sound.numbered).mp below
    exact ⟨row, live, same, reached⟩

/-- No node is named twice. -/
theorem nodup_work {read : Pass} (numbered : read.workspace.catalog.Numbered)
    {reread : List NodeId} (distinct : reread.Nodup) : (read.workspace.catalog.sortByDocumentOrder
      (reread ++ read.workspace.toRenormalize transaction reread)).Nodup := by
  refine Catalog.nodup_sortByDocumentOrder (List.nodup_append'.mpr
    ⟨distinct, nodup_toRenormalize _ _ _, fun id again later => ?_⟩)
  obtain ⟨_, _, _, new, _⟩ := (mem_toRenormalize numbered).mp later
  exact new again

/-- The nodes named are ready to be resolved. -/
theorem ready_to_resolve {read named : Pass} {earlier : List (NodeId × Option Symbol)}
    {work : List NodeId} (numbered : read.workspace.catalog.Numbered)
    (naming : Naming read earlier work named) {row : Row}
    (live : row ∈ read.workspace.catalog.rows) (member : row.id ∈ work) :
    ∃ other ∈ named.workspace.catalog.rows, other.id = row.id ∧
      other.node.stage.reaches .normalized = true := by
  refine ⟨_, naming.reworked.map_mem live, ?_, ?_⟩
  · exact ((Catalog.inPlace_rename _).of_cases (onlyIn_cases work _)).sameId row.node
  · show (onlyIn work _ row.node).stage.reaches .normalized = true
    rw [onlyIn_of_mem (show row.node.id ∈ work from member), Catalog.rename,
      show row.node.id = row.id from rfl, numbered.row?_of_mem live]
    rfl

/-- The queued nodes are those of the workspace before resolving. -/
theorem mem_toRebind_resolved {queued resolved : Pass} {work : List NodeId}
    (resolving : Resolving queued work resolved) {id : NodeId} :
    id ∈ resolved.workspace.toRebind resolved.queue work ↔
      ∃ row ∈ queued.workspace.catalog.rows, row.id = id ∧ id ∈ queued.queue ∧ id ∉ work ∧
        row.node.stage.reaches .normalized = true := by
  have inPlace : InPlace (onlyIn work queued.workspace.answer) :=
    queued.workspace.inPlace_answer.of_cases (onlyIn_cases work _)
  rw [mem_toRebind resolving.sound.numbered, resolving.queue]
  constructor
  · rintro ⟨row, live, same, inQueue, new, reached⟩
    obtain ⟨earlier, before, rfl⟩ := resolving.reworked.mem_rows.mp live
    have number : earlier.id = id := (inPlace.sameId earlier.node).symm.trans same
    refine ⟨earlier, before, number, inQueue, new, ?_⟩
    have apart : earlier.node.id ∉ work := fun member => new (number ▸ member)
    rw [show (earlier.map (onlyIn work queued.workspace.answer)).node =
      onlyIn work queued.workspace.answer earlier.node from rfl, onlyIn_of_not_mem apart] at reached
    exact reached
  · rintro ⟨row, live, rfl, inQueue, new, reached⟩
    refine ⟨_, resolving.reworked.map_mem live, inPlace.sameId row.node, inQueue,
      new, ?_⟩
    show (onlyIn work queued.workspace.answer row.node).stage.reaches .normalized = true
    rw [onlyIn_of_not_mem (show row.node.id ∉ work from new)]
    exact reached

/-- The nodes named are resolved, then the queued ones. -/
theorem exists_resolved {queued : Pass} {work : List NodeId} (sound : queued.workspace.Sound)
    (distinct : work.Nodup) (ready : ∀ id ∈ work, ∃ row ∈ queued.workspace.catalog.rows,
      row.id = id ∧ row.node.stage.reaches .normalized = true) :
    ∃ resolved after, work.foldlM Pass.resolve queued = .ok resolved ∧
      Resolving queued work resolved ∧
      (resolved.workspace.toRebind resolved.queue work).foldlM Pass.resolveAgain resolved =
        .ok after ∧
      Resolving queued (work ++ resolved.workspace.toRebind resolved.queue work) after := by
  obtain ⟨resolved, ran, resolving⟩ := exists_resolving sound distinct ready
  have again := @mem_toRebind_resolved queued resolved work resolving
  have apart : (work ++ resolved.workspace.toRebind resolved.queue work).Nodup := by
    refine List.nodup_append'.mpr ⟨distinct, nodup_toRebind _ _ _, fun id here there => ?_⟩
    obtain ⟨_, _, _, _, new, _⟩ := again.mp there
    exact new here
  obtain ⟨after, ranAgain, whole⟩ := exists_resolvingAgain sound resolving apart fun id member => by
    obtain ⟨row, live, same, _⟩ := again.mp member
    exact ⟨row, live, same⟩
  exact ⟨resolved, after, ran, resolving, ranAgain, whole⟩

end Phases

/-- The workspace with its transaction closed. -/
def Workspace.closed (workspace : Workspace) : Workspace :=
  { workspace with transaction := none }

theorem Workspace.Sound.closed {workspace : Workspace} (sound : workspace.Sound) :
    workspace.closed.Sound :=
  sound.of_rows sound.numbered rfl rfl rfl

theorem current_of_transaction {workspace : Workspace} {transaction : Transaction}
    (opened : workspace.transaction = some transaction) : workspace.current = transaction := by
  rw [current, opened]
  rfl

/-- The trees to remove leave a sound workspace, and no rows in the documents that go. -/
theorem Workspace.Coherent.removal {workspace : Workspace} (coherent : workspace.Coherent)
    {transaction : Transaction} (opened : workspace.transaction = some transaction) {pass : Pass}
    (removed : transaction.deleted.items.foldl Pass.deleteTree (.start workspace.closed) = pass) :
    Removal workspace.closed transaction.deleted.items pass ∧
      ∀ document ∈ pass.workspace.catalog.documents, document.id ∈ transaction.unloaded →
        document.rows = [] := by
  have gone := Removal.deleteTrees transaction.deleted.items (removal_start coherent.toSound.closed)
  rw [List.nil_append, removed] at gone
  have rooted : ∀ heading ∈ workspace.catalog.documents.map Document.heading,
      heading.1 ∈ transaction.unloaded → ∀ root, heading.2.2 = some root →
        root ∈ transaction.deleted := by
    rw [← current_of_transaction opened]
    exact coherent.unloaded
  exact ⟨gone, gone.hollow rooted⟩

/-- A commit whose loops run to their end has the result of the last one. -/
theorem propagate_eq_ok {start : Workspace} {transaction : Transaction}
    {cleared read named queued resolved after : Pass} {earlier : List (NodeId × Option Symbol)}
    {reread renormalized work rebound : List NodeId}
    (removed : (transaction.deleted.items.foldl Pass.deleteTree (.start start)).dropDocuments
      transaction.unloaded = cleared)
    (listed : cleared.workspace.toReparse transaction = reread)
    (reading : reread.foldlM Pass.reparse (cleared, []) = .ok (read, earlier))
    (below : read.workspace.toRenormalize transaction reread = renormalized)
    (sorted : read.workspace.catalog.sortByDocumentOrder (reread ++ renormalized) = work)
    (naming : work.foldlM (Pass.renormalize earlier) read = .ok named)
    (noted : named.touched.items.foldl Pass.queueChanged named = queued)
    (resolving : work.foldlM Pass.resolve queued = .ok resolved)
    (rebinding : resolved.workspace.toRebind resolved.queue work = rebound)
    (again : rebound.foldlM Pass.resolveAgain resolved = .ok after) :
    start.propagate transaction = .ok (after.workspace,
      ⟨after.removed, reread, renormalized, rebound, after.touched.items⟩) := by
  subst removed listed below sorted noted rebinding
  unfold propagate
  refine bind_eq_ok.mpr ⟨(read, earlier), reading, ?_⟩
  refine bind_eq_ok.mpr ⟨named, naming, ?_⟩
  refine bind_eq_ok.mpr ⟨resolved, resolving, ?_⟩
  exact bind_eq_ok.mpr ⟨after, again, rfl⟩

/-- The loops of a commit, one after the other, lead through the course; `resolved` is what the first
of the two resolving loops leaves. -/
structure Course.Loops (start : Workspace) (transaction : Transaction) (course : Course)
    (renormalized : List NodeId) (resolved : Pass) : Prop where
  removed : (transaction.deleted.items.foldl Pass.deleteTree (.start start)).dropDocuments
    transaction.unloaded = course.cleared
  listed : course.cleared.workspace.toReparse transaction = course.reread
  reading : course.reread.foldlM Pass.reparse (course.cleared, []) =
    .ok (course.read, course.earlier)
  below : course.read.workspace.toRenormalize transaction course.reread = renormalized
  sorted : course.read.workspace.catalog.sortByDocumentOrder (course.reread ++ renormalized) =
    course.work
  naming : course.work.foldlM (Pass.renormalize course.earlier) course.read = .ok course.named
  noted : course.named.touched.items.foldl Pass.queueChanged course.named = course.queued
  resolving : course.work.foldlM Pass.resolve course.queued = .ok resolved
  halfway : Resolving course.queued course.work resolved
  rebinding : resolved.workspace.toRebind resolved.queue course.work = course.rebound
  again : course.rebound.foldlM Pass.resolveAgain resolved = .ok course.after

/-- What the commit reports. -/
def Course.report (course : Course) (renormalized : List NodeId) : Report :=
  ⟨course.after.removed, course.reread, renormalized, course.rebound,
    course.after.touched.items⟩

/-- **A commit never fails** on a coherent workspace with an open transaction, and it reports what
its loops have dealt with. -/
theorem exists_reported_run {workspace : Workspace} (coherent : workspace.Coherent)
    {transaction : Transaction} (opened : workspace.transaction = some transaction) :
    ∃ (course : Course) (renormalized : List NodeId) (resolved : Pass),
      course.Runs workspace.closed transaction ∧
      course.Loops workspace.closed transaction renormalized resolved ∧
      workspace.commit = .ok (course.after.workspace, course.report renormalized) := by
  obtain ⟨gone, hollow⟩ := coherent.removal opened rfl
  have removal := gone.dropDocuments hollow
  generalize cleared : (transaction.deleted.items.foldl Pass.deleteTree
    (.start workspace.closed)).dropDocuments transaction.unloaded = pass at removal
  obtain ⟨⟨read, earlier⟩, ranReading, reading⟩ := exists_reading removal.sound transaction
  generalize listed : pass.workspace.toReparse transaction = reread at ranReading reading
  generalize below : read.workspace.toRenormalize transaction reread = renormalized
  have distinct : (read.workspace.catalog.sortByDocumentOrder (reread ++ renormalized)).Nodup := by
    rw [← below]
    exact nodup_work reading.sound.numbered (listed ▸ nodup_toReparse _ _)
  have members : ∀ {id}, id ∈ read.workspace.catalog.sortByDocumentOrder (reread ++ renormalized) ↔
      id ∈ reread ∨ id ∈ read.workspace.toRenormalize transaction reread := by
    intro id
    rw [Catalog.mem_sortByDocumentOrder, List.mem_append, below]
  generalize sorted : read.workspace.catalog.sortByDocumentOrder (reread ++ renormalized) = work
    at distinct members
  have ready : ∀ id ∈ work, ∃ row ∈ read.workspace.catalog.rows, row.id = id ∧
      row.node.stage.reaches .parsed = true := fun id member =>
    ready_to_name removal.sound.numbered listed.symm reading (members.mp member)
  obtain ⟨named, ranNaming, naming⟩ := exists_naming reading.sound earlier distinct ready
  have queueing := queueing_foldl naming.sound.indexed named.touched.items (queueing_start named)
  rw [List.nil_append] at queueing
  generalize noted : named.touched.items.foldl Pass.queueChanged named = queued at queueing
  have sound : queued.workspace.Sound := queueing.workspace ▸ naming.sound
  have named_work : ∀ id ∈ work, ∃ row ∈ queued.workspace.catalog.rows, row.id = id ∧
      row.node.stage.reaches .normalized = true := by
    intro id member
    obtain ⟨row, live, rfl, _⟩ := ready id member
    rw [queueing.workspace]
    exact ready_to_resolve reading.sound.numbered naming live member
  obtain ⟨resolved, after, ranResolving, resolving, ranAgain, whole⟩ :=
    exists_resolved sound distinct named_work
  have again := @mem_toRebind_resolved queued resolved work resolving
  generalize rebinding : resolved.workspace.toRebind resolved.queue work = rebound
    at again ranAgain whole
  refine ⟨⟨pass, read, earlier, named, queued, after, reread, work, rebound⟩, renormalized, resolved,
    ⟨removal, reading, naming, queueing, whole, listed.symm, members, again⟩,
    ⟨cleared, listed, ranReading, below, sorted, ranNaming, noted, ranResolving, resolving,
      rebinding, ranAgain⟩, ?_⟩
  unfold commit
  rw [opened]
  exact propagate_eq_ok cleared listed ranReading below sorted ranNaming noted ranResolving rebinding
    ranAgain

/-- **A commit never fails** on a coherent workspace with an open transaction. -/
theorem exists_run {workspace : Workspace} (coherent : workspace.Coherent)
    {transaction : Transaction} (opened : workspace.transaction = some transaction) :
    ∃ course : Course, course.Runs workspace.closed transaction ∧
      ∃ report, workspace.commit = .ok (course.after.workspace, report) := by
  obtain ⟨course, renormalized, _, runs, _, done⟩ := exists_reported_run coherent opened
  exact ⟨course, runs, course.report renormalized, done⟩

/-! ### What a commit leaves of a node -/

namespace Course

/-- What the reading makes of a node. -/
def reader (course : Course) : Node → Node :=
  onlyIn course.reread course.cleared.workspace.catalog.reread

/-- What reading and naming make of a node. -/
def prepare (course : Course) : Node → Node :=
  onlyIn course.work course.read.workspace.catalog.rename ∘ course.reader

/-- What the commit makes of a node that stays. -/
def change (course : Course) : Node → Node :=
  onlyIn (course.work ++ course.rebound) course.queued.workspace.answer ∘ course.prepare

theorem inPlace_reader (course : Course) : InPlace course.reader :=
  (Catalog.inPlace_reread _).of_cases (onlyIn_cases course.reread _)

theorem inPlace_prepare (course : Course) : InPlace course.prepare := by
  have naming : InPlace (onlyIn course.work course.read.workspace.catalog.rename) :=
    (Catalog.inPlace_rename _).of_cases (onlyIn_cases course.work _)
  exact naming.comp course.inPlace_reader

theorem inPlace_change (course : Course) : InPlace course.change := by
  have resolving : InPlace (onlyIn (course.work ++ course.rebound) course.queued.workspace.answer) :=
    course.queued.workspace.inPlace_answer.of_cases (onlyIn_cases _ _)
  exact resolving.comp course.inPlace_prepare

/-- A node that the commit deals with is given its answers. -/
theorem change_of_mem {course : Course} {row : Row}
    (busy : row.id ∈ course.work ++ course.rebound) : course.change row.node =
      (course.prepare row.node).answered (course.queued.workspace.evaluate row.id) := by
  have number : (course.prepare row.node).id = row.id := course.inPlace_prepare.sameId row.node
  show onlyIn _ _ (course.prepare row.node) = _
  rw [onlyIn_of_mem (number.symm ▸ busy), answer, number]

variable {start : Workspace} {transaction : Transaction} {course : Course}
  (runs : course.Runs start transaction)

namespace Runs

include runs

theorem reworked_reader : Catalog.Reworked course.reader course.cleared.workspace.catalog
    course.read.workspace.catalog :=
  runs.reading.reworked

theorem reworked_prepare : Catalog.Reworked course.prepare course.cleared.workspace.catalog
    course.queued.workspace.catalog := by
  rw [runs.queueing.workspace]
  exact runs.reworked_reader.trans runs.naming.reworked

theorem reworked : Catalog.Reworked course.change course.cleared.workspace.catalog
    course.after.workspace.catalog :=
  runs.reworked_prepare.trans runs.resolving.reworked

theorem mem_reread {id : NodeId} : id ∈ course.reread ↔
    ∃ row ∈ course.cleared.workspace.catalog.rows, row.id = id ∧
      (id ∈ transaction.edited ∨ ∃ root ∈ transaction.inserted, root ∈ row.line) := by
  rw [runs.reread]
  exact mem_toReparse runs.removal.sound.numbered

theorem work_of_reread {id : NodeId} (member : id ∈ course.reread) : id ∈ course.work :=
  runs.work.mpr (Or.inl member)

theorem sound_queued : course.queued.workspace.Sound :=
  runs.queueing.workspace ▸ runs.naming.sound

theorem prepare_of_not_mem {node : Node} (idle : node.id ∉ course.work) :
    course.prepare node = node := by
  have unread : node.id ∉ course.reread := fun member => idle (runs.work_of_reread member)
  unfold prepare reader
  rw [Function.comp_apply, onlyIn_of_not_mem unread, onlyIn_of_not_mem idle]

/-- A node that the commit does not deal with stays as it was. -/
theorem change_of_not_mem {node : Node} (idle : node.id ∉ course.work ++ course.rebound) :
    course.change node = node := by
  have unnamed : node.id ∉ course.work := fun member => idle (List.mem_append_left _ member)
  unfold change
  rw [Function.comp_apply, runs.prepare_of_not_mem unnamed, onlyIn_of_not_mem idle]

theorem ledger_queued : course.queued.workspace.ledger = course.read.workspace.ledger := by
  rw [runs.queueing.workspace, runs.naming.ledger]

/-- Before the references are evaluated, only those of the nodes read again have lost their
dependencies. -/
theorem dependencies_queued {id : ReferenceId} (unread : id.owner ∉ course.reread) :
    course.queued.workspace.ledger.dependencies id =
      course.cleared.workspace.ledger.dependencies id := by
  rw [runs.ledger_queued]
  exact (runs.reading.dependencies id).trans (if_neg unread)

theorem dependencies_of_not_mem {id : ReferenceId}
    (idle : id.owner ∉ course.work ++ course.rebound) :
    course.after.workspace.ledger.dependencies id =
      course.cleared.workspace.ledger.dependencies id := by
  have unread : id.owner ∉ course.reread := fun member =>
    idle (List.mem_append_left _ (runs.work_of_reread member))
  rw [runs.resolving.others idle, runs.dependencies_queued unread]

theorem queued_of_cleared {id : NodeId} (inQueue : id ∈ course.cleared.queue) :
    id ∈ course.queued.queue :=
  runs.queueing.queued (runs.naming.queued (runs.reading.queued inQueue))

/-- A node that has been named and that the commit does not deal with is not queued. -/
theorem not_queued {row : Row} (live : row ∈ course.cleared.workspace.catalog.rows)
    (idle : row.id ∉ course.work ++ course.rebound)
    (reached : row.node.stage.reaches .normalized = true) : row.id ∉ course.queued.queue := by
  intro inQueue
  rw [List.mem_append, not_or] at idle
  refine idle.2 (runs.rebound.mpr ⟨row.map course.prepare,
    runs.reworked_prepare.map_mem live, course.inPlace_prepare.sameId row.node,
    inQueue, idle.1, ?_⟩)
  show (course.prepare row.node).stage.reaches .normalized = true
  rw [runs.prepare_of_not_mem idle.1]
  exact reached

omit start transaction runs in
theorem transaction_after {workspace : Workspace} {transaction : Transaction}
    (runs : course.Runs workspace.closed transaction) :
    course.after.workspace.transaction = none := by
  rw [runs.resolving.transaction, runs.queueing.workspace, runs.naming.transaction]
  exact runs.reading.transaction.trans runs.removal.transaction

omit start transaction runs in
theorem options_after {workspace : Workspace} {transaction : Transaction}
    (runs : course.Runs workspace.closed transaction) :
    course.after.workspace.options = workspace.options := by
  rw [runs.resolving.options, runs.queueing.workspace, runs.naming.options]
  exact runs.reading.options.trans runs.removal.options

end Runs

end Course

/-! ### Coherence -/

/-- A node that is not read is read by the commit. -/
theorem Course.Runs.reread_of_unparsed {workspace : Workspace} (coherent : workspace.Coherent)
    {transaction : Transaction} (opened : workspace.transaction = some transaction)
    {course : Course} (runs : course.Runs workspace.closed transaction) {row : Row}
    (live : row ∈ course.cleared.workspace.catalog.rows) (unread : row.node.stage = .unparsed) :
    row.id ∈ course.reread := by
  refine runs.mem_reread.mpr ?_
  have waits := coherent.unparsed row (runs.removal.mem_rows.mp live).1 unread
  rw [current_of_transaction opened] at waits
  exact ⟨row, live, rfl, waits⟩

/-- After a commit the ledger has the dependencies of every answer: of the new ones because they
have just been applied, of the old ones because nothing has been queued for them. -/
theorem Course.Runs.recorded {workspace : Workspace} (coherent : workspace.Coherent)
    {transaction : Transaction} (opened : workspace.transaction = some transaction)
    {course : Course} (runs : course.Runs workspace.closed transaction) {row : Row}
    (live : row ∈ course.cleared.workspace.catalog.rows) {reference : Reference}
    (inside : reference ∈ (course.change row.node).references) :
    Recorded (course.after.workspace.ledger.dependencies ⟨row.id, reference.role⟩)
      reference.answer := by
  by_cases busy : row.id ∈ course.work ++ course.rebound
  · rw [Course.change_of_mem busy, references_answered] at inside
    obtain ⟨original, owned, rfl⟩ := List.mem_map.mp inside
    have prepared : row.map course.prepare ∈ course.queued.workspace.catalog.rows :=
      runs.reworked_prepare.map_mem live
    have number : (row.map course.prepare).id = row.id := course.inPlace_prepare.sameId row.node
    have recorded := runs.resolving.recorded _ prepared (number.symm ▸ busy) original owned
    rw [number] at recorded
    show Recorded (course.after.workspace.ledger.dependencies ⟨row.id, original.role⟩) _
    rw [recorded]
    exact recorded_resolution _
  · rw [runs.change_of_not_mem busy] at inside
    have start := (runs.removal.mem_rows.mp live).1
    have before := coherent.recorded row start reference inside
    rw [runs.dependencies_of_not_mem busy]
    cases stage : row.node.stage with
    | unparsed =>
      exact absurd (List.mem_append_left _
        (runs.work_of_reread (runs.reread_of_unparsed coherent opened live stage))) busy
    | parsed =>
      rw [coherent.parsed row start stage reference inside] at before ⊢
      exact runs.removal.noneKept before
    | normalized | resolved =>
      have unqueued : row.id ∉ course.cleared.queue := fun inQueue =>
        runs.not_queued live busy (by rw [stage]; rfl) (runs.queued_of_cleared inQueue)
      have found : course.cleared.workspace.catalog.contains row.id = true :=
        Catalog.contains_iff.mpr ⟨row, live, rfl⟩
      rw [@Removal.kept _ _ _ runs.removal ⟨row.id, reference.role⟩ found unqueued]
      exact before

/-- **A commit keeps a workspace coherent** and leaves no node unread. -/
theorem Course.Runs.coherent {workspace : Workspace} (coherent : workspace.Coherent)
    {transaction : Transaction} (opened : workspace.transaction = some transaction)
    {course : Course} (runs : course.Runs workspace.closed transaction) :
    course.after.workspace.Coherent := by
  have current : course.after.workspace.current = .empty := by
    rw [Workspace.current, runs.transaction_after]
    rfl
  have inPlace := course.inPlace_change
  have live_start : ∀ {row : Row}, row ∈ course.cleared.workspace.catalog.rows →
      row ∈ workspace.catalog.rows := fun live => (runs.removal.mem_rows.mp live).1
  refine ⟨runs.resolving.sound, ?_, ?_, ?_, ?_, ?_⟩
  · intro row member reference inside
    obtain ⟨earlier, live, rfl⟩ := runs.reworked.mem_rows.mp member
    rw [show (earlier.map course.change).id = earlier.id from inPlace.sameId earlier.node]
    exact runs.recorded coherent opened live inside
  · intro row member stage reference inside
    obtain ⟨earlier, live, rfl⟩ := runs.reworked.mem_rows.mp member
    rw [show (earlier.map course.change).node = course.change earlier.node from rfl] at inside stage
    by_cases busy : earlier.id ∈ course.work ++ course.rebound
    · rw [Course.change_of_mem busy] at stage
      exact nomatch stage
    · rw [runs.change_of_not_mem busy] at inside stage
      exact coherent.parsed earlier (live_start live) stage reference inside
  · intro row member stage
    obtain ⟨earlier, live, rfl⟩ := runs.reworked.mem_rows.mp member
    rw [show (earlier.map course.change).node = course.change earlier.node from rfl] at stage
    by_cases busy : earlier.id ∈ course.work ++ course.rebound
    · rw [Course.change_of_mem busy] at stage
      exact nomatch stage
    · rw [runs.change_of_not_mem busy] at stage
      exact absurd (List.mem_append_left _
        (runs.work_of_reread (runs.reread_of_unparsed coherent opened live stage))) busy
  · rw [current]
    exact fun _ _ listed => absurd listed List.not_mem_nil
  · rw [current]
    exact fun _ listed => absurd listed List.not_mem_nil

end EntityModel
