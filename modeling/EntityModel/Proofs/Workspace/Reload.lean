import EntityModel.Proofs.Catalog.Loads
import EntityModel.Proofs.Workspace.Classified
import EntityModel.Proofs.Workspace.Rebuild
import EntityModel.Views

/-
**Editing against loading anew.**

The documents of a workspace are written out and loaded into a new one. What a history of edits and
commits leads to is what one commit of these documents leads to.

* `Workspace.reloads` — the commands that load the documents as they are written now;
  `Workspace.reloaded` — a new workspace after these and a commit.
* `Catalog.position` — the number that a node gets there.
* `SameUpToNumbers` — two workspaces hold the same nodes with the same findings, up to numbers.
* `reloaded_after` — **after every history of transactions that absorbs no inserted element the
  workspace is the reloaded one**, up to numbers.
-/

namespace EntityModel

/-- The number of a node when the documents are loaded anew: its position in document order. -/
def Catalog.position (catalog : Catalog) (id : NodeId) : NodeId :=
  ⟨catalog.documentOrder.idxOf id⟩

namespace Workspace

/-- The documents as they are written now, to be loaded in the same order. Those without a root are
left out. -/
def reloads (workspace : Workspace) : List Command :=
  workspace.catalog.documents.filterMap fun document => document.root.bind fun root =>
    (workspace.catalog.toElement? root.label.id).map fun element =>
      .load document.uri document.layer element

/-- A new workspace with the same options, after the documents are loaded and committed. -/
def reloaded (workspace : Workspace) : Workspace :=
  ((ofOptions workspace.options).after workspace.reloads).next .commit

/-- The second workspace holds the nodes of the first, under other numbers, and has the same
findings. -/
structure SameUpToNumbers (rename : NodeId → NodeId) (first second : Workspace) : Prop where
  documentOrder : second.catalog.documentOrder = first.catalog.documentOrder.map rename
  node? : ∀ id ∈ first.catalog.documentOrder,
    second.catalog.node? (rename id) = (first.catalog.node? id).map (Node.renumber rename)
  findings : second.findings = first.findings.map (Finding.renumber rename)

end Workspace

/-! ### Planting what is written out -/

namespace Catalog

theorem toElement?_root {catalog : Catalog} (numbered : catalog.Numbered) {document : Document}
    (member : document ∈ catalog.documents) {root : Tree Node} (rooted : document.root = some root) :
    catalog.toElement? root.label.id = some root.toElement := by
  obtain ⟨rank, inRange, same⟩ := List.getElem_of_mem member
  have listed : (⟨rank, document, ⟨[], [], root⟩⟩ : Site) ∈ catalog.sites := by
    refine List.mem_flatten.mpr ⟨sitesOf rank document, ?_, ?_⟩
    · refine List.mem_map.mpr ⟨(document, rank), ?_, rfl⟩
      rw [List.mem_zipIdx_iff_getElem?, List.getElem?_eq_getElem inRange, same]
    · unfold sitesOf
      rw [rooted]
      refine List.mem_map.mpr ⟨⟨[], [], root⟩, ?_, rfl⟩
      rcases root with ⟨label, children⟩
      rw [Tree.spots, Tree.spotsFrom]
      exact List.mem_cons_self
  have found := site?_eq_some_of_mem numbered.documentOrder_nodup listed
  unfold toElement?
  rw [show root.label.id = (⟨rank, document, ⟨[], [], root⟩⟩ : Site).id from rfl, found]
  rfl

/-- A tree of classified nodes whose new numbers are consecutive is planted with these numbers. -/
theorem plant_toElement (catalog : Catalog) {layer : Layer} {root : Tree Node}
    {rename : NodeId → NodeId}
    (classified : ∀ line ∈ root.lines,
      EntityModel.Classified Kind.SetsApart layer (line.above.map Node.kind) line.label.toDraft)
    (consecutive : root.labels.map (fun node => (rename node.id).number) =
      List.range' catalog.nextNode root.size) :
    catalog.plant (draft none (.ofRoot layer root.toElement.label.tag) root.toElement) =
      root.map (Node.frame rename) := by
  rw [draft_toElement_root classified, plant_toDraft catalog consecutive]

end Catalog

namespace Workspace

/-- The document as it is written now, to be loaded. -/
def loading (document : Document) : Option Command :=
  document.root.map fun root => .load document.uri document.layer root.toElement

theorem reloads_eq {workspace : Workspace} (numbered : workspace.catalog.Numbered) :
    workspace.reloads = workspace.catalog.documents.filterMap loading := by
  refine List.filterMap_congr fun document member => ?_
  unfold loading
  cases rooted : document.root with
  | none => rfl
  | some root =>
    rw [Option.bind_some, Catalog.toElement?_root numbered member rooted]
    rfl

/-- The documents have been loaded, their nodes under the numbers that the renaming gives. -/
structure Loaded (rename : NodeId → NodeId) (documents : List Document)
    (start after : Workspace) : Prop where
  rows : after.catalog.rows = start.catalog.rows ++
    (documents.flatMap Document.rows).map (Row.map (Node.frame rename))
  deleted : after.current.deleted = start.current.deleted
  options : after.options = start.options
  opened : after.transaction = none →
    start.transaction = none ∧ documents.flatMap Document.rows = []

/-- Loading one document whose new numbers are consecutive. -/
theorem rows_load (start : Workspace) {rename : NodeId → NodeId} {document : Document}
    {root : Tree Node} (rooted : document.root = some root)
    (classified : ∀ row ∈ document.rows,
      Classified Kind.SetsApart row.layer (row.above.map Node.kind) row.node.toDraft)
    (consecutive : document.rows.map (fun row => (rename row.id).number) =
      List.range' start.catalog.nextNode document.rows.length) :
    (start.load document.uri document.layer root.toElement).1.catalog.rows =
        start.catalog.rows ++ document.rows.map (Row.map (Node.frame rename)) ∧
      (start.load document.uri document.layer root.toElement).1.catalog.nextNode =
        start.catalog.nextNode + document.rows.length := by
  have length : document.rows.length = root.size := by
    rw [Document.rows_of_root rooted, List.length_map, ← Tree.length_labels, ← Tree.map_label_lines,
      List.length_map]
  rw [length] at consecutive ⊢
  rw [Document.rows_of_root rooted] at classified consecutive ⊢
  have numbers : root.labels.map (fun node => (rename node.id).number) =
      List.range' start.catalog.nextNode root.size := by
    rw [← consecutive, ← Tree.map_label_lines, List.map_map, List.map_map]
    rfl
  have planted := @Catalog.plant_toElement start.catalog document.layer root rename
    (fun line inside => classified _ (List.mem_map_of_mem inside)) numbers
  constructor
  · refine (Catalog.rows_addDocument start.catalog document.uri document.layer
      root.toElement).trans ?_
    rw [planted, Catalog.rowsBelow, Tree.lines_map, List.map_map, List.map_map]
    congr 1
    refine List.map_congr_left fun line _ => ?_
    rw [Function.comp_apply, Tree.Line.below_nil]
    rfl
  · show start.catalog.nextNode + (start.catalog.plant _).size = _
    rw [planted, ← Tree.length_labels, Tree.labels_map, List.length_map, Tree.length_labels]

theorem loaded_after {rename : NodeId → NodeId} {documents : List Document} :
    ∀ {start : Workspace}, (∀ row ∈ documents.flatMap Document.rows,
        Classified Kind.SetsApart row.layer (row.above.map Node.kind) row.node.toDraft) →
      (documents.flatMap Document.rows).map (fun row => (rename row.id).number) =
        List.range' start.catalog.nextNode (documents.flatMap Document.rows).length →
      Loaded rename documents start (start.after (documents.filterMap loading)) := by
  induction documents with
  | nil => exact fun _ _ => ⟨(List.append_nil _).symm, rfl, rfl, fun closed => ⟨closed, rfl⟩⟩
  | cons document documents ih =>
    intro start classified consecutive
    rw [List.flatMap_cons] at classified consecutive
    cases rooted : document.root with
    | none =>
      have hollow : document.rows = [] := by
        unfold Document.rows
        rw [rooted]
        rfl
      have skipped : loading document = none := by
        unfold loading
        rw [rooted]
        rfl
      rw [hollow, List.nil_append] at classified consecutive
      obtain ⟨rows, deleted, options, opened⟩ := ih classified consecutive
      rw [List.filterMap_cons_none skipped]
      refine ⟨?_, deleted, options, ?_⟩
      · rw [List.flatMap_cons, hollow, List.nil_append]
        exact rows
      · rw [List.flatMap_cons, hollow, List.nil_append]
        exact opened
    | some root =>
      have loads : loading document =
          some (.load document.uri document.layer root.toElement) := by
        unfold loading
        rw [rooted]
        rfl
      rw [List.map_append, List.length_append, ← List.range'_append_1] at consecutive
      obtain ⟨here, there⟩ := List.append_inj consecutive
        (by rw [List.length_map, List.length_range'])
      obtain ⟨added, next⟩ := rows_load start rooted
        (fun row member => classified row (List.mem_append_left _ member)) here
      rw [← next] at there
      obtain ⟨rows, deleted, options, opened⟩ := ih
        (fun row member => classified row (List.mem_append_right _ member)) there
      rw [List.filterMap_cons_some loads]
      refine ⟨?_, deleted, options, fun closed => nomatch (opened closed).1⟩
      rw [List.flatMap_cons, List.map_append, ← List.append_assoc, ← added]
      exact rows

/-! ### The reloaded workspace -/

/-- The positions of the nodes are consecutive, in document order. -/
theorem position_consecutive {catalog : Catalog} (numbered : catalog.Numbered) :
    catalog.rows.map (fun row => (catalog.position row.id).number) =
      List.range' 0 catalog.rows.length := by
  have distinct := numbered.documentOrder_nodup
  have positions : catalog.documentOrder.map (fun id => (catalog.position id).number) =
      List.range catalog.documentOrder.length := by
    refine List.ext_getElem (by rw [List.length_map, List.length_range]) fun index _ inRange => ?_
    rw [List.length_range] at inRange
    rw [List.getElem_map, List.getElem_range]
    exact distinct.idxOf_getElem index inRange
  rw [Catalog.documentOrder_eq, List.map_map, List.length_map] at positions
  rw [← List.range_eq_range', ← positions]
  rfl

theorem plain_of_reloads {workspace : Workspace} {command : Command}
    (member : command ∈ workspace.reloads) : command.isTransactional = true := by
  obtain ⟨document, _, made⟩ := List.mem_filterMap.mp member
  obtain ⟨root, _, written⟩ := Option.bind_eq_some_iff.mp made
  obtain ⟨element, _, rfl⟩ := Option.map_eq_some_iff.mp written
  rfl

section Reloaded

variable {workspace : Workspace} (tended : workspace.Tended)
  (classified : workspace.catalog.Classified Kind.SetsApart)

include tended

theorem tended_reloads : ((ofOptions workspace.options).after workspace.reloads).Tended :=
  tended_after tended.rebinds fun _ member => plain_of_reloads member

include classified

theorem loaded_reloads : Loaded workspace.catalog.position workspace.catalog.documents
    (ofOptions workspace.options) ((ofOptions workspace.options).after workspace.reloads) := by
  rw [reloads_eq tended.coherent.numbered]
  exact loaded_after classified (position_consecutive tended.coherent.numbered)

/-- The commit that follows succeeds if there are nodes. -/
theorem commit_reloads (some : workspace.catalog.documentOrder ≠ []) : ∃ report,
    ((ofOptions workspace.options).after workspace.reloads).commit =
      .ok (workspace.reloaded, report) := by
  cases opened : ((ofOptions workspace.options).after workspace.reloads).transaction with
  | none =>
    have hollow := ((loaded_reloads tended classified).opened opened).2
    refine absurd ?_ some
    rw [Catalog.documentOrder_eq, Catalog.rows, hollow]
    rfl
  | some transaction =>
    obtain ⟨course, runs, report, done⟩ := exists_run (tended_reloads tended).coherent opened
    refine ⟨report, ?_⟩
    unfold reloaded
    rw [next_commit done]
    exact done

/-- **The reloaded workspace holds the same elements**, settled. -/
theorem twins_reloaded : workspace.reloaded.Tended ∧ workspace.reloaded.Settled ∧
    workspace.Twins workspace.catalog.position workspace.reloaded := by
  have loaded := loaded_reloads tended classified
  have later := tended_reloads tended
  have frames : ((ofOptions workspace.options).after workspace.reloads).catalog.rows.map
      (Row.map (Node.frame id)) =
        workspace.catalog.rows.map (Row.map (Node.frame workspace.catalog.position)) := by
    rw [loaded.rows, List.map_append, List.map_map]
    show [] ++ workspace.catalog.rows.map _ = _
    rw [List.nil_append]
    refine List.map_congr_left fun row _ => ?_
    rw [Function.comp_apply, Row.map_map]
    rfl
  cases opened : ((ofOptions workspace.options).after workspace.reloads).transaction with
  | none =>
    -- there is nothing to load, and the commit is refused
    have same : workspace.reloaded = (ofOptions workspace.options).after workspace.reloads :=
      next_commit_of_closed opened
    have hollow : workspace.reloaded.catalog.rows = [] := by
      rw [same, loaded.rows, (loaded.opened opened).2]
      rfl
    refine ⟨same ▸ later, ⟨?_, ?_, ?_⟩, ?_, ?_⟩
    · rw [hollow]
      exact fun _ member => absurd member List.not_mem_nil
    · rw [hollow]
      exact fun _ member => absurd member List.not_mem_nil
    · rw [hollow]
      exact fun _ member => absurd member List.not_mem_nil
    · rw [same]
      exact frames
    · rw [same]
      exact loaded.options
  | some transaction =>
    obtain ⟨course, runs, report, done⟩ := exists_run later.coherent opened
    have same : workspace.reloaded = course.after.workspace := next_commit done
    obtain ⟨after, settled, _⟩ := later.commit done
    rw [same]
    have keeps : transaction.deleted = .empty := by
      have deleted := loaded.deleted
      rw [current_of_transaction opened] at deleted
      exact deleted
    refine ⟨after, settled, ?_, ?_⟩
    · rw [frames_of_runs runs keeps]
      exact frames
    · exact runs.options_after.trans loaded.options

end Reloaded

/-- Settled twins are the same up to numbers. -/
theorem Twins.sameUpToNumbers {rename : NodeId → NodeId} {first second : Workspace}
    (twins : Twins rename first second) (settled : first.Settled) (other : second.Settled)
    (sound : first.Sound) (twinSound : second.Sound) : first.SameUpToNumbers rename second := by
  have rows := twins.rows settled other sound twinSound
  refine ⟨Catalog.documentOrder_renumber rows, ?_, twins.findings settled other sound twinSound⟩
  intro id live
  rw [Catalog.documentOrder_eq] at live
  obtain ⟨row, member, rfl⟩ := List.mem_map.mp live
  have found := sound.numbered.node?_of_mem member
  rw [found]
  exact twins.peers.node?_of_first settled other sound twinSound
    (twins.declares settled other twinSound.numbered) found

end Workspace

/-- **Editing agrees with loading anew.** After every history of transactions in which no inserted
element is absorbed, a workspace that has just been committed is the one that its documents give when
they are loaded and committed, node by node in document order. -/
theorem reloaded_after {options : Options} (rebinds : options.rebindWaiting = true)
    {commands : List Command} (plain : ∀ command ∈ commands, command.isTransactional = true)
    (alone : (Workspace.ofOptions options).absorbsNone commands = true)
    {saved : Workspace} {report : Report}
    (done : ((Workspace.ofOptions options).after commands).commit = .ok (saved, report)) :
    saved.options = options ∧
      (saved.catalog.documentOrder ≠ [] → ∃ report,
        ((Workspace.ofOptions saved.options).after saved.reloads).commit =
          .ok (saved.reloaded, report)) ∧
      saved.SameUpToNumbers saved.catalog.position saved.reloaded := by
  have before := Workspace.tended_after rebinds plain
  have classified := Workspace.classified_commit (Workspace.classified_after alone) before.coherent done
  obtain ⟨tended, settled, _⟩ := before.commit done
  obtain ⟨later, other, twins⟩ := Workspace.twins_reloaded tended classified
  refine ⟨?_, Workspace.commit_reloads tended classified, ?_⟩
  · have committed : Workspace.Turn (fun _ _ => True) _ saved := .commit .refl done
    exact (before.coherent.options_turn committed).trans (Workspace.options_after plain)
  · exact twins.sameUpToNumbers settled other tended.coherent.toSound later.coherent.toSound

/-- A set is loaded before the type of its entities, which is planted above it after a commit. -/
def grownSchema : List Command :=
  [.load "shop.csdl" .conceptual
    (.node { Head.ofTag "Schema" with attributes := .ofList [("Namespace", "Shop")] }
      [.node { Head.ofTag "EntityContainer" with attributes := .ofList [("Name", "Stock")] }
        [.node { Head.ofTag "EntitySet" with
          attributes := .ofList [("Name", "Items"), ("EntityType", "Shop.Item")] } []]]),
    .commit,
    .insertElement ⟨0⟩ (some 0)
      (.node { Head.ofTag "EntityType" with attributes := .ofList [("Name", "Item")] } [])]

/-- The second commit finds the type, the last node by its number and the second by its place. -/
theorem reloaded_grownSchema : ∃ saved report,
    ((Workspace.ofOptions .standard).after grownSchema).commit = .ok (saved, report) ∧
      (∃ reference ∈ saved.reference? ⟨⟨2⟩, "EntityType"⟩,
        reference.slots = [⟨"Shop.Item", .ofText "Shop.Item", .known ⟨3⟩ 1⟩]) ∧
      saved.catalog.position ⟨3⟩ = ⟨1⟩ ∧
      saved.SameUpToNumbers saved.catalog.position saved.reloaded := by
  have opened : ((Workspace.ofOptions .standard).after grownSchema).transaction.isSome = true := by
    decide +kernel
  obtain ⟨saved, report, done, reached⟩ := Workspace.exists_committed opened
  have known : (∃ reference ∈ ((Workspace.ofOptions .standard).after
      (grownSchema ++ [.commit])).reference? ⟨⟨2⟩, "EntityType"⟩,
        reference.slots = [⟨"Shop.Item", .ofText "Shop.Item", .known ⟨3⟩ 1⟩]) ∧
      ((Workspace.ofOptions .standard).after
        (grownSchema ++ [.commit])).catalog.position ⟨3⟩ = ⟨1⟩ := by
    decide +kernel
  rw [reached] at known
  have plain : ∀ command ∈ grownSchema, command.isTransactional = true := by decide
  have alone : (Workspace.ofOptions .standard).absorbsNone grownSchema = true := by decide +kernel
  exact ⟨saved, report, done, known.1, known.2, (reloaded_after rfl plain alone done).2.2⟩

end EntityModel
