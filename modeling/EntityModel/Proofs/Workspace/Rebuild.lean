import EntityModel.Proofs.Workspace.Progress
import EntityModel.Proofs.Workspace.Tended
import EntityModel.Proofs.Workspace.Twins

/-
**Commits against a rebuild from scratch.**

* `FromScratch` — a node is as reading, naming and resolving it where it stands would leave it.
* `Agrees` — two workspaces tell the same of nodes, symbols, references and findings.
* `exists_rebuild` — a rebuild after a commit succeeds and leads to the same elements, settled.
* `fromScratch_after` — **after every history of transactions a commit leaves every node from
  scratch**, and a rebuild changes nothing.
-/

namespace EntityModel

theorem InPlace.frame {f : Node → Node} (inPlace : InPlace f) (rename : NodeId → NodeId)
    (node : Node) : (f node).frame rename = node.frame rename := by
  unfold Node.frame
  rw [inPlace.sameId, inPlace.sameKind, inPlace.sameHead, inPlace.sameInline]

namespace Workspace

/-! ### The rebuild -/

/-- A commit that removes nothing leaves the written forms where they are. -/
theorem frames_of_runs {workspace : Workspace} {transaction : Transaction} {course : Course}
    (runs : course.Runs workspace.closed transaction) (keeps : transaction.deleted = .empty) :
    course.after.workspace.catalog.rows.map (Row.map (Node.frame id)) =
      workspace.catalog.rows.map (Row.map (Node.frame id)) := by
  have cleared : course.cleared.workspace.catalog.rows = workspace.catalog.rows := by
    rw [runs.removal.rows, keeps]
    exact List.filter_eq_self.mpr fun _ _ => rfl
  rw [runs.reworked.rows, cleared, List.map_map]
  refine List.map_congr_left fun row _ => ?_
  rw [Function.comp_apply, Row.map_map]
  exact Row.map_congr fun node _ => course.inPlace_change.frame id node

/-- **A rebuild succeeds** where no transaction is open, and leads to the same elements, settled. -/
theorem exists_rebuild {workspace : Workspace} (tended : workspace.Tended)
    (closed : workspace.transaction = none) :
    ∃ rebuilt report, workspace.rebuild = .ok (rebuilt, report) ∧ rebuilt.Tended ∧
      rebuilt.Settled ∧ workspace.Twins id rebuilt := by
  obtain ⟨edited, begun, edits, transaction, opens, keeps, course, report, runs, committed,
    rebuilt⟩ := tended.coherent.exists_rebuild closed
  obtain ⟨after, settled, _⟩ := (tended.edits edits).commit committed
  have inPlace : InPlace (onlyIn workspace.catalog.documentOrder (Node.atStage .unparsed)) :=
    (inPlace_atStage .unparsed).of_cases (onlyIn_cases _ _)
  refine ⟨course.after.workspace, report, rebuilt, after, settled, ?_, ?_⟩
  · rw [frames_of_runs runs keeps, begun.reworked.rows, List.map_map]
    refine List.map_congr_left fun row _ => ?_
    rw [Function.comp_apply, Row.map_map]
    exact Row.map_congr fun node _ => inPlace.frame id node
  · exact runs.options_after.trans (options_of_edits edits)

/-! ### What a rebuild leaves -/

/-- The two workspaces tell the same of nodes, symbols, references and findings. -/
structure Agrees (workspace other : Workspace) : Prop where
  documentOrder : other.catalog.documentOrder = workspace.catalog.documentOrder
  /-- Stages, symbols, contents with all slots, and defects. -/
  node? : ∀ id, other.catalog.node? id = workspace.catalog.node? id
  lookup : ∀ symbol, other.catalog.lookup symbol = workspace.catalog.lookup symbol
  dependencies : ∀ id, other.ledger.dependencies id = workspace.ledger.dependencies id
  referencers : ∀ target, other.ledger.referencers target = workspace.ledger.referencers target
  contextDependents : ∀ node,
    other.ledger.contextDependents node = workspace.ledger.contextDependents node
  waitingOn : ∀ symbol, other.ledger.waitingOn symbol = workspace.ledger.waitingOn symbol
  lookupDependents : ∀ symbol,
    other.ledger.lookupDependents symbol = workspace.ledger.lookupDependents symbol
  findings : other.findings = workspace.findings

section Same

variable {first second : Workspace} (twins : Twins id first second) (settled : first.Settled)
  (other : second.Settled) (sound : first.Sound) (twinSound : second.Sound)

include twins settled other sound twinSound

theorem Twins.sameRows : second.catalog.rows = first.catalog.rows := by
  have unchanged : Row.map id = id := funext mapRow_id
  rw [twins.rows settled other sound twinSound, renumberNode_id, unchanged, List.map_id]

theorem Twins.sameNode? (id : NodeId) : second.catalog.node? id = first.catalog.node? id := by
  rw [Catalog.node?_eq, Catalog.node?_eq, Catalog.row?, Catalog.row?,
    twins.sameRows settled other sound twinSound]

/-- The ledger speaks of references that are there, and their dependencies are those of an
evaluation. -/
theorem Twins.sameDependencies (reference : ReferenceId) :
    second.ledger.dependencies reference = first.ledger.dependencies reference := by
  cases found : first.reference? reference with
  | none =>
    have absent : second.reference? reference = none := by
      rw [← found, reference?, reference?, twins.sameNode? settled other sound twinSound]
    have unrecorded : ∀ {workspace : Workspace}, workspace.Sound →
        workspace.reference? reference = none →
          workspace.ledger.dependencies reference = .none := by
      intro workspace sound absent
      by_contra recorded
      have there := sound.owners reference recorded
      rw [absent] at there
      exact absurd there (by decide)
    rw [unrecorded sound found, unrecorded twinSound absent]
  | some held =>
    rcases reference with ⟨owner, role⟩
    obtain ⟨site, member, rfl, inside, rfl⟩ := exists_site_of_reference found
    have live := row_of_site member
    have recorded := twins.dependencies settled other sound twinSound live inside
    rw [Resolution.renumber_id] at recorded
    exact recorded.trans ((settled.upToDate site.row live).dependencies held inside).symm

theorem Twins.agrees : first.Agrees second := by
  have rows := twins.sameRows settled other sound twinSound
  have dependencies := twins.sameDependencies settled other sound twinSound
  refine ⟨?_, twins.sameNode? settled other sound twinSound, ?_, dependencies, ?_, ?_, ?_, ?_, ?_⟩
  · rw [Catalog.documentOrder_eq, Catalog.documentOrder_eq, rows]
  · intro symbol
    rw [twins.peers.lookup sound twinSound (twins.declares settled other twinSound.numbered),
      List.map_id]
  · exact Ledger.referencers_congr sound.indexed twinSound.indexed dependencies
  · exact Ledger.contextDependents_congr sound.indexed twinSound.indexed dependencies
  · exact Ledger.waitingOn_congr sound.indexed twinSound.indexed dependencies
  · exact Ledger.lookupDependents_congr sound.indexed twinSound.indexed dependencies
  · rw [twins.findings settled other sound twinSound, Finding.renumber_id, List.map_id]

end Same

/-- The node at the place is as reading, naming and resolving it there would leave it. -/
structure FromScratch (workspace : Workspace) (site : Site) : Prop where
  stage : site.node.stage = .resolved
  /-- Answers aside, the name, the references and the fields are those that are read. -/
  content : site.node.content.map Content.written = some (Content.read (source site)).1
  defects : site.node.defects = (Content.read (source site)).2
  symbol : site.node.symbol = site.declaredSymbol?
  slots : ∀ reference ∈ site.node.references,
    reference.answer = some (workspace.evaluate site.id reference).slots
  status : ∀ reference ∈ site.node.references,
    reference.status = (workspace.evaluate site.id reference).status
  dependencies : ∀ reference ∈ site.node.references,
    workspace.ledger.dependencies ⟨site.id, reference.role⟩ =
      (workspace.evaluate site.id reference).dependencies

theorem Settled.fromScratch {workspace : Workspace} (settled : workspace.Settled) {site : Site}
    (member : site ∈ workspace.catalog.sites) : workspace.FromScratch site := by
  have live := row_of_site member
  have upToDate := settled.upToDate site.row live
  have read := settled.read site.row live
  refine ⟨settled.resolved site.row live, read.1, read.2, upToDate.symbol, upToDate.answers, ?_,
    upToDate.dependencies⟩
  intro reference inside
  have answer := upToDate.answers reference inside
  unfold Reference.status
  rw [answer]
  rfl

end Workspace

/-- **After every history of transactions a commit leaves every node as from scratch**, the ledger
in step with it, and a rebuild changes nothing. -/
theorem fromScratch_after {options : Options} (rebinds : options.rebindWaiting = true)
    {commands : List Command} (plain : ∀ command ∈ commands, command.isTransactional = true)
    {after : Workspace} {report : Report}
    (done : ((Workspace.ofOptions options).after commands).commit = .ok (after, report)) :
    (∀ site ∈ after.catalog.sites, after.FromScratch site) ∧ after.ledger.Indexed ∧
      ∃ rebuilt report, after.rebuild = .ok (rebuilt, report) ∧ after.Agrees rebuilt := by
  obtain ⟨tended, settled, closed⟩ := (Workspace.tended_after rebinds plain).commit done
  refine ⟨fun site member => settled.fromScratch member, tended.coherent.indexed, ?_⟩
  obtain ⟨rebuilt, report, succeeds, later, other, twins⟩ := Workspace.exists_rebuild tended closed
  exact ⟨rebuilt, report, succeeds,
    twins.agrees settled other tended.coherent.toSound later.coherent.toSound⟩

/-- A type is derived from one that no type is yet. After a commit another type is renamed to it. -/
def renamedBase : List Command :=
  [.load "shop.csdl" .conceptual
    (.node { Head.ofTag "Schema" with attributes := .ofList [("Namespace", "Shop")] }
      [.node { Head.ofTag "EntityType" with attributes := .ofList [("Name", "Item")] } [],
        .node { Head.ofTag "EntityType" with
          attributes := .ofList [("Name", "Book"), ("BaseType", "Shop.Article")] } []]),
    .commit, .renameNode ⟨1⟩ "Article"]

/-- The second commit finds the base of the type, which has not been edited. -/
theorem fromScratch_renamedBase : ∃ after report,
    ((Workspace.ofOptions .standard).after renamedBase).commit = .ok (after, report) ∧
      (∃ reference ∈ after.reference? ⟨⟨2⟩, "BaseType"⟩,
        reference.slots = [⟨"Shop.Article", .ofText "Shop.Article", .known ⟨1⟩ 1⟩]) ∧
      (∀ site ∈ after.catalog.sites, after.FromScratch site) ∧ after.ledger.Indexed ∧
        ∃ rebuilt report, after.rebuild = .ok (rebuilt, report) ∧ after.Agrees rebuilt := by
  have opened : ((Workspace.ofOptions .standard).after renamedBase).transaction.isSome = true := by
    decide +kernel
  obtain ⟨after, report, done, reached⟩ := Workspace.exists_committed opened
  have known : ∃ reference ∈ ((Workspace.ofOptions .standard).after
      (renamedBase ++ [.commit])).reference? ⟨⟨2⟩, "BaseType"⟩,
        reference.slots = [⟨"Shop.Article", .ofText "Shop.Article", .known ⟨1⟩ 1⟩] := by
    decide +kernel
  rw [reached] at known
  have plain : ∀ command ∈ renamedBase, command.isTransactional = true := by decide
  exact ⟨after, report, done, known, fromScratch_after rfl plain done⟩

end EntityModel
