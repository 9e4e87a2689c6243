import EntityModel.Proofs.Ledger.Registry
import EntityModel.Proofs.Workspace.Classified
import EntityModel.Proofs.Workspace.Grouping

/-
**A rebuild is a normal form.**

What a rebuild leads to depends on what is written in the documents alone. Stages, symbols, slots and
dependencies from before are all replaced, whatever single steps and commits they come from, and
whether or not slots that wait were looked at again.

* `Document.inscribed` — a document with nothing but what is written in it, kinds left out: they
  follow from the places (`written_of_inscribed`).
* `Rebuilt` — what holds of the workspace that a rebuild leads to; `Coherent.exists_rebuilt` — a
  coherent workspace without a transaction has such a one.
* `Alike` — two workspaces have the same documents, with all that is known of their nodes, and answer
  alike; `alike_of_written` — settled workspaces do if the same is written in them.
* `normalForm_after` — **after any two histories that have written the same, rebuilds lead to
  workspaces that are alike**, that hold what every node is from scratch, and that rebuilds leave as
  they are.
-/

namespace EntityModel

/-! ### What is written -/

/-- What is written of a node with its number; the kind is left out. -/
structure Inscription where
  id : NodeId
  head : Head
  inline : List Element

/-- What is written of the node. -/
def Node.inscription (node : Node) : Inscription :=
  ⟨node.id, node.head, node.inline⟩

/-- A document with nothing but what is written in it. -/
structure InscribedDocument where
  id : DocumentId
  uri : String
  layer : Layer
  root : Option (Tree Inscription)

/-- The document with what is written of its nodes. -/
def Document.inscribed (document : Document) : InscribedDocument :=
  ⟨document.id, document.uri, document.layer, document.root.map (Tree.map Node.inscription)⟩

theorem Document.inscribed_written (document : Document) :
    document.written.inscribed = document.inscribed := by
  unfold inscribed written
  rw [Option.map_map]
  congr 2
  funext tree
  exact Tree.map_map _ _ tree

/-- A place leaves one kind to a tag. -/
theorem Placed.unique {admits : Kind → String → Prop} {layer : Layer} {above : List Kind}
    {kind other : Kind} {tag : String} (placed : Placed admits layer above kind tag)
    (twin : Placed admits layer above other tag) : other = kind := by
  cases above with
  | nil => exact twin.trans placed.symm
  | cons parent upper => exact twin.2.trans placed.2.symm

/-- All nodes of the tree have the kinds of their places below nodes of the kinds. -/
def Tree.AllPlaced (layer : Layer) (above : List Kind) (tree : Tree Node) : Prop :=
  ∀ line ∈ tree.lines, Placed (fun _ _ => True) layer (line.above.map Node.kind ++ above)
    line.label.kind line.label.head.tag

theorem Tree.AllPlaced.child {layer : Layer} {above : List Kind} {node : Node}
    {children : List (Tree Node)} (placed : (Tree.node node children).AllPlaced layer above)
    {child : Tree Node} (listed : child ∈ children) :
    child.AllPlaced layer (node.kind :: above) :=
  Tree.forall_lines_child (fun above (node : Node) =>
    Placed (fun _ _ => True) layer above node.kind node.head.tag) placed listed

/-- **Trees that are inscribed alike have the same kinds**, if these are those of their places. -/
theorem Tree.written_of_inscribed {layer : Layer} (tree : Tree Node) :
    ∀ {twin : Tree Node} {above : List Kind}, tree.AllPlaced layer above →
      twin.AllPlaced layer above → twin.map Node.inscription = tree.map Node.inscription →
        twin.map Node.written = tree.map Node.written := by
  induction tree using Tree.induct with
  | step node children ih =>
    intro twin above placed twinPlaced same
    rcases twin with ⟨other, twins⟩
    rw [Tree.map_node, Tree.map_node] at same
    obtain ⟨own, below⟩ := Tree.node.inj same
    obtain ⟨ids, heads, inlines⟩ := Inscription.mk.inj own
    have kinds : other.kind = node.kind := by
      have here := placed ⟨[], node⟩ (by rw [Tree.lines_node]; exact List.mem_cons_self)
      have there := twinPlaced ⟨[], other⟩ (by rw [Tree.lines_node]; exact List.mem_cons_self)
      rw [heads] at there
      exact here.unique there
    have written : other.written = node.written := by
      unfold Node.written
      rw [ids, kinds, heads, inlines]
    have inscribed : (twins.map (Tree.map Node.written)).map (Tree.map Node.inscription) =
        children.map (Tree.map Node.inscription) := by
      rw [List.map_map, ← below]
      exact List.map_congr_left fun twin _ => Tree.map_map _ _ twin
    have lower : twins.map (Tree.map Node.written) = children.map (Tree.map Node.written) := by
      refine eq_map_of_views inscribed fun child listed twin twinListed alike => ?_
      obtain ⟨twin, inside, rfl⟩ := List.mem_map.mp twinListed
      rw [Tree.map_map] at alike
      refine ih child listed (placed.child listed) ?_ alike
      rw [← kinds]
      exact twinPlaced.child inside
    rw [Tree.map_node, Tree.map_node, written, lower]

namespace Catalog

theorem Classified.allPlaced {catalog : Catalog} (classified : catalog.Classified fun _ _ => True)
    {document : Document} (member : document ∈ catalog.documents) {tree : Tree Node}
    (rooted : document.root = some tree) : tree.AllPlaced document.layer [] := by
  intro line inside
  rw [List.append_nil]
  exact (classified _ (row_of_line member rooted inside)).placed

/-- The same for catalogs. -/
theorem written_of_inscribed {first second : Catalog}
    (classified : first.Classified fun _ _ => True) (twin : second.Classified fun _ _ => True)
    (same : second.documents.map Document.inscribed = first.documents.map Document.inscribed) :
    second.documents.map Document.written = first.documents.map Document.written := by
  have inscribed : (second.documents.map Document.written).map Document.inscribed =
      first.documents.map Document.inscribed := by
    rw [List.map_map, ← same]
    exact List.map_congr_left fun document _ => document.inscribed_written
  refine eq_map_of_views inscribed fun document listed other there alike => ?_
  obtain ⟨other, member, rfl⟩ := List.mem_map.mp there
  rw [Document.inscribed_written] at alike
  have placed := fun tree => @Classified.allPlaced _ classified _ listed tree
  have twinPlaced := fun tree => @Classified.allPlaced _ twin _ member tree
  rcases document with ⟨number, uri, layer, root⟩
  rcases other with ⟨otherNumber, otherUri, otherLayer, otherRoot⟩
  obtain ⟨rfl, rfl, rfl, roots⟩ := InscribedDocument.mk.inj alike
  unfold Document.written
  rw [Document.mk.injEq]
  refine ⟨rfl, rfl, rfl, ?_⟩
  cases root with
  | none =>
    obtain rfl := Option.map_eq_none_iff.mp roots
    rfl
  | some tree =>
    obtain ⟨twinTree, rfl, trees⟩ := Option.map_eq_some_iff.mp roots
    exact congrArg some
      (Tree.written_of_inscribed tree (placed tree rfl) (twinPlaced twinTree rfl) trees)

end Catalog

namespace Workspace

/-! ### What a rebuild leads to -/

/-- A rebuild leads to this workspace: the same is written, everything is up to date. -/
structure Rebuilt (workspace rebuilt : Workspace) : Prop where
  done : ∃ report, workspace.rebuild = .ok (rebuilt, report)
  coherent : rebuilt.Coherent
  settled : rebuilt.Settled
  closed : rebuilt.transaction = none
  options : rebuilt.options = workspace.options
  written : rebuilt.catalog.written = workspace.catalog.written

/-- Nothing is written by a rebuild. -/
theorem written_of_rebuild {workspace rebuilt : Workspace} {report : Report}
    (done : workspace.rebuild = .ok (rebuilt, report)) :
    rebuilt.catalog.written = workspace.catalog.written := by
  obtain ⟨opened, began, rest⟩ := bind_eq_ok.mp done
  obtain ⟨edited, looped, committed⟩ := bind_eq_ok.mp rest
  have start : opened = { workspace with transaction := some .empty } := by
    unfold beginTransaction at began
    split at began
    · exact nomatch began
    · exact (Except.ok.inj began).symm
  have kept := @view_of_foldlM _ _ _ _ beginEdit
    (fun state => (state.catalog.written, state.current.deleted, state.current.unloaded))
    (fun {state id next} began => by
      obtain ⟨site, _, wrote⟩ := bind_eq_ok.mp began
      rw [← Except.ok.inj wrote]
      have same := Catalog.written_modify_self state.catalog id
        (fun _ => rfl : ∀ node : Node, (node.atStage .unparsed).written = node.written)
      exact Prod.ext same rfl)
    _ _ _ looped
  obtain ⟨written, marks⟩ := Prod.mk.inj kept
  obtain ⟨stays, loaded⟩ := Prod.mk.inj marks
  rw [start] at written stays loaded
  exact (written_of_commit committed stays loaded).trans written

/-- **Whatever is known before a rebuild, everything is up to date after it.** -/
theorem Coherent.exists_rebuilt {workspace : Workspace} (coherent : workspace.Coherent)
    (closed : workspace.transaction = none) : ∃ rebuilt, workspace.Rebuilt rebuilt := by
  obtain ⟨edited, begun, edits, transaction, opens, _, course, report, runs, committed, done⟩ :=
    coherent.exists_rebuild closed
  have inPlace : InPlace (onlyIn workspace.catalog.documentOrder (Node.atStage .unparsed)) :=
    (inPlace_atStage .unparsed).of_cases (onlyIn_cases _ _)
  have opened := coherent.edits edits
  -- every node counts as not read, so all of them are read again
  have all : ∀ row ∈ course.cleared.workspace.catalog.rows, row.id ∈ course.reread := by
    intro row live
    refine runs.reread_of_unparsed opened opens live ?_
    obtain ⟨earlier, before, rfl⟩ := begun.reworked.mem_rows.mp (runs.removal.mem_rows.mp live).1
    have listed : earlier.node.id ∈ workspace.catalog.documentOrder := by
      rw [Catalog.documentOrder_eq]
      exact List.mem_map_of_mem before
    exact congrArg Node.stage (onlyIn_of_mem listed)
  exact ⟨course.after.workspace, ⟨report, done⟩, runs.coherent opened opens,
    runs.settled_of_reread all, runs.transaction_after,
    runs.options_after.trans (options_of_edits edits), written_of_rebuild done⟩

/-! ### Settled workspaces in which the same is written -/

/-- The workspaces have the same documents, node by node with all that is known of it, and answer
alike whatever is asked of the symbols, of the ledger and of the findings. -/
structure Alike (first second : Workspace) : Prop where
  /-- Trees, written forms, stages, symbols, contents with all slots, and defects. -/
  documents : second.catalog.documents = first.catalog.documents
  node? : ∀ id, second.catalog.node? id = first.catalog.node? id
  lookup : ∀ symbol, second.catalog.lookup symbol = first.catalog.lookup symbol
  symbolEntries : second.catalog.symbolEntries = first.catalog.symbolEntries
  symbolCount : second.catalog.symbolCount = first.catalog.symbolCount
  dependencies : ∀ id, second.ledger.dependencies id = first.ledger.dependencies id
  answers : second.ledger.answers = first.ledger.answers
  findings : ∀ checkNames, second.catalog.findings checkNames = first.catalog.findings checkNames

/-- Switches that evaluations do not read make no difference. -/
theorem Settled.withOptions {workspace : Workspace} (settled : workspace.Settled) {options : Options}
    (same : options.listSeparator = workspace.options.listSeparator) :
    Settled { workspace with options } := by
  have evaluates : ∀ (owner : NodeId) (reference : Reference),
      ({ workspace with options } : Workspace).evaluate owner reference =
        workspace.evaluate owner reference := by
    intro owner reference
    unfold evaluate
    rw [same]
  refine ⟨fun row member => ⟨(settled.upToDate row member).symbol, ?_, ?_⟩, settled.resolved,
    settled.read⟩
  · intro reference inside
    rw [evaluates]
    exact (settled.upToDate row member).answers reference inside
  · intro reference inside
    rw [evaluates]
    exact (settled.upToDate row member).dependencies reference inside

/-- **Settled workspaces in which the same is written are alike.** -/
theorem alike_of_written {first second : Workspace} (settled : first.Settled)
    (other : second.Settled) (sound : first.Sound) (twinSound : second.Sound)
    (separator : second.options.listSeparator = first.options.listSeparator)
    (same : second.catalog.documents.map Document.written =
      first.catalog.documents.map Document.written) : first.Alike second := by
  have twins : Twins id first { second with options := first.options } := by
    refine ⟨?_, rfl⟩
    have rows : second.catalog.written.rows = first.catalog.written.rows :=
      congrArg (List.flatMap Document.rows) same
    rw [Catalog.rows_written, Catalog.rows_written] at rows
    exact rows
  have otherSettled := other.withOptions separator.symm
  have otherSound : Sound { second with options := first.options } :=
    ⟨twinSound.numbered, twinSound.exact, twinSound.indexed, twinSound.roles, twinSound.owners,
      twinSound.keys⟩
  have nodes : ∀ id, second.catalog.node? id = first.catalog.node? id :=
    twins.sameNode? settled otherSettled sound otherSound
  have dependencies : ∀ id, second.ledger.dependencies id = first.ledger.dependencies id :=
    twins.sameDependencies settled otherSettled sound otherSound
  have documents : second.catalog.documents = first.catalog.documents := by
    rw [Catalog.documents_of_written sound.numbered,
      Catalog.documents_of_written twinSound.numbered, show second.catalog.node? = _ from funext nodes]
    exact congrArg (List.map _) same
  have sites : second.catalog.sites = first.catalog.sites := by
    unfold Catalog.sites
    rw [documents]
  have lookup : ∀ symbol, second.catalog.lookup symbol = first.catalog.lookup symbol :=
    (twins.agrees settled otherSettled sound otherSound).lookup
  refine ⟨documents, nodes, lookup, ?_, ?_, dependencies,
    Ledger.answers_congr sound.indexed twinSound.indexed dependencies, ?_⟩
  · refine Catalog.symbolEntries_congr fun symbol id => ?_
    rw [twinSound.exact, sound.exact, nodes]
  · rw [Catalog.symbolCount_eq sound.numbered sound.exact,
      Catalog.symbolCount_eq twinSound.numbered twinSound.exact, sites]
  · intro checkNames
    have redeclared : second.catalog.declarationProblem? = first.catalog.declarationProblem? := by
      unfold Catalog.declarationProblem? Catalog.declaring?
      simp only [lookup]
    unfold Catalog.findings Catalog.problems
    rw [sites, redeclared]

/-! ### The normal form -/

/-- The same is written in the documents, under the same numbers, and lists are split alike. -/
structure WrittenAlike (first second : Workspace) : Prop where
  documents : second.catalog.documents.map Document.inscribed =
    first.catalog.documents.map Document.inscribed
  separator : second.options.listSeparator = first.options.listSeparator

/-- Every node is as reading, naming and resolving it where it stands would leave it, and a rebuild
changes nothing. -/
structure Normal (workspace : Workspace) : Prop where
  closed : workspace.transaction = none
  fromScratch : ∀ site ∈ workspace.catalog.sites, workspace.FromScratch site
  indexed : workspace.ledger.Indexed
  stays : ∃ again report, workspace.rebuild = .ok (again, report) ∧ workspace.Alike again ∧
    again.options = workspace.options ∧ again.transaction = none ∧
    again.catalog.nextDocument = workspace.catalog.nextDocument ∧
    again.catalog.nextNode = workspace.catalog.nextNode

theorem Rebuilt.normal {workspace rebuilt : Workspace} (made : workspace.Rebuilt rebuilt) :
    rebuilt.Normal := by
  have sound := made.coherent.toSound
  refine ⟨made.closed, fun site member => made.settled.fromScratch member, sound.indexed, ?_⟩
  obtain ⟨again, more⟩ := made.coherent.exists_rebuilt made.closed
  obtain ⟨report, done⟩ := more.done
  have alike := alike_of_written made.settled more.settled sound more.coherent.toSound
    (congrArg Options.listSeparator more.options)
    (congrArg (fun catalog => catalog.documents) more.written)
  exact ⟨again, report, done, alike, more.options, more.closed,
    congrArg (fun catalog => catalog.nextDocument) more.written,
    congrArg (fun catalog => catalog.nextNode) more.written⟩

end Workspace

/-- **A rebuild is a normal form**: after any two histories that have written the same, rebuilds lead
to workspaces that are alike, in which every node is as from scratch and which another rebuild leaves
as they are. -/
theorem normalForm_after {options others : Options} {commands history : List Command}
    (closed : ((Workspace.ofOptions options).after commands).transaction = none)
    (twinClosed : ((Workspace.ofOptions others).after history).transaction = none)
    (same : ((Workspace.ofOptions options).after commands).WrittenAlike
      ((Workspace.ofOptions others).after history)) :
    ∃ rebuilt twin report twinReport,
      ((Workspace.ofOptions options).after commands).rebuild = .ok (rebuilt, report) ∧
      ((Workspace.ofOptions others).after history).rebuild = .ok (twin, twinReport) ∧
      rebuilt.Normal ∧ twin.Normal ∧ rebuilt.Alike twin := by
  have written := Catalog.written_of_inscribed (Workspace.placed_after options commands)
    (Workspace.placed_after others history) same.documents
  obtain ⟨rebuilt, made⟩ := (Workspace.coherent_after options commands).exists_rebuilt closed
  obtain ⟨twin, twinMade⟩ := (Workspace.coherent_after others history).exists_rebuilt twinClosed
  obtain ⟨report, done⟩ := made.done
  obtain ⟨twinReport, twinDone⟩ := twinMade.done
  refine ⟨rebuilt, twin, report, twinReport, done, twinDone, made.normal, twinMade.normal, ?_⟩
  refine Workspace.alike_of_written made.settled twinMade.settled made.coherent.toSound
    twinMade.coherent.toSound ?_ ?_
  · rw [made.options, twinMade.options]
    exact same.separator
  · calc twin.catalog.documents.map Document.written
        = ((Workspace.ofOptions others).after history).catalog.documents.map Document.written :=
          congrArg (fun catalog => catalog.documents) twinMade.written
      _ = ((Workspace.ofOptions options).after commands).catalog.documents.map Document.written :=
          written
      _ = rebuilt.catalog.documents.map Document.written :=
          (congrArg (fun catalog => catalog.documents) made.written).symm

namespace Workspace

/-- Nothing has been written, and no transaction opened or closed. -/
structure Unwritten (before after : Workspace) : Prop where
  written : after.catalog.written = before.catalog.written
  transaction : after.transaction = before.transaction
  options : after.options = before.options

theorem Unwritten.visit {start before after : Workspace} (unwritten : start.Unwritten before)
    (visit : Visit before after) : start.Unwritten after := by
  obtain ⟨written, transaction, options⟩ := unwritten
  cases visit with
  | @parse site _ => exact ⟨(written_parsed before site).trans written, transaction, options⟩
  | @normalize site _ => exact ⟨(written_normalized before site).trans written, transaction, options⟩
  | @resolve site _ =>
    exact ⟨(written_resolved before site).trans written,
      (transaction_resolved before site).trans transaction,
      (options_resolved before site).trans options⟩

/-- Single steps in the life of nodes write nothing. -/
theorem unwritten_after {commands : List Command}
    (single : ∀ command ∈ commands, command.isTransactional = false) (workspace : Workspace) :
    workspace.Unwritten (workspace.after commands) :=
  after_of_next (fun command inside unwritten => next_of_perform unwritten fun done =>
    unwritten.visit (visit_of_perform (single command inside) done)) ⟨rfl, rfl, rfl⟩

theorem WrittenAlike.of_written {first second : Workspace}
    (same : second.catalog.written = first.catalog.written)
    (separator : second.options.listSeparator = first.options.listSeparator) :
    first.WrittenAlike second := by
  have inscribed : ∀ catalog : Catalog, catalog.documents.map Document.inscribed =
      catalog.written.documents.map Document.inscribed := by
    intro catalog
    show _ = (catalog.documents.map Document.written).map Document.inscribed
    rw [List.map_map]
    exact List.map_congr_left fun document _ => document.inscribed_written.symm
  refine ⟨?_, separator⟩
  rw [inscribed second.catalog, same, ← inscribed]

/-- What is written after groups of edits follows from the edits alone. -/
theorem written_grouped (options : Options) (groups : List (List Change)) :
    ((ofOptions options).after (grouped groups)).catalog.written =
      groups.flatten.foldl Change.write .empty := by
  have nothing : Holds .empty (ofOptions options) := ⟨rfl, rfl, rfl⟩
  exact (nothing.grouped groups (coherent_ofOptions options)).written

end Workspace

/-- Nodes are read and named out of turn, so the type has lost its symbol and the set its slot. -/
def stockVisits : List Command := [.parse ⟨1⟩, .parse ⟨3⟩, .normalize ⟨3⟩]

/-- Slots that wait are left alone. -/
def leavesWaiting : Options := ⟨true, false, ';'⟩

/-- The edits in one commit with single steps behind it, and a commit after every edit where slots
that wait are left alone. -/
theorem normalForm_stock : ∃ rebuilt twin report twinReport,
    ((Workspace.ofOptions .standard).after
      (grouped [stockSchema :: stockEdits] ++ stockVisits)).rebuild = .ok (rebuilt, report) ∧
    ((Workspace.ofOptions leavesWaiting).after
      (grouped ([stockSchema] :: stockEdits.map fun edit => [edit]))).rebuild =
        .ok (twin, twinReport) ∧
    rebuilt.Normal ∧ twin.Normal ∧ rebuilt.Alike twin := by
  obtain ⟨written, transaction, options⟩ := Workspace.unwritten_after
    (by decide : ∀ command ∈ stockVisits, command.isTransactional = false)
    ((Workspace.ofOptions .standard).after (grouped [stockSchema :: stockEdits]))
  rw [← Workspace.after_append] at written transaction options
  refine normalForm_after (transaction.trans ?_) ?_ (.of_written ?_ ?_)
  · exact (Workspace.coherent_ofOptions .standard).closed_grouped _ rfl
  · exact (Workspace.coherent_ofOptions leavesWaiting).closed_grouped _ rfl
  · rw [written, Workspace.written_grouped, Workspace.written_grouped]
    rfl
  · rw [options, Workspace.options_after plain_of_grouped, Workspace.options_after plain_of_grouped]
    rfl

end EntityModel
