import EntityModel.Proofs.Commit.Queued
import EntityModel.Proofs.Workspace.Reported
import EntityModel.Proofs.Workspace.Revised

/-
**A rename touches exactly its dependents.**

When a node is renamed in a workspace where nothing waits, the commit reads that node again, forms the
symbols below it again, and looks once more at the references that the old name or the new one can
have to do with. Both directions matter: a reference left out would be outdated, one too many would
break the bound on the work.

* `Workspace.Affected` — why a reference is looked at again: it rested on the renamed node, or on one
  below it with another symbol now, or it has to do with a symbol lost or gained there.
* `Report.OfRename` — the report of a rename, list by list.
* `rename_touches_dependents` — **the commit after a rename reports just that**, and leaves every
  other node and its dependencies as they were.
-/

namespace EntityModel

open Workspace

namespace Workspace

/-- The symbol of a node. -/
def symbol? (workspace : Workspace) (id : NodeId) : Option Symbol :=
  (workspace.catalog.node? id).bind Node.symbol

theorem mem_lookup_iff {workspace : Workspace} (sound : workspace.Sound) {symbol : Symbol}
    {id : NodeId} : id ∈ workspace.catalog.lookup symbol ↔
      workspace.symbol? id = some symbol ∧ symbol.isEmpty = false := by
  rw [Catalog.mem_lookup, sound.exact, symbol?]
  cases workspace.catalog.node? id with
  | none => simp
  | some node => exact Node.declared?_eq_some_iff

/-- A node of the tree at the root has lost or gained the symbol. -/
def SymbolMoved (before after : Workspace) (root : NodeId) (symbol : Symbol) : Prop :=
  ∃ id ∈ before.catalog.subtree root,
    ¬ (id ∈ before.catalog.lookup symbol ↔ id ∈ after.catalog.lookup symbol)

/-- Why a reference is looked at again after the node at the root has been renamed, as the ledger was
before. -/
inductive Affected (before after : Workspace) (root : NodeId) (reference : ReferenceId) : Prop where
  | root (rests : reference ∈ before.ledger.dependents root)
  | below {id : NodeId} (inside : id ∈ before.catalog.subtree root)
      (renames : after.symbol? id ≠ before.symbol? id)
      (rests : reference ∈ before.ledger.dependents id)
  | moved {symbol : Symbol} (moved : before.SymbolMoved after root symbol)
      (minds : before.ledger.Minds before.options.rebindWaiting after.catalog symbol reference)

end Workspace

/-- What the commit after a rename reports, and what it leaves alone. -/
structure Report.OfRename (report : Report) (root : NodeId) (before after : Workspace) : Prop where
  removed : report.removed = []
  reparsed : report.reparsed = [root]
  renormalized : report.renormalized = (before.catalog.subtree root).tail
  symbols : ∀ {id}, id ∉ before.catalog.subtree root → after.symbol? id = before.symbol? id
  rebound : ∀ {id}, id ∈ report.rebound ↔ id ∉ before.catalog.subtree root ∧
    ∃ reference : ReferenceId, reference.owner = id ∧ before.Affected after root reference
  others : ∀ {id}, id ∉ report.resolved →
    after.catalog.node? id = before.catalog.node? id ∧ ∀ role,
      after.ledger.dependencies ⟨id, role⟩ = before.ledger.dependencies ⟨id, role⟩

/-! ### Parts of the document order -/

/-- Changes in place leave subtrees as they are. -/
theorem Catalog.Reworked.subtree {f : Node → Node} {before after : Catalog}
    (reworked : Catalog.Reworked f before after) (keeps : ∀ node, (f node).id = node.id)
    (numbered : before.Numbered) (root : NodeId) : after.subtree root = before.subtree root := by
  have later := reworked.numbered keeps numbered
  have listed := later.sublist_subtree root
  rw [reworked.documentOrder keeps] at listed
  refine (numbered.documentOrder_nodup.perm_iff_eq_of_sublist listed
    (numbered.sublist_subtree root)).mp ?_
  refine (List.perm_ext_iff_of_nodup (later.nodup_subtree root) (numbered.nodup_subtree root)).mpr
    fun id => ?_
  rw [later.mem_subtree, numbered.mem_subtree]
  constructor
  · rintro ⟨row, member, same, through⟩
    obtain ⟨earlier, inside, rfl⟩ := reworked.mem_rows.mp member
    rw [Row.line_map keeps] at through
    exact ⟨earlier, inside, (keeps earlier.node).symm.trans same, through⟩
  · rintro ⟨row, member, same, through⟩
    refine ⟨row.map f, reworked.map_mem member, (keeps row.node).trans same, ?_⟩
    rw [Row.line_map keeps]
    exact through

/-! ### The course of the commit -/

/-- The commit after one node was renamed and nothing else done. -/
structure LoneRename (before renamed : Workspace) (root : NodeId) (write : Write) (f : Node → Node)
    (transaction : Transaction) (course : Course) (renormalized : List NodeId) (resolved : Pass) :
    Prop where
  steady : before.Steady
  idle : before.current = .empty
  live : before.catalog.contains root = true
  node : write.node = root
  overwritten : Overwritten [write] f before renamed
  coherent : renamed.Coherent
  opened : renamed.transaction = some transaction
  runs : course.Runs renamed.closed transaction
  loops : course.Loops renamed.closed transaction renormalized resolved

namespace LoneRename

variable {before renamed : Workspace} {root : NodeId} {write : Write} {f : Node → Node}
  {transaction : Transaction} {course : Course} {renormalized : List NodeId} {resolved : Pass}
  (lone : LoneRename before renamed root write f transaction course renormalized resolved)

include lone

/-! ### What waits -/

theorem mem_edited {id : NodeId} : id ∈ transaction.edited ↔ id = root := by
  rw [← current_of_transaction lone.opened, lone.overwritten.edited, lone.idle]
  constructor
  · rintro (none | ⟨other, listed, rfl⟩)
    · exact absurd none List.not_mem_nil
    · rw [List.mem_singleton.mp listed]
      exact lone.node
  · rintro rfl
    exact Or.inr ⟨write, List.mem_singleton_self _, lone.node⟩

theorem inserted_eq : transaction.inserted = .empty := by
  rw [← current_of_transaction lone.opened, lone.overwritten.inserted, lone.idle]
  rfl

theorem cleared_eq : course.cleared = .start renamed.closed := by
  have deleted : transaction.deleted = .empty := by
    rw [← current_of_transaction lone.opened, lone.overwritten.deleted, lone.idle]
    rfl
  have unloaded : transaction.unloaded = [] := by
    rw [← current_of_transaction lone.opened, lone.overwritten.unloaded, lone.idle]
    rfl
  rw [← lone.loops.removed, deleted, unloaded]
  rfl

theorem reworked_cleared :
    Catalog.Reworked f before.catalog course.cleared.workspace.catalog := by
  rw [lone.cleared_eq]
  exact lone.overwritten.reworked

theorem ledger_cleared : course.cleared.workspace.ledger = before.ledger := by
  rw [lone.cleared_eq]
  exact lone.overwritten.ledger

theorem options_cleared : course.cleared.workspace.options = before.options := by
  rw [lone.cleared_eq]
  exact lone.overwritten.options

/-- Every other node is as it was. -/
theorem same_of_ne {node : Node} (other : node.id ≠ root) : f node = node := by
  refine lone.overwritten.revises.others node fun each listed same => other ?_
  rw [List.mem_singleton.mp listed] at same
  exact same.symm.trans lone.node

theorem symbol_eq (node : Node) : (f node).symbol = node.symbol := by
  obtain ⟨attributes, stage, same⟩ := lone.overwritten.revises.rewritten node
  rw [same]

theorem id_map (row : Row) : (row.map f).id = row.id :=
  lone.overwritten.revises.sameId row.node

theorem resolved_before {row : Row} (member : row ∈ before.catalog.rows) :
    row.node.stage = .resolved := by
  refine lone.steady.current.resolved row member (standing_of_idle lone.idle row) ?_
  rw [lone.idle]
  exact List.not_mem_nil

/-! ### The nodes dealt with -/

theorem mem_reread {id : NodeId} : id ∈ course.reread ↔ id = root := by
  rw [lone.runs.mem_reread]
  constructor
  · rintro ⟨_, _, _, edited | ⟨other, planted, _⟩⟩
    · exact lone.mem_edited.mp edited
    · rw [lone.inserted_eq] at planted
      exact absurd planted List.not_mem_nil
  · rintro rfl
    obtain ⟨row, member, same⟩ := Catalog.contains_iff.mp lone.live
    exact ⟨row.map f, lone.reworked_cleared.map_mem member,
      (lone.id_map row).trans same, Or.inl (lone.mem_edited.mpr rfl)⟩

theorem reread_eq : course.reread = [root] := by
  refine List.perm_singleton.mp ((List.perm_ext_iff_of_nodup lone.loops.nodup_reread
    (List.nodup_singleton root)).mpr fun id => ?_)
  rw [lone.mem_reread, List.mem_singleton]

theorem reworked_read : Catalog.Reworked (course.reader ∘ f) before.catalog
    course.read.workspace.catalog :=
  lone.reworked_cleared.trans lone.runs.reworked_reader

theorem sameId_read (node : Node) : ((course.reader ∘ f) node).id = node.id :=
  (course.inPlace_reader.sameId _).trans (lone.overwritten.revises.sameId node)

theorem mem_renormalized {id : NodeId} :
    id ∈ renormalized ↔ id ∈ (before.catalog.subtree root).tail := by
  have numbered := lone.steady.coherent.numbered
  have subtree : ∀ id, course.read.workspace.catalog.subtree id = before.catalog.subtree id :=
    lone.reworked_read.subtree lone.sameId_read numbered
  rw [← lone.loops.below, mem_toRenormalize lone.runs.reading.sound.numbered]
  constructor
  · rintro ⟨_, _, _, _, _, other, edited, below⟩
    rw [lone.mem_edited.mp edited, subtree] at below
    exact below
  · intro below
    obtain ⟨inside, other⟩ := numbered.mem_subtree_tail.mp below
    obtain ⟨row, member, rfl, _⟩ := numbered.mem_subtree.mp inside
    have unread : row.id ∉ course.reread := fun again => other (lone.mem_reread.mp again)
    refine ⟨row.map (course.reader ∘ f), lone.reworked_read.map_mem member,
      lone.sameId_read row.node, unread, ?_, root, lone.mem_edited.mpr rfl, ?_⟩
    · show (course.reader (f row.node)).stage.reaches .parsed = true
      rw [lone.same_of_ne other, Course.reader,
        onlyIn_of_not_mem (show row.node.id ∉ course.reread from unread),
        lone.resolved_before member]
      rfl
    · rw [subtree]
      exact below

theorem renormalized_eq : renormalized = (before.catalog.subtree root).tail := by
  have numbered := lone.steady.coherent.numbered
  have listed : renormalized.Sublist before.catalog.documentOrder := by
    rw [← lone.loops.below, ← lone.reworked_read.documentOrder lone.sameId_read]
    exact sublist_toRenormalize lone.runs.reading.sound.numbered transaction course.reread
  have below := (List.tail_sublist _).trans (numbered.sublist_subtree root)
  refine (numbered.documentOrder_nodup.perm_iff_eq_of_sublist listed below).mp ?_
  refine (List.perm_ext_iff_of_nodup (numbered.documentOrder_nodup.sublist listed)
    (numbered.documentOrder_nodup.sublist below)).mpr fun id => lone.mem_renormalized

/-- The nodes named are those of the subtree. -/
theorem mem_work {id : NodeId} : id ∈ course.work ↔ id ∈ before.catalog.subtree root := by
  rw [lone.runs.work, lone.loops.below, lone.mem_reread, lone.mem_renormalized,
    Catalog.subtree_tail, lone.live, and_iff_left rfl]

/-! ### Nodes and symbols after the commit -/

theorem reworked_after : Catalog.Reworked (course.change ∘ f) before.catalog
    course.after.workspace.catalog :=
  lone.reworked_cleared.trans lone.runs.reworked

theorem node?_after (id : NodeId) : course.after.workspace.catalog.node? id =
    (before.catalog.node? id).map (course.change ∘ f) :=
  lone.reworked_after.node? (fun node =>
    (course.inPlace_change.sameId _).trans (lone.overwritten.revises.sameId node)) id

/-- A node outside the subtree keeps its symbol. -/
theorem symbol_outside {row : Row} (outside : row.id ∉ before.catalog.subtree root) :
    (course.change (f row.node)).symbol = row.node.symbol := by
  have unnamed : (f row.node).id ∉ course.work := by
    rw [lone.overwritten.revises.sameId, lone.mem_work]
    exact outside
  have same : (course.change (f row.node)).symbol = (course.prepare (f row.node)).symbol :=
    @symbol_onlyIn course.queued.workspace.answer (fun _ => rfl) _ _
  rw [same, lone.runs.prepare_of_not_mem unnamed, lone.symbol_eq]

theorem symbol?_before {row : Row} (member : row ∈ before.catalog.rows) :
    before.symbol? row.id = row.node.symbol := by
  rw [symbol?, lone.steady.coherent.numbered.node?_of_mem member]
  rfl

theorem symbol?_after {row : Row} (member : row ∈ before.catalog.rows) :
    course.after.workspace.symbol? row.id = (course.change (f row.node)).symbol := by
  rw [symbol?, lone.node?_after, lone.steady.coherent.numbered.node?_of_mem member]
  rfl

theorem symbol?_outside {id : NodeId} (outside : id ∉ before.catalog.subtree root) :
    course.after.workspace.symbol? id = before.symbol? id := by
  cases found : before.catalog.node? id with
  | none => rw [symbol?, symbol?, lone.node?_after, found, Option.map_none]
  | some node =>
    obtain ⟨row, member, _, rfl⟩ := lone.steady.coherent.numbered.node?_eq_some_iff.mp found
    rw [lone.symbol?_after member, lone.symbol?_before member, lone.symbol_outside outside]

/-- Writing the name changes nothing that is looked up. -/
theorem lookup_renamed (symbol : Symbol) :
    renamed.catalog.lookup symbol = before.catalog.lookup symbol := by
  have reworked := lone.overwritten.reworked
  rw [Catalog.lookup_eq lone.coherent.numbered lone.coherent.exact,
    Catalog.lookup_eq lone.steady.coherent.numbered lone.steady.coherent.exact,
    Catalog.declaring_renamed reworked.rows (fun row _ => lone.symbol_eq row.node), List.map_map]
  exact List.map_congr_left fun row _ => lone.id_map row

/-- **The symbols noted** are those that a node of the subtree has lost or gained. -/
theorem mem_touched {symbol : Symbol} : symbol ∈ course.after.touched ↔
    before.SymbolMoved course.after.workspace root symbol := by
  rw [lone.loops.mem_touched lone.runs lone.coherent.toSound]
  simp only [lone.lookup_renamed]
  constructor
  · rintro ⟨id, differs⟩
    refine ⟨id, ?_, differs⟩
    by_contra outside
    refine differs ?_
    rw [mem_lookup_iff lone.steady.coherent.toSound, mem_lookup_iff lone.runs.resolving.sound,
      lone.symbol?_outside outside]
  · exact fun ⟨id, _, differs⟩ => ⟨id, differs⟩

/-! ### The references looked at again -/

theorem concerns_iff {reference : ReferenceId} : course.Concerns reference ↔
    before.Affected course.after.workspace root reference := by
  have ledger := lone.ledger_cleared
  have options := lone.options_cleared
  constructor
  · intro concerns
    cases concerns with
    | reread again rests => exact .root (lone.mem_reread.mp again ▸ ledger ▸ rests)
    | renamed live busy renames rests =>
      obtain ⟨row, member, rfl⟩ := lone.reworked_cleared.mem_rows.mp live
      rw [lone.id_map] at busy rests
      refine .below (lone.mem_work.mp busy) ?_ (ledger ▸ rests)
      rw [lone.symbol?_after member, lone.symbol?_before member, ← lone.symbol_eq row.node]
      exact renames
    | noted noted minds =>
      rw [ledger, options] at minds
      exact .moved (lone.mem_touched.mp noted) minds
  · intro affected
    cases affected with
    | root rests => exact .reread (lone.mem_reread.mpr rfl) (ledger ▸ rests)
    | below inside renames rests =>
      obtain ⟨row, member, rfl, _⟩ := lone.steady.coherent.numbered.mem_subtree.mp inside
      have number := lone.id_map row
      rw [lone.symbol?_after member, lone.symbol?_before member, ← lone.symbol_eq row.node]
        at renames
      refine .renamed (lone.reworked_cleared.map_mem member)
        (number.symm ▸ lone.mem_work.mpr inside) renames ?_
      rw [number, ledger]
      exact rests
    | moved moved minds =>
      rw [← ledger, ← options] at minds
      exact .noted (lone.mem_touched.mpr moved) minds

theorem mem_rebound {id : NodeId} : id ∈ course.rebound ↔ id ∉ before.catalog.subtree root ∧
    ∃ reference : ReferenceId, reference.owner = id ∧
      before.Affected course.after.workspace root reference := by
  have quiet : ∀ id, id ∉ course.cleared.queue := by
    rw [lone.cleared_eq]
    exact fun _ => List.not_mem_nil
  have reached : ∀ row ∈ course.cleared.workspace.catalog.rows, row.id ∉ course.work →
      row.node.stage.reaches .normalized = true := by
    intro row live unnamed
    obtain ⟨earlier, member, rfl⟩ := lone.reworked_cleared.mem_rows.mp live
    have other : earlier.node.id ≠ root := by
      intro same
      refine unnamed (lone.runs.work_of_reread (lone.mem_reread.mpr ?_))
      exact (lone.id_map earlier).trans same
    show (f earlier.node).stage.reaches .normalized = true
    rw [lone.same_of_ne other, lone.resolved_before member]
    rfl
  rw [lone.loops.mem_rebound lone.runs quiet reached, lone.mem_work]
  simp only [lone.concerns_iff]

/-- A node that the commit does not deal with stays as it was, its dependencies included. -/
theorem unchanged {id : NodeId} (idle : id ∉ course.work ++ course.rebound) :
    course.after.workspace.catalog.node? id = before.catalog.node? id ∧ ∀ role,
      course.after.workspace.ledger.dependencies ⟨id, role⟩ =
        before.ledger.dependencies ⟨id, role⟩ := by
  have other : id ≠ root := fun same => idle (List.mem_append_left _
    (lone.runs.work_of_reread (lone.mem_reread.mpr same)))
  constructor
  · rw [lone.node?_after]
    cases found : before.catalog.node? id with
    | none => rfl
    | some node =>
      obtain ⟨row, _, rfl, rfl⟩ := lone.steady.coherent.numbered.node?_eq_some_iff.mp found
      rw [Option.map_some, Function.comp_apply, lone.same_of_ne other,
        lone.runs.change_of_not_mem idle]
  · intro role
    rw [@Course.Runs.dependencies_of_not_mem _ _ _ lone.runs ⟨id, role⟩ idle, lone.ledger_cleared]

theorem ofRename :
    (course.report renormalized).OfRename root before course.after.workspace := by
  have removed : course.after.removed = [] := by
    rw [lone.loops.removed_after, lone.cleared_eq]
    rfl
  exact ⟨removed, lone.reread_eq, lone.renormalized_eq, lone.symbol?_outside, lone.mem_rebound,
    fun idle => lone.unchanged fun busy => idle ((lone.loops.mem_resolved lone.runs).mpr busy)⟩

end LoneRename

/-- **The commit after a rename touches exactly the dependents of the node**, whatever transactions
came before. -/
theorem rename_touches_dependents (options : Options) {commands : List Command}
    (plain : ∀ command ∈ commands, command.isTransactional = true)
    (closed : ((Workspace.ofOptions options).after commands).transaction = none) {root : NodeId}
    {name : String} {renamed : Workspace}
    (done : ((Workspace.ofOptions options).after commands).renameNode root name = .ok renamed) :
    ∃ after report, renamed.commit = .ok (after, report) ∧
      report.OfRename root ((Workspace.ofOptions options).after commands) after := by
  have steady := Workspace.steady_after options plain
  obtain ⟨site, key, f, editable, _, overwritten⟩ := overwritten_renameNode done
  have live : ((Workspace.ofOptions options).after commands).catalog.contains root = true := by
    rw [Catalog.contains, (editable_eq_ok.mp editable).1]
    rfl
  have coherent := (steady.edits (@edits_renameNode (fun _ _ => True) _ _ _ _ done)).coherent
  have opened := overwritten.inTransaction (List.mem_singleton_self _)
  obtain ⟨transaction, isOpen⟩ := Option.isSome_iff_exists.mp opened
  obtain ⟨course, renormalized, resolved, runs, loops, committed⟩ :=
    exists_reported_run coherent isOpen
  have lone : LoneRename _ renamed root ⟨root, key, name⟩ f transaction course renormalized resolved :=
    ⟨steady, current_of_closed closed, live, rfl, overwritten, coherent, isOpen, runs, loops⟩
  exact ⟨course.after.workspace, course.report renormalized, committed, lone.ofRename⟩

/-- A type with a property, another type derived from it, a set of it, and a set that waits for a type
`Article`. -/
def awaitedType : List Command :=
  [.load "shop.edmx" .conceptual
    (.node { Head.ofTag "Schema" with attributes := .ofList [("Namespace", "Shop")] }
      [.node { Head.ofTag "EntityType" with attributes := .ofList [("Name", "Item")] }
        [.node { Head.ofTag "Property" with attributes := .ofList [("Name", "Number")] } []],
        .node { Head.ofTag "EntityType" with
          attributes := .ofList [("Name", "Book"), ("BaseType", "Shop.Item")] } [],
        .node { Head.ofTag "EntityContainer" with attributes := .ofList [("Name", "Stock")] }
          [.node { Head.ofTag "EntitySet" with
              attributes := .ofList [("Name", "Items"), ("EntityType", "Shop.Item")] } [],
            .node { Head.ofTag "EntitySet" with
              attributes := .ofList [("Name", "Articles"), ("EntityType", "Shop.Article")] } [],
            .node { Head.ofTag "EntitySet" with
              attributes := .ofList [("Name", "Books"), ("EntityType", "Shop.Book")] } []]]),
    .commit]

/-- The set of books, number 7, is left alone. -/
theorem rename_touches_dependents_awaitedType : ∃ renamed after report,
    ((Workspace.ofOptions .standard).after awaitedType).renameNode ⟨1⟩ "Article" = .ok renamed ∧
      renamed.commit = .ok (after, report) ∧ report.renormalized = [⟨2⟩] ∧
      report.rebound = [⟨3⟩, ⟨5⟩, ⟨6⟩] ∧
      report.OfRename ⟨1⟩ ((Workspace.ofOptions .standard).after awaitedType) after := by
  have plain : ∀ command ∈ awaitedType, command.isTransactional = true := by decide
  have closed : ((Workspace.ofOptions .standard).after awaitedType).transaction = none :=
    Option.not_isSome_iff_eq_none.mp (by decide +kernel)
  have reported : ((((Workspace.ofOptions .standard).after awaitedType).renameNode ⟨1⟩
      "Article").bind commit).toOption.map (fun result =>
        (result.2.renormalized, result.2.rebound)) = some ([⟨2⟩], [⟨3⟩, ⟨5⟩, ⟨6⟩]) := by
    decide +kernel
  cases done : ((Workspace.ofOptions .standard).after awaitedType).renameNode ⟨1⟩ "Article" with
  | error refused =>
    rw [done] at reported
    exact nomatch reported
  | ok renamed =>
    obtain ⟨after, report, committed, ofRename⟩ :=
      rename_touches_dependents .standard plain closed done
    rw [done, Except.bind, committed] at reported
    obtain ⟨renormalized, rebound⟩ := (Prod.mk.injEq ..).mp (Option.some.inj reported)
    exact ⟨renamed, after, report, rfl, committed, renormalized, rebound, ofRename⟩

end EntityModel
