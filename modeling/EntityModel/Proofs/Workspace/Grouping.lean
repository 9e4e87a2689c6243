import EntityModel.Proofs.Commit.Writing
import EntityModel.Proofs.Workspace.Rebuild
import EntityModel.Proofs.Workspace.Writes

/-
**The grouping of edits into commits.**

Edits that add and rewrite, but remove nothing, can be committed one by one, all at once, or in any
groups in between: what is written in the end is the same, and a commit makes all that is known from
what is written.

* `Change` — an edit that removes nothing, with the commands that make it; `grouped` — the commands
  of several groups of edits with a commit after each.
* `Change.write` — what an edit does to what is written.
* `Holds` — a workspace holds what is written in a catalog, and nothing of it is to be removed;
  `Holds.change`, `Holds.commit` and `Holds.grouped` — kept by an edit, a commit and a whole run.
* `Coincides` — two workspaces have the same documents and tell the same.
* `regrouped_after` — **any two groupings of the same edits lead to workspaces that coincide.**
-/

namespace EntityModel

/-! ### Edits that remove nothing -/

/-- A change of the head of a node. -/
inductive HeadChange where
  | setAttribute (name value : String)
  | removeAttribute (name : String)
  | setText (text : Option String)

namespace HeadChange

/-- The command that changes the head of the node. -/
def command (id : NodeId) : HeadChange → Command
  | .setAttribute name value => .setAttribute id name value
  | .removeAttribute name => .removeAttribute id name
  | .setText text => .setText id text

/-- The head after the change. -/
def head (head : Head) : HeadChange → Head
  | .setAttribute name value => { head with attributes := head.attributes.set name value }
  | .removeAttribute name => { head with attributes := head.attributes.erase name }
  | .setText text => { head with text }

/-- The node after the change of its head. -/
def apply (change : HeadChange) (node : Node) : Node :=
  { node with head := change.head node.head }

end HeadChange

/-- An edit that removes nothing. -/
inductive Change where
  | load (uri : String) (layer : Layer) (root : Element)
  | insert (parent : NodeId) (index : Option Nat) (element : Element)
  | rename (id : NodeId) (name : String)
  /-- The head of a node is edited, step by step. -/
  | rewrite (id : NodeId) (steps : List HeadChange)

namespace Change

/-- The commands that make the edit. -/
def commands : Change → List Command
  | .load uri layer root => [.load uri layer root]
  | .insert parent index element => [.insertElement parent index element]
  | .rename id name => [.renameNode id name]
  | .rewrite id steps => .beginEdit id :: steps.map (HeadChange.command id)

/-- What the edit does to what is written. An edit of a node that is not there does nothing. -/
def write (catalog : Catalog) : Change → Catalog
  | .load uri layer root => (catalog.addDocument uri layer root).1
  | .insert parent index element =>
    match catalog.site? parent with
    | none => catalog
    | some site => (catalog.insertUnder site index element).1
  | .rename id name =>
    match (catalog.site? id).bind fun site => site.node.kind.nameAttribute? with
    | none => catalog
    | some key => catalog.modify id (HeadChange.apply (.setAttribute key name))
  | .rewrite id steps =>
    if catalog.contains id then
      steps.foldl (fun catalog step => catalog.modify id step.apply) catalog
    else catalog

end Change

/-- The commands of groups of edits, with a commit after each group. -/
def grouped (groups : List (List Change)) : List Command :=
  groups.flatMap fun group => group.flatMap Change.commands ++ [.commit]

namespace Workspace

/-- The workspace holds what is written in the catalog, and nothing of it is to be removed. -/
structure Holds (catalog : Catalog) (workspace : Workspace) : Prop where
  written : workspace.catalog.written = catalog
  deleted : workspace.current.deleted = .empty
  unloaded : workspace.current.unloaded = []

theorem perform_step (workspace : Workspace) (id : NodeId) (step : HeadChange) :
    workspace.perform (step.command id) =
      plainly (workspace.changeHead id fun head => step.head head) := by
  cases step with
  | setAttribute name value => rfl
  | removeAttribute name => rfl
  | setText text => rfl

/-- Nothing changes the head of a node that is not there. -/
theorem steps_of_absent {workspace : Workspace} {id : NodeId}
    (absent : workspace.catalog.site? id = none) (steps : List HeadChange) :
    workspace.after (steps.map (HeadChange.command id)) = workspace := by
  have refused : ∀ step : HeadChange, workspace.next (step.command id) = workspace := by
    intro step
    cases ran : workspace.changeHead id fun head => step.head head with
    | error error =>
      refine @next_of_error _ _ error ((perform_step workspace id step).trans ?_)
      rw [ran]
      rfl
    | ok changed =>
      unfold changeHead at ran
      split at ran
      · exact nomatch ran
      · obtain ⟨site, located, _⟩ := bind_eq_ok.mp ran
        rw [site_eq_ok, absent] at located
        exact nomatch located
  induction steps with
  | nil => rfl
  | cons step steps ih =>
    show (workspace.next (step.command id)).after _ = workspace
    rw [refused]
    exact ih

namespace Holds

variable {catalog : Catalog} {workspace : Workspace} (holds : Holds catalog workspace)

include holds

theorem stays (id : NodeId) : workspace.isPendingDelete id = false := by
  unfold isPendingDelete
  rw [holds.deleted, List.any_eq_false]
  intro each _
  rw [decide_eq_true_eq]
  exact List.not_mem_nil

theorem site? (id : NodeId) : catalog.site? id = (workspace.catalog.site? id).map Site.written := by
  rw [← holds.written, Catalog.site?_written]

theorem contains (id : NodeId) : catalog.contains id = workspace.catalog.contains id := by
  rw [← holds.written, Catalog.contains_written]

theorem load (uri : String) (layer : Layer) (root : Element) :
    Holds ((Change.load uri layer root).write catalog) (workspace.load uri layer root).1 := by
  refine ⟨?_, holds.deleted, holds.unloaded⟩
  show ((workspace.catalog.addDocument uri layer root).1).written = _
  rw [Catalog.written_addDocument, holds.written]
  rfl

theorem begun (id : NodeId) :
    Holds catalog (workspace.write id (Node.atStage .unparsed)) := by
  refine ⟨?_, holds.deleted, holds.unloaded⟩
  show (workspace.catalog.modify id (Node.atStage .unparsed)).written = catalog
  rw [Catalog.written_modify_self, holds.written]
  exact fun _ => rfl

theorem modify (id : NodeId) (step : HeadChange) :
    Holds (catalog.modify id step.apply) (workspace.modify id step.apply) := by
  refine ⟨?_, holds.deleted, holds.unloaded⟩
  show (workspace.catalog.modify id step.apply).written = _
  rw [← holds.written]
  exact Catalog.written_modify workspace.catalog id fun _ => rfl

theorem insert (parent : NodeId) (index : Option Nat) (element : Element) :
    Holds ((Change.insert parent index element).write catalog)
      (workspace.next (.insertElement parent index element)) := by
  unfold Change.write
  simp only
  rw [holds.site?]
  cases located : workspace.catalog.site? parent with
  | none =>
    have refused : workspace.perform (.insertElement parent index element) =
        .error (.unknownNode parent) := by
      unfold perform insertElement
      simp only
      rw [editable_of_absent located]
      rfl
    rw [next_of_error refused]
    exact holds
  | some site =>
    have done : workspace.perform (.insertElement parent index element) =
        .ok (workspace.insertAtSite site index element,
          .node (workspace.catalog.insertUnder site index element).2) :=
      map_eq_ok.mpr ⟨_, bind_eq_ok.mpr
        ⟨site, editable_eq_ok.mpr ⟨located, holds.stays parent⟩, rfl⟩, rfl⟩
    rw [next_of_ok done]
    refine ⟨?_, holds.deleted, holds.unloaded⟩
    show ((workspace.catalog.insertUnder site index element).1).written = _
    rw [Catalog.written_insertUnder, holds.written]
    rfl

omit holds in
theorem contains_begun {id : NodeId} (live : workspace.catalog.contains id = true) :
    (workspace.write id (Node.atStage .unparsed)).catalog.contains id = true :=
  (contains_modify workspace (fun _ => rfl : ∀ node : Node,
    (node.atStage .unparsed).id = node.id) id id).trans live

/-- A node without an attribute for its name is not renamed. -/
theorem renameNode_of_nameless {id : NodeId} {site : Site}
    (located : workspace.catalog.site? id = some site)
    (nameless : site.node.kind.nameAttribute? = none) (name : String) :
    workspace.renameNode id name = .error (.notRenamable id site.node.kind) := by
  unfold renameNode
  rw [editable_eq_ok.mpr ⟨located, holds.stays id⟩]
  show (match site.node.kind.nameAttribute? with
    | none => _
    | some key => _) = _
  rw [nameless]

/-- A node with an attribute for its name is edited and renamed. -/
theorem renameNode_of_named {id : NodeId} {site : Site}
    (located : workspace.catalog.site? id = some site) {key : String}
    (named : site.node.kind.nameAttribute? = some key) (name : String) :
    workspace.renameNode id name = .ok ((workspace.write id (Node.atStage .unparsed)).modify id
      (HeadChange.apply (.setAttribute key name))) := by
  have live : workspace.catalog.contains id = true :=
    Option.isSome_iff_exists.mpr ⟨site, located⟩
  exact renameNode_eq_ok.mpr ⟨site, key, _, editable_eq_ok.mpr ⟨located, holds.stays id⟩, named,
    beginEdit_of_live live (holds.stays id),
    changeHead_of_editing (isEditing_write workspace id _) (contains_begun live) _⟩

theorem rename (id : NodeId) (name : String) :
    Holds ((Change.rename id name).write catalog) (workspace.next (.renameNode id name)) := by
  have key : ((catalog.site? id).bind fun site => site.node.kind.nameAttribute?) =
      (workspace.catalog.site? id).bind fun site => site.node.kind.nameAttribute? := by
    rw [holds.site?, Option.bind_map]
    congr 1
    funext site
    exact congrArg Kind.nameAttribute? (Catalog.kind_written site)
  unfold Change.write
  simp only
  rw [key]
  cases located : workspace.catalog.site? id with
  | none =>
    have refused : workspace.perform (.renameNode id name) = .error (.unknownNode id) := by
      unfold perform renameNode
      simp only
      rw [editable_of_absent located]
      rfl
    rw [next_of_error refused]
    exact holds
  | some site =>
    rw [Option.bind_some]
    cases named : site.node.kind.nameAttribute? with
    | none =>
      have refused : workspace.perform (.renameNode id name) =
          .error (.notRenamable id site.node.kind) :=
        congrArg plainly (holds.renameNode_of_nameless located named name)
      rw [next_of_error refused]
      exact holds
    | some key =>
      rw [next_of_plainly rfl (holds.renameNode_of_named located named name)]
      exact (holds.begun id).modify id _

omit holds in
/-- The head of a node that is being edited changes step by step. -/
theorem steps {id : NodeId} (steps : List HeadChange) : ∀ {catalog : Catalog} {workspace : Workspace},
    Holds catalog workspace → workspace.isEditing id = true →
      workspace.catalog.contains id = true →
      Holds (steps.foldl (fun catalog step => catalog.modify id step.apply) catalog)
        (workspace.after (steps.map (HeadChange.command id))) := by
  induction steps with
  | nil => exact fun holds _ _ => holds
  | cons step steps ih =>
    intro catalog workspace holds editing live
    have done := changeHead_of_editing editing live fun head => step.head head
    have keeps : ∀ node, (step.apply node).id = node.id := fun _ => rfl
    show Holds _ ((workspace.next (step.command id)).after _)
    rw [next_of_plainly (perform_step workspace id step) done]
    exact ih (holds.modify id step) editing ((contains_modify workspace keeps id id).trans live)

theorem rewrite (id : NodeId) (steps : List HeadChange) :
    Holds ((Change.rewrite id steps).write catalog)
      (workspace.after (Change.rewrite id steps).commands) := by
  unfold Change.write
  simp only
  rw [holds.contains]
  show Holds _ ((workspace.next (.beginEdit id)).after (steps.map (HeadChange.command id)))
  cases located : workspace.catalog.site? id with
  | none =>
    have refused : workspace.perform (.beginEdit id) = .error (.unknownNode id) := by
      unfold perform beginEdit
      simp only
      rw [editable_of_absent located]
      rfl
    have absent : workspace.catalog.contains id = false := by
      unfold Catalog.contains
      rw [located]
      rfl
    rw [next_of_error refused, steps_of_absent located, absent, if_neg Bool.false_ne_true]
    exact holds
  | some site =>
    have live : workspace.catalog.contains id = true :=
      Option.isSome_iff_exists.mpr ⟨site, located⟩
    rw [next_of_plainly rfl (beginEdit_of_live live (holds.stays id)), live, if_pos rfl]
    exact Holds.steps steps (holds.begun id) (isEditing_write workspace id _) (contains_begun live)

/-- **An edit does to what is written what it is said to do.** -/
theorem change (change : Change) :
    Holds (change.write catalog) (workspace.after change.commands) := by
  cases change with
  | load uri layer root => exact holds.load uri layer root
  | insert parent index element => exact holds.insert parent index element
  | rename id name => exact holds.rename id name
  | rewrite id steps => exact holds.rewrite id steps

/-- **A commit does nothing to what is written.** -/
theorem commit (coherent : workspace.Coherent) : Holds catalog (workspace.next .commit) := by
  cases opened : workspace.transaction with
  | none =>
    rw [next_commit_of_closed opened]
    exact holds
  | some transaction =>
    obtain ⟨course, runs, report, done⟩ := exists_run coherent opened
    have current : course.after.workspace.current = .empty := by
      unfold Workspace.current
      rw [runs.transaction_after]
      rfl
    rw [next_commit done]
    refine ⟨?_, ?_, ?_⟩
    · rw [written_of_commit done holds.deleted holds.unloaded, holds.written]
    · rw [current]
      rfl
    · rw [current]
      rfl

omit holds in
theorem changes (edits : List Change) : ∀ {catalog : Catalog} {workspace : Workspace},
    Holds catalog workspace → Holds (edits.foldl Change.write catalog)
      (workspace.after (edits.flatMap Change.commands)) := by
  induction edits with
  | nil => exact fun holds => holds
  | cons edit edits ih =>
    intro catalog workspace holds
    rw [List.flatMap_cons, after_append]
    exact ih (holds.change edit)

omit holds in
/-- **What is written after all groups does not depend on where they end.** -/
theorem grouped (groups : List (List Change)) : ∀ {catalog : Catalog} {workspace : Workspace},
    workspace.Coherent → Holds catalog workspace →
      Holds (groups.flatten.foldl Change.write catalog) (workspace.after (grouped groups)) := by
  induction groups with
  | nil => exact fun _ holds => holds
  | cons group groups ih =>
    intro catalog workspace coherent holds
    have edited := holds.changes group
    have later := coherent.after (group.flatMap Change.commands)
    rw [List.flatten_cons, List.foldl_append, EntityModel.grouped, List.flatMap_cons, after_append,
      after_append]
    exact ih (later.next .commit) (edited.commit later)

end Holds

/-! ### The end of a run -/

theorem Coherent.closed_next_commit {workspace : Workspace} (coherent : workspace.Coherent) :
    (workspace.next .commit).transaction = none := by
  cases opened : workspace.transaction with
  | none =>
    rw [next_commit_of_closed opened]
    exact opened
  | some transaction =>
    obtain ⟨course, runs, report, done⟩ := exists_run coherent opened
    rw [next_commit done]
    exact runs.transaction_after

/-- No transaction is open after a group. -/
theorem Coherent.closed_grouped (groups : List (List Change)) : ∀ {workspace : Workspace},
    workspace.Coherent → workspace.transaction = none →
      (workspace.after (grouped groups)).transaction = none := by
  induction groups with
  | nil => exact fun _ closed => closed
  | cons group groups ih =>
    intro workspace coherent _
    have later := coherent.after (group.flatMap Change.commands)
    rw [grouped, List.flatMap_cons, after_append, after_append]
    exact ih (later.next .commit) later.closed_next_commit

/-- The workspaces have the same documents, node by node with all that is known of it, and tell the
same; no transaction is open. -/
structure Coincides (first second : Workspace) : Prop where
  documents : second.catalog.documents = first.catalog.documents
  nextDocument : second.catalog.nextDocument = first.catalog.nextDocument
  nextNode : second.catalog.nextNode = first.catalog.nextNode
  agrees : first.Agrees second
  closed : first.transaction = none ∧ second.transaction = none

/-- Where everything is up to date, all that is known is told by what is written. -/
theorem coincides_of_written {first second : Workspace} (tended : first.Tended)
    (twin : second.Tended) (closed : first.transaction = none ∧ second.transaction = none)
    (options : second.options = first.options)
    (same : second.catalog.written = first.catalog.written) : first.Coincides second := by
  have settled := tended.current.settled tended.coherent tended.rebinds closed.1
  have other := twin.current.settled twin.coherent twin.rebinds closed.2
  have twins : Twins id first second := by
    refine ⟨?_, options⟩
    have rows := congrArg Catalog.rows same
    rw [Catalog.rows_written, Catalog.rows_written] at rows
    exact rows
  have agrees := twins.agrees settled other tended.coherent.toSound twin.coherent.toSound
  refine ⟨?_, congrArg (fun catalog => catalog.nextDocument) same,
    congrArg (fun catalog => catalog.nextNode) same, agrees, closed⟩
  exact Catalog.documents_eq tended.coherent.numbered twin.coherent.numbered same agrees.node?

end Workspace

theorem plain_of_grouped {groups : List (List Change)} :
    ∀ command ∈ grouped groups, command.isTransactional = true := by
  intro command member
  obtain ⟨group, _, listed⟩ := List.mem_flatMap.mp member
  rcases List.mem_append.mp listed with made | commit
  · obtain ⟨change, _, own⟩ := List.mem_flatMap.mp made
    cases change with
    | load uri layer root => rw [List.mem_singleton.mp own]; rfl
    | insert parent index element => rw [List.mem_singleton.mp own]; rfl
    | rename id name => rw [List.mem_singleton.mp own]; rfl
    | rewrite id steps =>
      rcases List.mem_cons.mp own with rfl | later
      · rfl
      · obtain ⟨step, _, rfl⟩ := List.mem_map.mp later
        rcases step with ⟨name, value⟩ | ⟨name⟩ | ⟨text⟩
        · rfl
        · rfl
        · rfl
  · rw [List.mem_singleton.mp commit]
    rfl

/-- **How edits are grouped into commits does not matter.** From every committed state of a history
of transactions, edits that remove nothing lead to the same documents with the same contents, symbols,
slots, dependencies and findings, wherever commits are put between them. -/
theorem regrouped_after {options : Options} (rebinds : options.rebindWaiting = true)
    {history : List Command} (plain : ∀ command ∈ history, command.isTransactional = true)
    (closed : ((Workspace.ofOptions options).after history).transaction = none)
    {groups others : List (List Change)} (same : groups.flatten = others.flatten) :
    (((Workspace.ofOptions options).after history).after (grouped groups)).Coincides
      (((Workspace.ofOptions options).after history).after (grouped others)) := by
  have tended := Workspace.tended_after rebinds plain
  generalize (Workspace.ofOptions options).after history = start at tended closed
  have holds : Workspace.Holds start.catalog.written start := by
    have current : start.current = .empty := by
      unfold Workspace.current
      rw [closed]
      rfl
    exact ⟨rfl, by rw [current]; rfl, by rw [current]; rfl⟩
  obtain ⟨first, firstOptions⟩ := tended.after_commands (@plain_of_grouped groups)
  obtain ⟨second, secondOptions⟩ := tended.after_commands (@plain_of_grouped others)
  refine Workspace.coincides_of_written first second
    ⟨tended.coherent.closed_grouped groups closed, tended.coherent.closed_grouped others closed⟩
    (secondOptions.trans firstOptions.symm) ?_
  rw [(holds.grouped others tended.coherent).written,
    (holds.grouped groups tended.coherent).written, same]

/-- A schema with a type and a set of it. -/
def stockSchema : Change :=
  .load "stock.edmx" .conceptual
    (.node { Head.ofTag "Schema" with attributes := .ofList [("Namespace", "Stock")] }
      [.node { Head.ofTag "EntityType" with attributes := .ofList [("Name", "Item")] } [],
        .node { Head.ofTag "EntityContainer" with attributes := .ofList [("Name", "Shelf")] }
          [.node { Head.ofTag "EntitySet" with
            attributes := .ofList [("Name", "Items"), ("EntityType", "Stock.Item")] } []]])

/-- The type is renamed, another one is planted in front of it under its old name, and the set is
made one of the renamed type. -/
def stockEdits : List Change :=
  [.rename ⟨1⟩ "Article",
    .insert ⟨0⟩ (some 0)
      (.node { Head.ofTag "EntityType" with attributes := .ofList [("Name", "Item")] } []),
    .rewrite ⟨3⟩ [.setAttribute "EntityType" "Stock.Article"]]

/-- With a commit after every edit the type of the set is lost, found in the planted one, and found
again. -/
theorem regrouped_stockEdits :
    (((Workspace.ofOptions .standard).after (grouped [[stockSchema]])).after
        (grouped [stockEdits])).Coincides
      (((Workspace.ofOptions .standard).after (grouped [[stockSchema]])).after
        (grouped (stockEdits.map fun edit => [edit]))) :=
  regrouped_after rfl plain_of_grouped
    ((Workspace.coherent_ofOptions .standard).closed_grouped [[stockSchema]] rfl) (by rfl)

end EntityModel
