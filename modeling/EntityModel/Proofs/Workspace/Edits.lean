import Mathlib.Logic.Relation
import EntityModel.Proofs.Results
import EntityModel.Workspace.Command

/-
**Edits as steps.**

Between two commits a workspace changes by a handful of steps, whatever command makes them: a
transaction is opened, the written form of a node changes, a tree is planted, a document or a node is
marked for removal.

* `Edit` — one such step; `Edits` — any number of them. `fits` restricts what may be inserted where.
* `renameNode_eq_ok`, `writeText_cases`, … — what a call did that went well.
* `edits_of_perform` — every command that only edits makes such steps, renaming with all references
  and the opening of a rebuild included.
* `Command.isEdit` — the commands that only edit.
-/

namespace EntityModel

/-- The command changes only the transaction, the trees and the written forms. -/
def Command.isEdit : Command → Bool
  | .load .. | .unload _ | .beginTransaction | .beginEdit _ | .setAttribute .. | .removeAttribute ..
  | .setText .. | .insertElement .. | .deleteNode _ | .renameNode .. | .renameWithReferences .. => true
  | .commit | .rebuild | .parse _ | .normalize _ | .resolve _ | .rebind _ => false

/-- The heads have the local name and the place of the start tag in common. -/
structure Head.SameStart (head other : Head) : Prop where
  tag : head.tag = other.tag
  span : head.span = other.span

/-- The change writes another head with the same start, and may take the node back to its written
form. -/
def Rewrites (change : Node → Node) : Prop :=
  ∀ node, ∃ head stage, Head.SameStart head node.head ∧ (stage = node.stage ∨ stage = .unparsed) ∧
    change node = { node with head, stage }

namespace Workspace

/-- A node is being edited and its written form changes. -/
def write (workspace : Workspace) (id : NodeId) (change : Node → Node) : Workspace :=
  (workspace.changeTransaction fun transaction =>
    { transaction with edited := transaction.edited.insert id }).modify id change

/-- An element is planted below a node. -/
def insertAtSite (workspace : Workspace) (site : Site) (index : Option Nat) (element : Element) :
    Workspace :=
  { workspace with
      catalog := (workspace.catalog.insertUnder site index element).1 }.changeTransaction
    fun transaction =>
      { transaction with
        inserted := transaction.inserted.insert
          (workspace.catalog.insertUnder site index element).2 }

/-- A document is marked for removal. -/
def markDocument (workspace : Workspace) (document : Document) : Workspace :=
  workspace.changeTransaction fun transaction =>
    { transaction with
      deleted := transaction.deleted.insertAll
        (document.root.map fun tree => tree.label.id).toList
      unloaded := transaction.unloaded ++ [document.id] }

/-- A node is marked for removal. -/
def markNode (workspace : Workspace) (id : NodeId) : Workspace :=
  workspace.changeTransaction fun transaction =>
    { transaction with deleted := transaction.deleted.insert id }

/-- One step between two commits. -/
inductive Edit (fits : Site → Element → Prop) : Workspace → Workspace → Prop where
  | open {workspace : Workspace} (closed : workspace.transaction = none) :
      Edit fits workspace { workspace with transaction := some .empty }
  | write {workspace : Workspace} {id : NodeId} {change : Node → Node}
      (rewrites : Rewrites change) : Edit fits workspace (workspace.write id change)
  | load {workspace : Workspace} (uri : String) (layer : Layer) (root : Element) :
      Edit fits workspace (workspace.load uri layer root).1
  | insert {workspace : Workspace} {site : Site} {index : Option Nat} {element : Element}
      (member : site ∈ workspace.catalog.sites) (fit : fits site element) :
      Edit fits workspace (workspace.insertAtSite site index element)
  | unload {workspace : Workspace} {document : Document}
      (member : document ∈ workspace.catalog.documents) :
      Edit fits workspace (workspace.markDocument document)
  | delete {workspace : Workspace} {site : Site} (member : site ∈ workspace.catalog.sites) :
      Edit fits workspace (workspace.markNode site.id)

/-- Any number of steps between two commits. -/
def Edits (fits : Site → Element → Prop) : Workspace → Workspace → Prop :=
  Relation.ReflTransGen (Edit fits)

/-! ### Peeling calls apart -/

theorem site_eq_ok {workspace : Workspace} {id : NodeId} {site : Site} :
    workspace.site id = .ok site ↔ workspace.catalog.site? id = some site := by
  unfold Workspace.site
  cases workspace.catalog.site? id with
  | none => simp
  | some found => simp

theorem editable_eq_ok {workspace : Workspace} {id : NodeId} {site : Site} :
    workspace.editable id = .ok site ↔
      workspace.catalog.site? id = some site ∧ workspace.isPendingDelete id = false := by
  unfold editable
  rw [bind_eq_ok]
  constructor
  · rintro ⟨found, located, checked⟩
    rw [site_eq_ok] at located
    cases pending : workspace.isPendingDelete id with
    | true => simp [pending] at checked
    | false =>
      rw [pending] at checked
      obtain rfl : found = site := by simpa using checked
      exact ⟨located, rfl⟩
  · rintro ⟨located, kept⟩
    refine ⟨site, site_eq_ok.mpr located, ?_⟩
    rw [kept]
    rfl

theorem renameNode_eq_ok {workspace after : Workspace} {id : NodeId} {name : String} :
    workspace.renameNode id name = .ok after ↔ ∃ site key opened,
      workspace.editable id = .ok site ∧ site.node.kind.nameAttribute? = some key ∧
        workspace.beginEdit id = .ok opened ∧ opened.setAttribute id key name = .ok after := by
  unfold renameNode
  rw [bind_eq_ok]
  refine exists_congr fun site => ?_
  cases site.node.kind.nameAttribute? with
  | none => simp
  | some key =>
    rw [bind_eq_ok]
    simp

/-- A text is left out with its owner, or it is written, and the owner begins to be edited before
that if it was not edited yet. -/
theorem writeText_cases {state next : Workspace × List ReferenceId} {change : ReferenceId × String}
    (done : writeText state change = .ok next) :
    (state.1.isPendingDelete change.1.owner = true ∧ next = state) ∨
      (state.1.isPendingDelete change.1.owner = false ∧ next.2 = state.2 ++ [change.1] ∧
        (state.1.setAttribute change.1.owner change.1.role change.2 = .ok next.1 ∨
          ∃ opened, state.1.beginEdit change.1.owner = .ok opened ∧
            opened.setAttribute change.1.owner change.1.role change.2 = .ok next.1)) := by
  rcases state with ⟨workspace, written⟩
  rcases change with ⟨id, text⟩
  unfold writeText at done
  simp only at done
  cases pending : workspace.isPendingDelete id.owner with
  | true =>
    rw [pending] at done
    exact Or.inl ⟨rfl, (Except.ok.inj done).symm⟩
  | false =>
    rw [pending, if_neg Bool.false_ne_true] at done
    refine Or.inr ⟨rfl, ?_⟩
    cases editing : workspace.isEditing id.owner with
    | true =>
      rw [editing, if_pos rfl] at done
      obtain ⟨opened, kept, rest⟩ := bind_eq_ok.mp done
      obtain rfl : workspace = opened := Except.ok.inj kept
      obtain ⟨changed, set, same⟩ := bind_eq_ok.mp rest
      obtain rfl : (changed, written ++ [id]) = next := Except.ok.inj same
      exact ⟨rfl, Or.inl set⟩
    | false =>
      rw [editing, if_neg Bool.false_ne_true] at done
      obtain ⟨opened, began, rest⟩ := bind_eq_ok.mp done
      obtain ⟨changed, set, same⟩ := bind_eq_ok.mp rest
      obtain rfl : (changed, written ++ [id]) = next := Except.ok.inj same
      exact ⟨rfl, Or.inr ⟨opened, began, set⟩⟩

/-- A loop whose every turn takes steps takes steps. -/
theorem steps_of_foldlM {ε σ α : Type} {Step : Workspace → Workspace → Prop}
    {view : σ → Workspace} {turn : σ → α → Except ε σ} {items : List α}
    (each : ∀ state item next, item ∈ items → turn state item = .ok next →
      Relation.ReflTransGen Step (view state) (view next)) {state last : σ}
    (ran : items.foldlM turn state = .ok last) :
    Relation.ReflTransGen Step (view state) (view last) :=
  @related_of_foldlM _ _ _ turn
    (fun state next => Relation.ReflTransGen Step (view state) (view next)) (fun _ => .refl)
    Relation.ReflTransGen.trans _ (fun state item inside next => each state item next inside) _ _ ran

/-! ### The commands -/

section Steps

variable {fits : Site → Element → Prop} {workspace after : Workspace}

theorem rewrites_begin : Rewrites fun node => { node with stage := .unparsed } :=
  fun node => ⟨node.head, .unparsed, ⟨rfl, rfl⟩, Or.inr rfl, rfl⟩

theorem edits_beginEdit {id : NodeId} (done : workspace.beginEdit id = .ok after) :
    Edits fits workspace after := by
  unfold beginEdit at done
  obtain ⟨site, _, same⟩ := bind_eq_ok.mp done
  obtain rfl : workspace.write id _ = after := Except.ok.inj same
  exact .single (.write rewrites_begin)

theorem edits_unload {id : DocumentId} (done : workspace.unload id = .ok after) :
    Edits fits workspace after := by
  unfold unload at done
  cases found : workspace.catalog.document? id with
  | none => simp [found] at done
  | some document =>
    rw [found] at done
    have number : document.id = id := by simpa using List.find?_some found
    obtain rfl : workspace.markDocument document = after := by
      rw [← Except.ok.inj done, markDocument, number]
    exact .single (.unload (List.mem_of_find?_eq_some found))

theorem edits_beginTransaction (done : workspace.beginTransaction = .ok after) :
    Edits fits workspace after := by
  unfold beginTransaction inTransaction at done
  cases closed : workspace.transaction with
  | some transaction => simp [closed] at done
  | none =>
    rw [closed] at done
    obtain rfl : ({ workspace with transaction := some .empty } : Workspace) = after :=
      Except.ok.inj done
    exact .single (.open closed)

theorem edits_insertElement {parent : NodeId} {index : Option Nat} {element : Element}
    {child : NodeId} (done : workspace.insertElement parent index element = .ok (after, child))
    (fit : ∀ site, workspace.editable parent = .ok site → fits site element) :
    Edits fits workspace after := by
  unfold insertElement at done
  obtain ⟨site, editable, planted⟩ := bind_eq_ok.mp done
  have located := (editable_eq_ok.mp editable).1
  obtain rfl : workspace.insertAtSite site index element = after :=
    congrArg Prod.fst (Except.ok.inj planted)
  exact .single (.insert (List.mem_of_find?_eq_some located) (fit site editable))

theorem edits_deleteNode {id : NodeId} (done : workspace.deleteNode id = .ok after) :
    Edits fits workspace after := by
  unfold deleteNode at done
  obtain ⟨site, located, same⟩ := bind_eq_ok.mp done
  have found := site_eq_ok.mp located
  obtain rfl : site.id = id := by simpa using List.find?_some found
  obtain rfl : workspace.markNode site.id = after := Except.ok.inj same
  exact .single (.delete (List.mem_of_find?_eq_some found))

/-- The head of a node that is being edited changes: editing it again changes nothing else. -/
theorem edits_changeHead {id : NodeId} {change : Head → Head}
    (done : workspace.changeHead id change = .ok after)
    (start : ∀ head, (change head).SameStart head) : Edits fits workspace after := by
  unfold changeHead at done
  cases editing : workspace.isEditing id with
  | false => simp [editing] at done
  | true =>
    rw [editing] at done
    obtain ⟨site, _, same⟩ := bind_eq_ok.mp done
    have member : id ∈ workspace.current.edited := of_decide_eq_true editing
    have same : workspace.write id (fun node => { node with head := change node.head }) = after := by
      rw [← Except.ok.inj same, write]
      congr 1
      have again : workspace.current.edited.insert id = workspace.current.edited := dif_pos member
      unfold changeTransaction
      simp only [again]
      rcases workspace with ⟨options, catalog, ledger, transaction⟩
      cases transaction with
      | none => exact absurd member List.not_mem_nil
      | some transaction => rfl
    rw [← same]
    exact .single (.write fun node => ⟨change node.head, node.stage, start node.head, Or.inl rfl, rfl⟩)

theorem edits_setAttribute {id : NodeId} {name value : String}
    (done : workspace.setAttribute id name value = .ok after) : Edits fits workspace after :=
  edits_changeHead done fun _ => ⟨rfl, rfl⟩

theorem edits_renameNode {id : NodeId} {name : String}
    (done : workspace.renameNode id name = .ok after) : Edits fits workspace after := by
  obtain ⟨_, _, _, _, _, began, written⟩ := renameNode_eq_ok.mp done
  exact (edits_beginEdit began).trans (edits_setAttribute written)

theorem edits_writeText {state next : Workspace × List ReferenceId} {change : ReferenceId × String}
    (done : writeText state change = .ok next) : Edits fits state.1 next.1 := by
  rcases writeText_cases done with ⟨_, rfl⟩ | ⟨_, _, set | ⟨opened, began, set⟩⟩
  · exact .refl
  · exact edits_setAttribute set
  · exact (edits_beginEdit began).trans (edits_setAttribute set)

theorem edits_renameWithReferences {id : NodeId} {name : String} {written : List ReferenceId}
    (done : workspace.renameWithReferences id name = .ok (after, written)) :
    Edits fits workspace after := by
  unfold renameWithReferences at done
  obtain ⟨renamed, began, rest⟩ := bind_eq_ok.mp done
  refine (edits_renameNode began).trans ?_
  exact @steps_of_foldlM _ _ _ (Edit fits) Prod.fst _ _
    (fun state item next _ taken => edits_writeText taken) _ _ rest

end Steps

/-- **Every command that only edits takes edit steps**, and inserts only what fits. -/
theorem edits_of_perform {fits : Site → Element → Prop} {workspace after : Workspace}
    {command : Command} {answer : Answer} (edit : command.isEdit = true)
    (done : workspace.perform command = .ok (after, answer))
    (fit : ∀ parent index element, command = .insertElement parent index element →
      ∀ site, workspace.editable parent = .ok site → fits site element) :
    Edits fits workspace after := by
  have plain : ∀ {result : Except WorkspaceError Workspace},
      plainly result = .ok (after, answer) → result = .ok after := by
    intro result same
    obtain ⟨value, returned, pair⟩ := map_eq_ok.mp same
    rw [returned, (Prod.mk.inj pair).1]
  cases command with
  | load uri layer root =>
    have same : (workspace.load uri layer root).1 = after :=
      congrArg Prod.fst (Except.ok.inj done)
    rw [← same]
    exact .single (.load uri layer root)
  | unload id => exact edits_unload (plain done)
  | beginTransaction => exact edits_beginTransaction (plain done)
  | beginEdit id => exact edits_beginEdit (plain done)
  | setAttribute id name value => exact edits_setAttribute (plain done)
  | removeAttribute id name => exact edits_changeHead (plain done) fun _ => ⟨rfl, rfl⟩
  | setText id text => exact edits_changeHead (plain done) fun _ => ⟨rfl, rfl⟩
  | insertElement parent index element =>
    obtain ⟨⟨changed, child⟩, inserted, same⟩ := map_eq_ok.mp done
    obtain rfl : changed = after := (Prod.mk.inj same).1
    exact edits_insertElement inserted (fit parent index element rfl)
  | deleteNode id => exact edits_deleteNode (plain done)
  | renameNode id name => exact edits_renameNode (plain done)
  | renameWithReferences id name =>
    obtain ⟨⟨changed, written⟩, renamed, same⟩ := map_eq_ok.mp done
    obtain rfl : changed = after := (Prod.mk.inj same).1
    exact edits_renameWithReferences renamed
  | commit => exact nomatch edit
  | rebuild => exact nomatch edit
  | parse id => exact nomatch edit
  | normalize id => exact nomatch edit
  | resolve id => exact nomatch edit
  | rebind id => exact nomatch edit

/-- A rebuild is a commit after every node has been taken back to its written form. -/
theorem edits_of_rebuild {fits : Site → Element → Prop} {workspace after : Workspace}
    {report : Report} (done : workspace.rebuild = .ok (after, report)) :
    ∃ edited, Edits fits workspace edited ∧ edited.commit = .ok (after, report) := by
  unfold rebuild at done
  obtain ⟨opened, began, rest⟩ := bind_eq_ok.mp done
  obtain ⟨edited, looped, committed⟩ := bind_eq_ok.mp rest
  refine ⟨edited, ?_, committed⟩
  have performed : workspace.perform .beginTransaction = .ok (opened, .done) := by
    show plainly workspace.beginTransaction = _
    rw [began]
    rfl
  have first : Edits fits workspace opened :=
    edits_of_perform rfl performed fun _ _ _ same => nomatch same
  exact first.trans (@steps_of_foldlM _ _ _ (Edit fits) id _ _
    (fun state item next _ taken => edits_beginEdit taken) _ _ looped)

end Workspace

end EntityModel
