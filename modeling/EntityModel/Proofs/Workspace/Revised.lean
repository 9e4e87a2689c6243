import EntityModel.Proofs.Naming.Scopes
import EntityModel.Proofs.Workspace.Tended
import EntityModel.Proofs.Workspace.Writes

/-
**A commit after values have been written.**

* `Row.ContentRead.references`, `.shortName?` — what is known of a node that is read, in terms of its
  attributes.
* `renameAll` — nodes are renamed one after the other, each with the references to it;
  `overwritten_renameAll` says what that writes.
* `Revised` — one steady workspace without waiting edits is another one with values written;
  `exists_revised` — **this is what a commit makes of written values**, and it does not fail.
-/

namespace EntityModel

/-! ### What is read of the attributes -/

namespace Row.ContentRead

variable {row : Row} (read : row.ContentRead)

include read

theorem references : row.node.references.map (fun reference =>
      Reference.written reference.rule reference.text) =
    row.node.kind.references.map fun rule =>
      .written rule (row.node.head.attribute? rule.role) := by
  obtain ⟨content, same, written⟩ := read.exists_content
  have references := congrArg Content.references written
  rw [Node.references, same]
  exact references

/-- A reference that is held has a rule of the kind of the node, and the text of its attribute. -/
theorem of_mem {reference : Reference} (member : reference ∈ row.node.references) :
    reference.rule ∈ row.node.kind.references ∧
      reference.text = row.node.head.attribute? reference.role := by
  have listed := List.mem_map_of_mem
    (f := fun reference => Reference.written reference.rule reference.text) member
  rw [read.references] at listed
  obtain ⟨rule, inside, same⟩ := List.mem_map.mp listed
  obtain ⟨rfl, text, _⟩ := (Reference.mk.injEq ..).mp same
  exact ⟨inside, text.symm⟩

/-- Every rule of the kind has its reference. -/
theorem exists_reference {rule : ReferenceRule} (listed : rule ∈ row.node.kind.references) :
    ∃ reference ∈ row.node.references, reference.rule = rule ∧
      reference.text = row.node.head.attribute? rule.role := by
  have member := List.mem_map_of_mem
    (f := fun rule => Reference.written rule (row.node.head.attribute? rule.role)) listed
  rw [← read.references] at member
  obtain ⟨reference, inside, same⟩ := List.mem_map.mp member
  obtain ⟨rule, text, _⟩ := (Reference.mk.injEq ..).mp same
  exact ⟨reference, inside, rule, text⟩

theorem roles : (row.node.references.map Reference.role).Nodup := by
  have same := congrArg (List.map Reference.role) read.references
  rw [List.map_map, List.map_map] at same
  have nodup := Kind.nodup_roles row.node.kind
  rw [show row.node.references.map Reference.role =
    row.node.kind.references.map ReferenceRule.role from same]
  exact nodup

theorem reference?_of_mem {reference : Reference} (member : reference ∈ row.node.references) :
    row.node.reference? reference.role = some reference := by
  cases found : row.node.reference? reference.role with
  | none =>
    exact absurd (decide_eq_true rfl) (List.find?_eq_none.mp found reference member)
  | some other =>
    have inside := List.mem_of_find?_eq_some found
    have role : other.role = reference.role := by simpa using List.find?_some found
    exact congrArg some (List.inj_on_of_nodup_map read.roles inside member role)

/-- The first text of a reference that is held. -/
theorem firstText?_of_mem (separator : Char) {reference : Reference}
    (member : reference ∈ row.node.references) : row.node.firstText? separator reference.role =
      (reference.texts separator).find? fun text => !text.isEmpty := by
  rw [Node.firstText?, read.reference?_of_mem member, Option.bind_some]

/-- The first text of a reference, from the attribute that holds it. -/
theorem firstText? (separator : Char) {rule : ReferenceRule}
    (listed : rule ∈ row.node.kind.references) : row.node.firstText? separator rule.role =
      ((Reference.written rule (row.node.head.attribute? rule.role)).texts separator).find?
        fun text => !text.isEmpty := by
  obtain ⟨reference, member, rfl, text⟩ := read.exists_reference listed
  have texts : reference.texts separator = (Reference.written reference.rule
      (row.node.head.attribute? reference.rule.role)).texts separator := by
    unfold Reference.texts
    rw [← text]
    rfl
  rw [← texts]
  exact read.firstText?_of_mem separator member

theorem shortName?_of_schema (schema : row.node.kind = .schema) : row.node.shortName? =
    (row.node.head.attribute? "Alias").filter fun text => !Text.isBlank text := by
  obtain ⟨content, same, written⟩ := read.exists_content
  have fields : content.fields = .schema ((row.node.head.attribute? "Alias").filter fun text =>
      !Text.isBlank text) := by
    have read := congrArg Content.fields written
    have kind : row.source.kind = .schema := schema
    unfold Content.read Source.fields at read
    rw [kind] at read
    exact read
  rw [Node.shortName?, same]
  rcases content with ⟨_, _, _⟩
  obtain rfl := fields
  rfl

theorem shortName?_of_ne (other : row.node.kind ≠ .schema) : row.node.shortName? = none := by
  obtain ⟨content, same, written⟩ := read.exists_content
  have fields : ∀ shortName, content.fields ≠ .schema shortName := by
    intro shortName isSchema
    have read := congrArg Content.fields written
    have kind : row.source.kind ≠ .schema := other
    have fields : content.written.fields = .schema shortName := isSchema
    rw [fields] at read
    unfold Content.read Source.fields at read
    revert read kind
    cases row.source.kind <;> intro read kind
    case schema => exact kind rfl
    case condition => exact nomatch read
    all_goals exact nomatch read
  rw [Node.shortName?, same]
  rcases content with ⟨_, _, contentFields⟩
  cases contentFields with
  | schema shortName => exact absurd rfl (fields shortName)
  | _ => rfl

end Row.ContentRead

namespace Workspace

/-! ### A steady workspace in which no edits wait -/

theorem current_of_closed {workspace : Workspace} (closed : workspace.transaction = none) :
    workspace.current = .empty := by
  rw [current, closed]
  rfl

section Idle

variable {workspace : Workspace} (steady : workspace.Steady) (idle : workspace.current = .empty)
  {row : Row} (member : row ∈ workspace.catalog.rows)

include idle

theorem isPendingDelete_of_idle (id : NodeId) : workspace.isPendingDelete id = false := by
  unfold isPendingDelete
  rw [idle, List.any_eq_false]
  intro each _
  simp [Transaction.empty, OrderedSet.mem_iff, OrderedSet.empty]

theorem standing_of_idle (row : Row) : workspace.Standing row := by
  unfold Standing
  rw [idle]
  exact fun root planted => absurd planted List.not_mem_nil

include steady member

theorem Steady.symbol : row.node.symbol = row.declaredSymbol? :=
  steady.current.symbols row member (standing_of_idle idle row)

theorem Steady.lasting {reference : Reference} (inside : reference ∈ row.node.references) :
    workspace.Lasting row.id reference :=
  steady.current.lasting row member (standing_of_idle idle row) reference inside

theorem Steady.read : row.ContentRead := by
  refine steady.current.read row member (standing_of_idle idle row) ?_
  rw [idle]
  exact List.not_mem_nil

end Idle

/-- After a commit of a history of transactions the symbols that are stored are those that the nodes
declare. -/
theorem symbol_of_commit {options : Options} {commands : List Command}
    (plain : ∀ command ∈ commands, command.isTransactional = true) {after : Workspace}
    {report : Report} (done : ((ofOptions options).after commands).commit = .ok (after, report))
    {site : Site} (live : site ∈ after.catalog.sites) :
    site.node.symbol = site.declaredSymbol? := by
  obtain ⟨steady, closed⟩ := (steady_after options plain).commit done
  exact steady.symbol (current_of_closed closed) (row_of_site live)

/-! ### Renaming several nodes -/

/-- Nodes are renamed one after the other, each with the references to it. -/
def renameAll (workspace : Workspace) (names : List (NodeId × String)) :
    Except WorkspaceError Workspace :=
  names.foldlM
    (fun workspace change => (workspace.renameWithReferences change.1 change.2).map Prod.fst)
    workspace

/-- The values that this writes. -/
def renamingWrites (workspace : Workspace) (names : List (NodeId × String)) : List Write :=
  names.flatMap fun change => workspace.renameWrites change.1 change.2

section Renaming

variable {fits : Site → Element → Prop}

theorem edits_renameAll {names : List (NodeId × String)} {workspace after : Workspace}
    (done : workspace.renameAll names = .ok after) : Edits fits workspace after := by
  refine @steps_of_foldlM _ _ _ (Edit fits) id _ _ (fun state item next _ taken => ?_) _ _ done
  obtain ⟨⟨changed, written⟩, renamed, rfl⟩ := map_eq_ok.mp taken
  exact edits_renameWithReferences renamed

/-- The nodes renamed are there and have names. -/
def Nameable (workspace : Workspace) (id : NodeId) : Prop :=
  ∃ row ∈ workspace.catalog.rows, row.id = id ∧ row.node.kind.nameAttribute?.isSome = true

theorem overwritten_renameAll (names : List (NodeId × String)) :
    ∀ {workspace after : Workspace}, workspace.renameAll names = .ok after →
      (∀ change ∈ names, workspace.Nameable change.1) ∧
        ∃ f, Overwritten (workspace.renamingWrites names) f workspace after := by
  induction names with
  | nil =>
    intro workspace after done
    obtain rfl : workspace = after := Except.ok.inj done
    exact ⟨fun _ member => absurd member List.not_mem_nil, id, .refl workspace⟩
  | cons change names ih =>
    intro workspace after done
    rw [renameAll, foldlM_cons_eq_ok] at done
    obtain ⟨next, taken, rest⟩ := done
    obtain ⟨⟨changed, written⟩, renamed, rfl⟩ := map_eq_ok.mp taken
    obtain ⟨⟨site, editable, named⟩, ⟨f, first⟩, _⟩ := overwritten_renameWithReferences renamed
    obtain ⟨there, g, others⟩ := ih rest
    have located := (editable_eq_ok.mp editable).1
    obtain ⟨member, number⟩ := Catalog.mem_sites_of_site? located
    refine ⟨fun other listed => ?_, g ∘ f, ?_⟩
    · rcases List.mem_cons.mp listed with rfl | later
      · exact ⟨site.row, row_of_site member, number, named⟩
      · obtain ⟨row, inside, same, hasName⟩ := there other later
        obtain ⟨earlier, before, rfl⟩ := first.reworked.mem_rows.mp inside
        refine ⟨earlier, before, (first.revises.sameId earlier.node).symm.trans same, ?_⟩
        rw [show (earlier.map f).node.kind = earlier.node.kind from
          first.revises.sameKind earlier.node] at hasName
        exact hasName
    · have same : Workspace.renamingWrites changed names = workspace.renamingWrites names := by
        unfold Workspace.renamingWrites
        exact List.flatMap_congr fun other _ => first.renameWrites other.1 other.2
      rw [same] at others
      rw [Workspace.renamingWrites, List.flatMap_cons]
      exact first.trans others

end Renaming

/-! ### The commit -/

/-- One steady workspace without waiting edits is another one with the values written; the
references of the nodes they are written for have been evaluated. -/
structure Revised (writes : List Write) (f : Node → Node) (before after : Workspace) : Prop where
  earlier : before.Steady
  later : after.Steady
  idle : before.current = .empty
  idleAfter : after.current = .empty
  rows : after.catalog.rows = before.catalog.rows.map (Row.map f)
  options : after.options = before.options
  sameId : ∀ node, (f node).id = node.id
  sameKind : ∀ node, (f node).kind = node.kind
  holds : ∀ node key,
    (f node).head.attribute? key = written writes node.id key (node.head.attribute? key)
  answers : ∀ row ∈ before.catalog.rows, (∃ write ∈ writes, write.node = row.id) →
    ∀ reference ∈ (f row.node).references,
      reference.answer = some (after.evaluate row.id reference).slots

theorem Overwritten.inTransaction {writes : List Write} {f : Node → Node}
    {before after : Workspace} (overwritten : Overwritten writes f before after) {write : Write}
    (member : write ∈ writes) : after.inTransaction = true := by
  have edited := (overwritten.edited write.node).mpr (Or.inr ⟨write, member, rfl⟩)
  unfold Workspace.inTransaction
  cases opened : after.transaction with
  | some => rfl
  | none =>
    rw [current_of_closed opened] at edited
    exact absurd edited List.not_mem_nil

/-- **A commit after values have been written** makes them count, and does not fail. -/
theorem exists_revised {writes : List Write} {workspace edited : Workspace} {f : Node → Node}
    (steady : workspace.Steady) (idle : workspace.current = .empty)
    (steadyEdited : edited.Steady) (overwritten : Overwritten writes f workspace edited)
    (opened : edited.inTransaction = true) : ∃ g after report,
      edited.commit = .ok (after, report) ∧ Revised writes g workspace after := by
  obtain ⟨transaction, isOpen⟩ := Option.isSome_iff_exists.mp opened
  obtain ⟨course, runs, report, done⟩ := exists_run steadyEdited.coherent isOpen
  obtain ⟨after, closed⟩ := steadyEdited.commit done
  have current := current_of_transaction isOpen
  have none : transaction.deleted.items = [] := by
    rw [← current, overwritten.deleted, idle]
    rfl
  have everything : course.cleared.workspace.catalog.rows = edited.catalog.rows := by
    rw [runs.removal.rows, none]
    exact List.filter_eq_self.mpr fun _ _ => rfl
  have changed : course.after.workspace.catalog.rows =
      workspace.catalog.rows.map (Row.map (course.change ∘ f)) := by
    rw [runs.reworked.rows, everything, overwritten.reworked.rows, List.map_map]
    exact List.map_congr_left fun row _ => Row.map_map ..
  refine ⟨course.change ∘ f, course.after.workspace, report, done, steady, after, idle,
    current_of_closed closed, changed, ?_, ?_, ?_, ?_, ?_⟩
  · rw [runs.options_after, overwritten.options]
  · exact fun node => (course.inPlace_change.sameId _).trans (overwritten.revises.sameId node)
  · exact fun node => (course.inPlace_change.sameKind _).trans (overwritten.revises.sameKind node)
  · intro node key
    rw [Function.comp_apply, course.inPlace_change.sameHead]
    exact overwritten.revises.holds node key
  · rintro row member ⟨write, listed, same⟩ reference inside
    have number : (row.map f).id = row.id := overwritten.revises.sameId row.node
    have live : row.map f ∈ course.cleared.workspace.catalog.rows :=
      everything ▸ overwritten.reworked.map_mem member
    have busy : (row.map f).id ∈ course.work ++ course.rebound := by
      refine List.mem_append_left _ (runs.work_of_reread (runs.mem_reread.mpr ⟨_, live, rfl, Or.inl ?_⟩))
      rw [number, ← current]
      exact (overwritten.edited row.id).mpr (Or.inr ⟨write, listed, same⟩)
    have upToDate := runs.upToDate_busy isOpen steadyEdited.current live busy
    have answer := upToDate.answers reference inside
    rw [show ((row.map f).map course.change).id = row.id from
      (course.inPlace_change.sameId _).trans number] at answer
    exact answer

end Workspace

end EntityModel
