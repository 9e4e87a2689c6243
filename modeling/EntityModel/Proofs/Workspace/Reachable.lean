import EntityModel.Proofs.Commit.Run
import EntityModel.Proofs.Workspace.Turns

/-
**What holds after every history of commands.**

* `coherent_after` — every workspace that commands lead to is coherent: refused commands, open
  transactions and single steps in the life of nodes included. `exists_committed` — where a
  transaction is open, the history goes on with a commit.
* `symbolIndex_after` — its symbol index holds the symbols of its nodes, and nothing else.
* `ledgerExact_after` — its ledger says what the slots kept with the nodes say, and speaks of nodes
  that are there.
-/

namespace EntityModel

namespace Workspace

/-! ### Coherence -/

section Commands

variable {workspace after : Workspace}

/-- A commit that succeeds has run its course. -/
theorem Coherent.runs_of_commit (coherent : workspace.Coherent) {report : Report}
    (done : workspace.commit = .ok (after, report)) :
    ∃ (transaction : Transaction) (course : Course), workspace.transaction = some transaction ∧
      course.Runs workspace.closed transaction ∧ course.after.workspace = after := by
  cases opened : workspace.transaction with
  | none =>
    unfold commit at done
    rw [opened] at done
    exact nomatch done
  | some transaction =>
    obtain ⟨course, runs, other, result⟩ := exists_run coherent opened
    rw [result] at done
    exact ⟨transaction, course, rfl, runs, (Prod.mk.inj (Except.ok.inj done)).1⟩

theorem Coherent.afterCommit (coherent : workspace.Coherent) {report : Report}
    (done : workspace.commit = .ok (after, report)) : after.Coherent := by
  obtain ⟨transaction, course, opened, runs, rfl⟩ := coherent.runs_of_commit done
  exact runs.coherent coherent opened

theorem Coherent.turn (coherent : workspace.Coherent) {fits : Site → Element → Prop}
    (turn : Turn fits workspace after) : after.Coherent := by
  cases turn with
  | edit edits => exact coherent.edits edits
  | commit edits done => exact (coherent.edits edits).afterCommit done
  | rebind member owner ready held => exact coherent.afterRebind member owner ready held

theorem Coherent.visit (coherent : workspace.Coherent) (visit : Visit workspace after) :
    after.Coherent := by
  cases visit with
  | parse member => exact coherent.afterParse member
  | normalize member => exact coherent.afterNormalize member
  | resolve member => exact coherent.afterResolve member

/-- **Every command keeps a workspace coherent.** -/
theorem Coherent.next (coherent : workspace.Coherent) (command : Command) :
    (workspace.next command).Coherent :=
  next_of_step coherent coherent.turn coherent.visit command

end Commands

theorem Coherent.after {workspace : Workspace} (coherent : workspace.Coherent)
    (commands : List Command) : (workspace.after commands).Coherent :=
  after_of_next (fun command _ coherent => coherent.next command) coherent

/-- What turns keep in coherent workspaces holds after histories of transactions. -/
theorem after_of_turn {property : Workspace → Prop} {commands : List Command}
    (plain : ∀ command ∈ commands, command.isTransactional = true)
    (turns : ∀ {workspace after : Workspace}, workspace.Coherent → property workspace →
      Turn (fun _ _ => True) workspace after → property after)
    {workspace : Workspace} (coherent : workspace.Coherent) (holds : property workspace) :
    property (workspace.after commands) := by
  have kept := @after_of_next (fun workspace => workspace.Coherent ∧ property workspace) commands
    fun command inside both => ⟨both.1.next command,
      next_of_turn (plain command inside) both.2 (turns both.1 both.2)⟩
  exact (kept ⟨coherent, holds⟩).2

/-- **Every history of commands leads to a coherent workspace.** -/
theorem coherent_after (options : Options) (commands : List Command) :
    ((ofOptions options).after commands).Coherent :=
  (coherent_ofOptions options).after commands

/-- A history that leaves a transaction open can be continued by a commit, which succeeds. -/
theorem exists_committed {options : Options} {commands : List Command}
    (opened : ((ofOptions options).after commands).transaction.isSome = true) :
    ∃ after report, ((ofOptions options).after commands).commit = .ok (after, report) ∧
      (ofOptions options).after (commands ++ [.commit]) = after := by
  obtain ⟨transaction, opens⟩ := Option.isSome_iff_exists.mp opened
  obtain ⟨course, _, report, done⟩ := exists_run (coherent_after options commands) opens
  exact ⟨_, report, done, (after_append _ _ _).trans (after_commit done)⟩

end Workspace

/-! ### The symbol index -/

namespace Catalog

/-- The symbol is not empty and the node with the number is there and has it. -/
def Declares (catalog : Catalog) (symbol : Symbol) (id : NodeId) : Prop :=
  symbol.isEmpty = false ∧ ∃ node, catalog.node? id = some node ∧ node.symbol = some symbol

theorem SymbolsExact.declares {catalog : Catalog} (exact : catalog.SymbolsExact) (symbol : Symbol)
    (id : NodeId) : (symbol, id) ∈ catalog.symbols ↔ catalog.Declares symbol id := by
  rw [exact symbol id, Option.bind_eq_some_iff]
  constructor
  · rintro ⟨node, held, declares⟩
    obtain ⟨same, real⟩ := Node.declared?_eq_some_iff.mp declares
    exact ⟨real, node, held, same⟩
  · rintro ⟨real, node, held, same⟩
    exact ⟨node, held, Node.declared?_eq_some_iff.mpr ⟨same, real⟩⟩

end Catalog

namespace Workspace

/-- The slot is kept for the reference of a node that is there. -/
def Keeps (workspace : Workspace) (id : ReferenceId) (slot : Slot) : Prop :=
  ∃ site ∈ workspace.catalog.sites, site.id = id.owner ∧
    ∃ reference ∈ site.node.references, reference.role = id.role ∧ slot ∈ reference.slots

/-- The ledger says what the slots say. -/
structure LedgerExact (workspace : Workspace) : Prop where
  referencers : ∀ target id, id ∈ workspace.ledger.referencers target ↔
    ∃ slot, workspace.Keeps id slot ∧ slot.target? = some target
  referencersOnce : ∀ target, (workspace.ledger.referencers target).Nodup
  waiting : ∀ symbol id, id ∈ workspace.ledger.waitingOn symbol ↔ ∃ slot, workspace.Keeps id slot ∧
    slot.isKnown = false ∧ slot.symbol = symbol ∧ symbol.isEmpty = false
  waitingOnce : ∀ symbol, (workspace.ledger.waitingOn symbol).Nodup
  /-- The targets are those of the slots, each at its first place. -/
  targets : ∀ id, workspace.ledger.targets id =
    (((workspace.reference? id).map Reference.targets).getD []).eraseDups
  keys : ∀ node id, (node, id) ∈ workspace.ledger.byTarget ∨ (node, id) ∈ workspace.ledger.byContext →
    workspace.catalog.contains node = true
  owners : ∀ id : ReferenceId, (∃ node, (node, id) ∈ workspace.ledger.byTarget) ∨
      (∃ node, (node, id) ∈ workspace.ledger.byContext) ∨
      (∃ symbol, (symbol, id) ∈ workspace.ledger.byDangling) ∨
      (∃ symbol, (symbol, id) ∈ workspace.ledger.byLookup) →
    workspace.catalog.contains id.owner = true
  /-- No slot leads to a node that is gone. -/
  live : ∀ id slot target, workspace.Keeps id slot → slot.target? = some target →
    workspace.catalog.contains target = true

section Exact

variable {workspace : Workspace} (coherent : workspace.Coherent)

include coherent

theorem Coherent.recorded_of_site {site : Site} (member : site ∈ workspace.catalog.sites)
    {reference : Reference} (owned : reference ∈ site.node.references) {id : ReferenceId}
    (owner : site.id = id.owner) (role : reference.role = id.role) :
    Recorded (workspace.ledger.dependencies id) reference.answer := by
  rcases id with ⟨_, _⟩
  obtain rfl := owner
  obtain rfl := role
  exact coherent.recorded site.row (row_of_site member) reference owned

/-- A reference with dependencies is kept with an answer, and its dependencies are those of the
answer. -/
theorem Coherent.answer_of_dependencies {id : ReferenceId}
    (recorded : workspace.ledger.dependencies id ≠ .none) :
    ∃ site ∈ workspace.catalog.sites, site.id = id.owner ∧
      ∃ reference ∈ site.node.references, reference.role = id.role ∧
        workspace.reference? id = some reference ∧
        Recorded (workspace.ledger.dependencies id) (some reference.slots) := by
  obtain ⟨reference, found⟩ := Option.isSome_iff_exists.mp (coherent.owners id recorded)
  obtain ⟨site, member, owner, owned, role⟩ := exists_site_of_reference found
  have kept := coherent.recorded_of_site member owned owner role
  refine ⟨site, member, owner, reference, owned, role, found, ?_⟩
  cases answer : reference.answer with
  | none =>
    rw [answer] at kept
    exact absurd kept recorded
  | some slots =>
    rw [answer] at kept
    rw [Reference.slots, answer]
    exact kept

/-- The dependencies of a reference with a slot are those of its answer. -/
theorem Coherent.recorded_of_keeps {id : ReferenceId} {slot : Slot}
    (keeps : workspace.Keeps id slot) : ∃ slots, slot ∈ slots ∧
      Recorded (workspace.ledger.dependencies id) (some slots) := by
  obtain ⟨site, member, owner, reference, owned, role, inside⟩ := keeps
  have kept := coherent.recorded_of_site member owned owner role
  unfold Reference.slots at inside
  cases answer : reference.answer with
  | none =>
    rw [answer] at inside
    exact absurd inside List.not_mem_nil
  | some slots =>
    rw [answer] at inside kept
    exact ⟨slots, inside, kept⟩

theorem Coherent.mem_targets {id : ReferenceId} {target : NodeId} :
    target ∈ (workspace.ledger.dependencies id).targets ↔
      ∃ slot, workspace.Keeps id slot ∧ slot.target? = some target := by
  constructor
  · intro depends
    obtain ⟨site, member, owner, reference, owned, role, _, targets, _⟩ :=
      coherent.answer_of_dependencies (Dependencies.ne_none_of_mem _ rfl depends)
    rw [targets, OrderedSet.mem_ofList, List.mem_filterMap] at depends
    obtain ⟨slot, inside, leads⟩ := depends
    exact ⟨slot, ⟨site, member, owner, reference, owned, role, inside⟩, leads⟩
  · rintro ⟨slot, keeps, leads⟩
    obtain ⟨slots, inside, targets, _⟩ := coherent.recorded_of_keeps keeps
    rw [targets, OrderedSet.mem_ofList]
    exact List.mem_filterMap.mpr ⟨slot, inside, leads⟩

theorem Coherent.mem_dangling {id : ReferenceId} {symbol : Symbol} :
    symbol ∈ (workspace.ledger.dependencies id).dangling ↔ ∃ slot, workspace.Keeps id slot ∧
      slot.isKnown = false ∧ slot.symbol = symbol ∧ symbol.isEmpty = false := by
  constructor
  · intro depends
    obtain ⟨site, member, owner, reference, owned, role, _, _, dangling⟩ :=
      coherent.answer_of_dependencies (Dependencies.ne_none_of_mem _ rfl depends)
    rw [dangling, OrderedSet.mem_ofList] at depends
    obtain ⟨slot, undefined, rfl⟩ := List.mem_map.mp depends
    obtain ⟨inside, waits⟩ := List.mem_filter.mp undefined
    rw [Bool.and_eq_true, Bool.not_eq_true', Bool.not_eq_true'] at waits
    exact ⟨slot, ⟨site, member, owner, reference, owned, role, inside⟩, waits.1, rfl, waits.2⟩
  · rintro ⟨slot, keeps, unknown, rfl, real⟩
    obtain ⟨slots, inside, _, dangling⟩ := coherent.recorded_of_keeps keeps
    rw [dangling, OrderedSet.mem_ofList]
    refine List.mem_map_of_mem (List.mem_filter.mpr ⟨inside, ?_⟩)
    rw [unknown, real]
    rfl

theorem Coherent.targets_eq (id : ReferenceId) : workspace.ledger.targets id =
    (((workspace.reference? id).map Reference.targets).getD []).eraseDups := by
  unfold Ledger.targets
  by_cases recorded : workspace.ledger.dependencies id = .none
  · rw [recorded]
    cases found : workspace.reference? id with
    | none => rfl
    | some reference =>
      have absent : reference.targets = [] := by
        refine List.eq_nil_iff_forall_not_mem.mpr fun target leads => ?_
        obtain ⟨slot, inside, known⟩ := List.mem_filterMap.mp leads
        obtain ⟨site, member, owner, owned, role⟩ := exists_site_of_reference found
        have keeps : workspace.Keeps id slot :=
          ⟨site, member, owner, reference, owned, role, inside⟩
        have depends := coherent.mem_targets.mpr ⟨slot, keeps, known⟩
        rw [recorded] at depends
        exact absurd depends List.not_mem_nil
      rw [Option.map_some, Option.getD_some, absent]
      rfl
  · obtain ⟨_, _, _, reference, _, _, found, targets, _⟩ :=
      coherent.answer_of_dependencies recorded
    rw [targets, OrderedSet.items_ofList, found]
    rfl

theorem Coherent.ledgerExact : workspace.LedgerExact := by
  have indexed := coherent.indexed
  have live : ∀ {α : Type} (part : Dependencies → OrderedSet α), part .none = .empty →
      ∀ {id : ReferenceId} {item : α}, item ∈ part (workspace.ledger.dependencies id) →
        workspace.catalog.contains id.owner = true :=
    fun part bare _ _ inside => coherent.contains_owner (Dependencies.ne_none_of_mem part bare inside)
  refine ⟨?_, ?_, ?_, ?_, coherent.targets_eq, ?_, ?_, ?_⟩
  · exact fun target id => (Ledger.mem_referencers indexed).trans coherent.mem_targets
  · exact fun target => Ledger.nodup_sorted _
  · exact fun symbol id => (Ledger.mem_waitingOn indexed).trans coherent.mem_dangling
  · exact fun symbol => Ledger.nodup_sorted _
  · intro node id related
    exact coherent.keys (related.imp indexed.byTarget.mp indexed.byContext.mp)
  · rintro id (⟨node, related⟩ | ⟨node, related⟩ | ⟨symbol, related⟩ | ⟨symbol, related⟩)
    · exact live Dependencies.targets rfl (indexed.byTarget.mp related)
    · exact live Dependencies.context rfl (indexed.byContext.mp related)
    · exact live Dependencies.dangling rfl (indexed.byDangling.mp related)
    · exact live Dependencies.lookups rfl (indexed.byLookup.mp related)
  · intro id slot target keeps leads
    exact coherent.keys (Or.inl (coherent.mem_targets.mpr ⟨slot, keeps, leads⟩))

end Exact

end Workspace

/-- **After every history the ledger says what the slots say**, and no slot leads to a node that is
gone. -/
theorem ledgerExact_after (options : Options) (commands : List Command) :
    ((Workspace.ofOptions options).after commands).LedgerExact :=
  (Workspace.coherent_after options commands).ledgerExact

end EntityModel
