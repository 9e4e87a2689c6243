import EntityModel.Proofs.Catalog.Order
import EntityModel.Proofs.Workspace.Edits

/-
**What a command can do.**

* `Command.isTransactional` — the command leaves the life of single nodes to commits.
* `Turn` — what such a command can do to a workspace: edits, edits with a commit, a new evaluation of
  a reference. `Visit` — what the others can do: one step in the life of a node.
* `exists_parse_of_perform`, … — the place at which a single step that succeeds is made.
* `turn_of_perform`, `visit_of_perform` — every command does one of these; `next_of_step` — so what
  they all keep, a command keeps.
* `after_of_next` — what every command of a history keeps holds at its end.
-/

namespace EntityModel

/-- The command does not take a single node a step further in its life. -/
def Command.isTransactional : Command → Bool
  | .parse _ | .normalize _ | .resolve _ => false
  | _ => true

namespace Workspace

/-- What a command can do that leaves the life of single nodes to commits. -/
inductive Turn (fits : Site → Element → Prop) : Workspace → Workspace → Prop where
  | edit {workspace after : Workspace} (edits : Edits fits workspace after) :
      Turn fits workspace after
  | commit {workspace edited after : Workspace} {report : Report}
      (edits : Edits fits workspace edited) (done : edited.commit = .ok (after, report)) :
      Turn fits workspace after
  | rebind {workspace : Workspace} {site : Site} {id : ReferenceId} {reference : Reference}
      (member : site ∈ workspace.catalog.sites) (owner : site.id = id.owner)
      (ready : site.node.stage.reaches .normalized = true)
      (held : site.node.reference? id.role = some reference) :
      Turn fits workspace (workspace.applied id (workspace.evaluate id.owner reference))

/-- One step in the life of a node. -/
inductive Visit : Workspace → Workspace → Prop where
  | parse {workspace : Workspace} {site : Site} (member : site ∈ workspace.catalog.sites) :
      Visit workspace (workspace.parsed site)
  | normalize {workspace : Workspace} {site : Site} (member : site ∈ workspace.catalog.sites) :
      Visit workspace (workspace.normalized site)
  | resolve {workspace : Workspace} {site : Site} (member : site ∈ workspace.catalog.sites) :
      Visit workspace (workspace.resolved site)

theorem requireStage_eq_ok {node : Node} {step : LifecycleStep}
    (ready : requireStage node step = .ok ()) : node.stage.reaches step.required = true := by
  unfold requireStage at ready
  by_cases reached : node.stage.reaches step.required = true
  · exact reached
  · rw [if_neg reached] at ready
    exact nomatch ready

/-! ### Steps that succeed -/

section Steps

variable {workspace after : Workspace} {answer : Answer} {id : NodeId}

theorem exists_parse_of_perform (done : workspace.perform (.parse id) = .ok (after, answer)) :
    ∃ site ∈ workspace.catalog.sites, site.id = id ∧ workspace.parsed site = after := by
  obtain ⟨changed, parsed, same⟩ := map_eq_ok.mp done
  obtain ⟨⟨result, earlier⟩, ran, rfl⟩ := map_eq_ok.mp parsed
  obtain ⟨site, located, made⟩ := bind_eq_ok.mp ran
  obtain ⟨member, here⟩ := Catalog.mem_sites_of_site? (site_eq_ok.mp located)
  rw [← (Prod.mk.inj same).1, ← (Prod.mk.inj (Except.ok.inj made)).1]
  exact ⟨site, member, here, rfl⟩

theorem exists_normalize_of_perform
    (done : workspace.perform (.normalize id) = .ok (after, answer)) :
    ∃ site ∈ workspace.catalog.sites, site.id = id ∧ workspace.normalized site = after := by
  obtain ⟨changed, normalized, same⟩ := map_eq_ok.mp done
  obtain ⟨⟨result, earlier, later⟩, ran, rfl⟩ := map_eq_ok.mp normalized
  obtain ⟨site, located, checked⟩ := bind_eq_ok.mp ran
  obtain ⟨_, _, made⟩ := bind_eq_ok.mp checked
  obtain ⟨member, here⟩ := Catalog.mem_sites_of_site? (site_eq_ok.mp located)
  rw [← (Prod.mk.inj same).1, ← (Prod.mk.inj (Except.ok.inj made)).1]
  exact ⟨site, member, here, rfl⟩

theorem exists_resolve_of_perform (done : workspace.perform (.resolve id) = .ok (after, answer)) :
    ∃ site ∈ workspace.catalog.sites, site.id = id ∧
      site.node.stage.reaches .normalized = true ∧ workspace.resolved site = after := by
  obtain ⟨changed, ran, same⟩ := map_eq_ok.mp done
  obtain ⟨site, located, checked⟩ := bind_eq_ok.mp ran
  obtain ⟨_, ready, made⟩ := bind_eq_ok.mp checked
  obtain ⟨member, here⟩ := Catalog.mem_sites_of_site? (site_eq_ok.mp located)
  rw [← (Prod.mk.inj same).1, ← Except.ok.inj made]
  exact ⟨site, member, here, requireStage_eq_ok ready, rfl⟩

theorem exists_rebind_of_perform {id : ReferenceId}
    (done : workspace.perform (.rebind id) = .ok (after, answer)) :
    ∃ site ∈ workspace.catalog.sites, site.id = id.owner ∧
      site.node.stage.reaches .normalized = true ∧
        ∃ reference, site.node.reference? id.role = some reference ∧
          workspace.applied id (workspace.evaluate id.owner reference) = after := by
  obtain ⟨⟨changed, resolution⟩, ran, same⟩ := map_eq_ok.mp done
  obtain ⟨site, located, checked⟩ := bind_eq_ok.mp ran
  obtain ⟨_, ready, found⟩ := bind_eq_ok.mp checked
  obtain ⟨member, owner⟩ := Catalog.mem_sites_of_site? (site_eq_ok.mp located)
  cases held : site.node.reference? id.role with
  | none =>
    rw [held] at found
    exact nomatch found
  | some reference =>
    rw [held] at found
    rw [← (Prod.mk.inj same).1, ← (Prod.mk.inj (Except.ok.inj found)).1]
    exact ⟨site, member, owner, requireStage_eq_ok ready, reference, held, rfl⟩

end Steps

/-! ### Every command -/

section Commands

variable {workspace after : Workspace} {command : Command} {answer : Answer}

theorem turn_of_perform {fits : Site → Element → Prop} (plain : command.isTransactional = true)
    (done : workspace.perform command = .ok (after, answer))
    (fit : ∀ parent index element, command = .insertElement parent index element →
      ∀ site, workspace.editable parent = .ok site → fits site element) :
    Turn fits workspace after := by
  by_cases edit : command.isEdit = true
  · exact .edit (edits_of_perform edit done fit)
  cases command with
  | commit =>
    obtain ⟨⟨changed, report⟩, committed, same⟩ := map_eq_ok.mp done
    rw [← (Prod.mk.inj same).1]
    exact .commit .refl committed
  | rebuild =>
    obtain ⟨⟨changed, report⟩, rebuilt, same⟩ := map_eq_ok.mp done
    obtain ⟨edited, edits, committed⟩ := @edits_of_rebuild fits _ _ _ rebuilt
    rw [← (Prod.mk.inj same).1]
    exact .commit edits committed
  | rebind id =>
    obtain ⟨site, member, owner, ready, reference, held, rfl⟩ := exists_rebind_of_perform done
    exact .rebind member owner ready held
  | parse id => exact nomatch plain
  | normalize id => exact nomatch plain
  | resolve id => exact nomatch plain
  | _ => exact absurd rfl edit

theorem visit_of_perform (single : command.isTransactional = false)
    (done : workspace.perform command = .ok (after, answer)) : Visit workspace after := by
  cases command with
  | parse id =>
    obtain ⟨site, member, _, rfl⟩ := exists_parse_of_perform done
    exact .parse member
  | normalize id =>
    obtain ⟨site, member, _, rfl⟩ := exists_normalize_of_perform done
    exact .normalize member
  | resolve id =>
    obtain ⟨site, member, _, _, rfl⟩ := exists_resolve_of_perform done
    exact .resolve member
  | _ => exact nomatch single

/-- A refused command changes nothing. -/
theorem next_of_perform {property : Workspace → Prop} (holds : property workspace)
    (each : ∀ {after answer}, workspace.perform command = .ok (after, answer) → property after) :
    property (workspace.next command) := by
  unfold Workspace.next
  cases done : workspace.perform command with
  | error failure => exact holds
  | ok result => exact each done

/-- What a command in a transaction may do is one of the turns. -/
theorem next_of_turn {property : Workspace → Prop} (plain : command.isTransactional = true)
    (holds : property workspace)
    (turns : ∀ {after}, Turn (fun _ _ => True) workspace after → property after) :
    property (workspace.next command) :=
  next_of_perform holds fun done => turns (turn_of_perform plain done fun _ _ _ _ _ _ => trivial)

/-- Any command takes a turn or a single step in the life of a node. -/
theorem next_of_step {property : Workspace → Prop} (holds : property workspace)
    (turns : ∀ {after}, Turn (fun _ _ => True) workspace after → property after)
    (visits : ∀ {after}, Visit workspace after → property after) (command : Command) :
    property (workspace.next command) := by
  by_cases plain : command.isTransactional = true
  · exact next_of_turn plain holds turns
  · exact next_of_perform holds fun done =>
      visits (visit_of_perform (Bool.eq_false_iff.mpr plain) done)

theorem next_of_ok {answer : Answer} (done : workspace.perform command = .ok (after, answer)) :
    workspace.next command = after := by
  unfold Workspace.next
  rw [done]

theorem next_of_error {error : WorkspaceError} (refused : workspace.perform command = .error error) :
    workspace.next command = workspace := by
  unfold Workspace.next
  rw [refused]

theorem next_of_plainly {result : Except WorkspaceError Workspace}
    (same : workspace.perform command = plainly result) (done : result = .ok after) :
    workspace.next command = after :=
  next_of_ok (same.trans (map_eq_ok.mpr ⟨after, done, rfl⟩))

theorem next_commit {report : Report} (done : workspace.commit = .ok (after, report)) :
    workspace.next .commit = after := by
  have performed : workspace.perform .commit = .ok (after, .report report) :=
    map_eq_ok.mpr ⟨_, done, rfl⟩
  exact next_of_ok performed

/-- Where no transaction is open, a commit is refused. -/
theorem next_commit_of_closed (closed : workspace.transaction = none) :
    workspace.next .commit = workspace := by
  have refused : workspace.perform .commit = .error .noTransaction := by
    show workspace.commit.map _ = _
    unfold commit
    rw [closed]
    rfl
  exact next_of_error refused

end Commands

theorem after_append (workspace : Workspace) (commands later : List Command) :
    workspace.after (commands ++ later) = (workspace.after commands).after later :=
  List.foldl_append

/-- A history that ends with a commit leads to what the commit makes. -/
theorem after_commit {workspace after : Workspace} {report : Report}
    (done : workspace.commit = .ok (after, report)) : workspace.after [.commit] = after :=
  next_commit done

/-- **What every command of a history keeps holds at its end.** -/
theorem after_of_next {property : Workspace → Prop} {commands : List Command}
    (each : ∀ {workspace : Workspace}, ∀ command ∈ commands, property workspace →
      property (workspace.next command)) :
    ∀ {workspace : Workspace}, property workspace → property (workspace.after commands) := by
  unfold Workspace.after
  induction commands with
  | nil => exact fun holds => holds
  | cons command commands ih =>
    intro workspace holds
    exact ih (fun other later => each other (List.mem_cons_of_mem _ later))
      (each command List.mem_cons_self holds)

end Workspace

end EntityModel
