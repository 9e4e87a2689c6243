import EntityModel.Proofs.Catalog.Written
import EntityModel.Proofs.Workspace.Progress
import EntityModel.Proofs.Workspace.Writes
import EntityModel.Workspace.Attempt

/-
**Calls that fail leave nothing behind.**

A call in place may write before it has made all its checks: the text of one reference is written
before the owner of the next one is looked up, a commit closes its transaction before it reads the
first node. No check after a write fails, so a call that stops has written nothing.

* `step`, `stop`, `read_bind` — runs in place are taken apart step by step.
* `beginEdit_eq`, …, `rebind_eq` — the calls on one node, in every state.
* `exists_writeTexts` — once a node is renamed, the texts of all references to it are written: their
  owners were there before, and writing removes no node.
* `propagate_of_ok` — a commit in place goes the way of one that goes through.
* `perform_eq` — every command in place, in coherent states: there a commit goes through.
* `exists_commands_of_calls` — calls, files and failures included, are a history of commands.
* `atomic_after` — **a call that fails changes nothing**, whatever calls came before.
-/

namespace EntityModel

namespace Attempt

/-! ### Steps -/

section Steps

variable {σ ε α β γ : Type}

/-- A run that goes through hands over what it leaves. -/
theorem step {run : Attempt σ ε α} {rest : α → Attempt σ ε β} {state between : σ} {value : α}
    {result : EStateM.Result ε σ β} (done : run state = .ok value between)
    (after : rest value between = result) : (run >>= rest) state = result := by
  show EStateM.bind run rest state = result
  unfold EStateM.bind
  rw [done]
  exact after

/-- A run that stops ends everything. -/
theorem stop {run : Attempt σ ε α} {rest : α → Attempt σ ε β} {state left : σ} {error : ε}
    (stopped : run state = .error error left) : (run >>= rest) state = .error error left := by
  show EStateM.bind run rest state = _
  unfold EStateM.bind
  rw [stopped]

theorem read_step {look : σ → Except ε α} {rest : α → Attempt σ ε β} {state : σ} {value : α}
    {result : EStateM.Result ε σ β} (found : look state = .ok value)
    (after : rest value state = result) : (read look >>= rest) state = result := by
  refine step ?_ after
  unfold read
  rw [found]

theorem read_stop {look : σ → Except ε α} {rest : α → Attempt σ ε β} {state : σ} {error : ε}
    (missing : look state = .error error) : (read look >>= rest) state = .error error state := by
  refine stop ?_
  unfold read
  rw [missing]

theorem write_step {change : σ → σ} {rest : Unit → Attempt σ ε β} {state : σ}
    {result : EStateM.Result ε σ β} (after : rest () (change state) = result) :
    (write change >>= rest) state = result :=
  step rfl after

theorem get_step {rest : σ → Attempt σ ε β} {state : σ} {result : EStateM.Result ε σ β}
    (after : rest state state = result) : (get >>= rest : Attempt σ ε β) state = result :=
  step rfl after

/-- A first check decides, and what it lets through goes on. -/
theorem read_bind {look : σ → Except ε α} {rest : α → Attempt σ ε β} {state : σ}
    {call : α → Except ε (σ × β)}
    (each : ∀ value, look state = .ok value → rest value state = outcome state (call value)) :
    (read look >>= rest) state = outcome state (look state >>= call) := by
  cases found : look state with
  | error error => exact read_stop found
  | ok value => exact read_step found (each value found)

/-- A run that goes through or changes nothing leaves the state as it was, if it stops. -/
theorem eq_of_outcome {state left : σ} {result : Except ε (σ × α)} {error : ε}
    (stopped : outcome state result = .error error left) : left = state := by
  cases result with
  | error other => exact (EStateM.Result.error.inj stopped).2.symm
  | ok changed => exact nomatch stopped

end Steps

/-! ### Edits -/

section Edits

variable (workspace : Workspace)

/-- The result of a call that gives nothing back. -/
def silently (result : Except WorkspaceError Workspace) : Except WorkspaceError (Workspace × Unit) :=
  result.map fun changed => (changed, ())

theorem silently_bind {α : Type} (look : Except WorkspaceError α)
    (call : α → Except WorkspaceError Workspace) :
    silently (look >>= call) = look >>= fun value => silently (call value) := by
  cases look with
  | error error => rfl
  | ok value => rfl

theorem beginTransaction_eq :
    beginTransaction workspace = outcome workspace (silently workspace.beginTransaction) := by
  unfold beginTransaction Workspace.beginTransaction
  cases inside : workspace.inTransaction with
  | true => exact read_stop (by rw [inside]; rfl)
  | false => exact read_step (by rw [inside]; rfl) rfl

theorem unload_eq (id : DocumentId) :
    unload id workspace = outcome workspace (silently (workspace.unload id)) := by
  unfold unload Workspace.unload
  cases found : workspace.catalog.document? id with
  | none => exact read_stop (by rw [found])
  | some document => exact read_step (by rw [found]) rfl

theorem beginEdit_eq (id : NodeId) :
    beginEdit id workspace = outcome workspace (silently (workspace.beginEdit id)) := by
  unfold Workspace.beginEdit
  rw [silently_bind]
  exact read_bind fun _ _ => rfl

theorem changeHead_eq (id : NodeId) (change : Head → Head) :
    changeHead id change workspace = outcome workspace (silently (workspace.changeHead id change)) := by
  unfold changeHead Workspace.changeHead
  cases editing : workspace.isEditing id with
  | false => exact read_stop (by rw [editing]; rfl)
  | true =>
    refine read_step (by rw [editing]; rfl) ?_
    show _ = outcome workspace (silently (workspace.site id >>= _))
    rw [silently_bind]
    exact read_bind fun _ _ => rfl

theorem insertElement_eq (parent : NodeId) (index : Option Nat) (element : Element) :
    insertElement parent index element workspace
      = outcome workspace (workspace.insertElement parent index element) :=
  read_bind fun _ _ => rfl

theorem deleteNode_eq (id : NodeId) :
    deleteNode id workspace = outcome workspace (silently (workspace.deleteNode id)) := by
  unfold Workspace.deleteNode
  rw [silently_bind]
  exact read_bind fun _ _ => rfl

end Edits

/-! ### Renaming -/

section Renaming

variable {workspace : Workspace}

/-- A node that stays can be taken back to its written form, and its attributes be written then. -/
theorem exists_beginEdit {id : NodeId} (live : workspace.catalog.contains id = true)
    (stays : workspace.isPendingDelete id = false) (name value : String) :
    ∃ opened changed, workspace.beginEdit id = .ok opened ∧
      opened.setAttribute id name value = .ok changed := by
  have began := Workspace.beginEdit_of_live live stays
  have still : (workspace.write id (Node.atStage .unparsed)).catalog.contains id = true :=
    (Workspace.contains_modify workspace (fun node => rfl : ∀ node : Node,
      (node.atStage .unparsed).id = node.id) id id).trans live
  exact ⟨_, _, began,
    Workspace.changeHead_of_editing (Workspace.isEditing_write workspace id _) still _⟩

theorem beginEdit_of_ok {opened : Workspace} {id : NodeId}
    (began : workspace.beginEdit id = .ok opened) : beginEdit id workspace = .ok () opened := by
  rw [beginEdit_eq, began]
  rfl

theorem setAttribute_of_ok {changed : Workspace} {id : NodeId} {name value : String}
    (set : workspace.setAttribute id name value = .ok changed) :
    setAttribute id name value workspace = .ok () changed := by
  unfold Workspace.setAttribute at set
  unfold setAttribute
  rw [changeHead_eq, set]
  rfl

/-- The checks of the two calls that rename a node repeat its own, which have let it through. -/
theorem renameNode_eq (id : NodeId) (name : String) :
    renameNode id name workspace = outcome workspace (silently (workspace.renameNode id name)) := by
  unfold Workspace.renameNode
  rw [silently_bind]
  refine read_bind fun site editable => ?_
  cases site.node.kind.nameAttribute? with
  | none => rfl
  | some key =>
    obtain ⟨located, stays⟩ := Workspace.editable_eq_ok.mp editable
    obtain ⟨opened, changed, began, set⟩ :=
      exists_beginEdit (Option.isSome_iff_exists.mpr ⟨site, located⟩) stays key name
    refine step (beginEdit_of_ok began) ?_
    show _ = outcome workspace (silently (workspace.beginEdit id >>= _))
    rw [setAttribute_of_ok set, began]
    show _ = outcome workspace (silently (opened.setAttribute id key name))
    rw [set]
    rfl

/-- The text of a reference is written into its owner, or left out if that is on its way out. -/
theorem exists_writeText {change : ReferenceId × String}
    (live : workspace.catalog.contains change.1.owner = true) (written : List ReferenceId) :
    ∃ next, Workspace.writeText (workspace, written) change = .ok next ∧
      writeText written change workspace = .ok next.2 next.1 := by
  rcases change with ⟨id, text⟩
  cases pending : workspace.isPendingDelete id.owner with
  | true =>
    refine ⟨(workspace, written), ?_, ?_⟩
    · unfold Workspace.writeText
      simp only [pending]
      rfl
    · refine get_step ?_
      rw [pending]
      rfl
  | false =>
    cases editing : workspace.isEditing id.owner with
    | true =>
      obtain ⟨changed, set⟩ : ∃ changed, workspace.setAttribute id.owner id.role text = .ok changed :=
        ⟨_, Workspace.changeHead_of_editing editing live _⟩
      refine ⟨(changed, written ++ [id]), ?_, ?_⟩
      · unfold Workspace.writeText
        simp only [pending, editing]
        exact bind_eq_ok.mpr ⟨workspace, rfl, bind_eq_ok.mpr ⟨changed, set, rfl⟩⟩
      · refine get_step ?_
        rw [pending]
        refine get_step ?_
        rw [editing]
        exact step (setAttribute_of_ok set) rfl
    | false =>
      obtain ⟨opened, changed, began, set⟩ := exists_beginEdit live pending id.role text
      refine ⟨(changed, written ++ [id]), ?_, ?_⟩
      · unfold Workspace.writeText
        simp only [pending, editing]
        exact bind_eq_ok.mpr ⟨opened, began, bind_eq_ok.mpr ⟨changed, set, rfl⟩⟩
      · refine get_step ?_
        rw [pending]
        refine get_step ?_
        rw [editing]
        exact step (beginEdit_of_ok began) (step (setAttribute_of_ok set) rfl)

/-- The owners of the references are found again after each text, so all texts are written. -/
theorem exists_writeTexts (changes : List (ReferenceId × String)) :
    ∀ {workspace : Workspace} (written : List ReferenceId),
      (∀ change ∈ changes, workspace.catalog.contains change.1.owner = true) →
      ∃ last, changes.foldlM Workspace.writeText (workspace, written) = .ok last ∧
        changes.foldlM writeText written workspace = .ok last.2 last.1 := by
  induction changes with
  | nil => exact fun written _ => ⟨_, rfl, rfl⟩
  | cons change changes ih =>
    intro workspace written live
    obtain ⟨next, wrote, ran⟩ := exists_writeText (live change List.mem_cons_self) written
    obtain ⟨f, overwritten, _⟩ := Workspace.overwritten_writeText wrote
    obtain ⟨last, rest, others⟩ := @ih next.1 next.2 fun other member => by
      rw [overwritten.reworked.contains overwritten.revises.sameId]
      exact live other (List.mem_cons_of_mem _ member)
    refine ⟨last, ?_, ?_⟩
    · exact foldlM_cons_eq_ok.mpr ⟨next, wrote, rest⟩
    · rw [List.foldlM_cons]
      exact step ran others

theorem contains_of_reference? {id : ReferenceId} {reference : Reference}
    (held : workspace.reference? id = some reference) :
    workspace.catalog.contains id.owner = true := by
  obtain ⟨node, found, _⟩ := Option.bind_eq_some_iff.mp held
  obtain ⟨site, located, _⟩ := Option.map_eq_some_iff.mp found
  unfold Catalog.contains
  rw [located]
  rfl

/-- **Where a node can be renamed, the references to it can be changed along.** -/
theorem exists_renameWithReferences {renamed : Workspace} {id : NodeId} {name : String}
    (done : workspace.renameNode id name = .ok renamed) :
    ∃ last, workspace.renameWithReferences id name = .ok last ∧
      renameWithReferences id name workspace = .ok last.2 last.1 := by
  obtain ⟨site, key, f, _, _, overwritten⟩ := Workspace.overwritten_renameNode done
  obtain ⟨last, wrote, ran⟩ := @exists_writeTexts (workspace.retargetedTexts id name) renamed []
    fun change member => by
      obtain ⟨referencer, _, listed⟩ := List.mem_filterMap.mp member
      obtain ⟨reference, held, rfl⟩ := Option.map_eq_some_iff.mp listed
      rw [overwritten.reworked.contains overwritten.revises.sameId]
      exact contains_of_reference? held
  refine ⟨last, ?_, get_step (@step _ _ _ _ _ _ _ renamed () _ ?_ ran)⟩
  · unfold Workspace.renameWithReferences
    rw [done]
    exact wrote
  · rw [renameNode_eq, done]
    rfl

theorem renameWithReferences_eq (id : NodeId) (name : String) :
    renameWithReferences id name workspace
      = outcome workspace (workspace.renameWithReferences id name) := by
  cases done : workspace.renameNode id name with
  | error error =>
    refine get_step ((@stop _ _ _ _ _ _ _ workspace error ?_).trans ?_)
    · rw [renameNode_eq, done]
      rfl
    · unfold Workspace.renameWithReferences
      rw [done]
      rfl
  | ok renamed =>
    obtain ⟨last, whole, ran⟩ := exists_renameWithReferences done
    rw [whole, ran]
    rfl

end Renaming

/-! ### The life of one node -/

section Life

variable (workspace : Workspace)

theorem site_congr {workspace other : Workspace}
    (same : other.catalog.documents = workspace.catalog.documents) (id : NodeId) :
    other.site id = workspace.site id := by
  unfold Workspace.site Catalog.site? Catalog.sites
  rw [same]

theorem parse_eq (id : NodeId) : parse id workspace = outcome workspace (workspace.parseNode id) := by
  refine read_bind fun site found => ?_
  obtain ⟨_, rfl⟩ := Catalog.mem_sites_of_site? (Workspace.site_eq_ok.mp found)
  refine write_step (write_step (@read_step _ _ _ _ _ _ _ site _ ?_ rfl))
  exact (site_congr (Catalog.documents_withdrawSymbol workspace.catalog site.node) site.id).trans found

theorem normalize_eq (id : NodeId) :
    normalize id workspace = outcome workspace (workspace.normalizeNode id) := by
  refine read_bind fun site found => ?_
  obtain ⟨_, rfl⟩ := Catalog.mem_sites_of_site? (Workspace.site_eq_ok.mp found)
  refine read_bind fun _ _ => ?_
  refine write_step (@read_step _ _ _ _ _ _ _ site _ ?_ rfl)
  exact (site_congr (Catalog.documents_replaceSymbol workspace.catalog site.id _ _) site.id).trans found

theorem forM_apply (outcomes : List (ReferenceId × Resolution)) :
    ∀ workspace : Workspace,
      (outcomes.forM fun outcome => apply outcome.1 outcome.2 :
        Attempt Workspace WorkspaceError Unit) workspace
      = .ok () (outcomes.foldl (fun workspace outcome => workspace.applied outcome.1 outcome.2)
          workspace) := by
  induction outcomes with
  | nil => exact fun _ => rfl
  | cons first outcomes ih => exact fun workspace => step rfl (ih _)

theorem resolve_eq (id : NodeId) :
    resolve id workspace = outcome workspace (silently (workspace.resolveNode id)) := by
  unfold Workspace.resolveNode
  rw [silently_bind]
  refine read_bind fun site found => ?_
  obtain ⟨_, rfl⟩ := Catalog.mem_sites_of_site? (Workspace.site_eq_ok.mp found)
  rw [silently_bind]
  exact read_bind fun _ _ => get_step (step (forM_apply _ workspace) rfl)

theorem rebind_eq (id : ReferenceId) :
    rebind id workspace = outcome workspace (workspace.rebind id) := by
  refine read_bind fun site found => read_bind fun _ _ => ?_
  cases site.node.reference? id.role with
  | none => rfl
  | some reference => rfl

end Life

/-! ### Commits -/

section Commits

/-- A loop in place goes the way of a loop of functions that ends well, if every turn does. -/
theorem foldlM_of_ok {σ ε β γ : Type} {turn : β → γ → Attempt σ ε β}
    {call : σ × β → γ → Except ε (σ × β)}
    (each : ∀ {state next item}, call state item = .ok next →
      turn state.2 item state.1 = .ok next.2 next.1) (items : List γ) :
    ∀ {state last : σ × β}, items.foldlM call state = .ok last →
      items.foldlM turn state.2 state.1 = .ok last.2 last.1 := by
  induction items with
  | nil =>
    intro state last ran
    obtain rfl : state = last := Except.ok.inj ran
    rfl
  | cons item items ih =>
    intro state last ran
    obtain ⟨next, taken, rest⟩ := foldlM_cons_eq_ok.mp ran
    rw [List.foldlM_cons]
    exact step (each taken) (ih rest)

theorem forM_of_ok {σ ε γ : Type} {turn : γ → Attempt σ ε Unit} {call : σ → γ → Except ε σ}
    (each : ∀ {state next item}, call state item = .ok next → turn item state = .ok () next)
    (items : List γ) :
    ∀ {state last : σ}, items.foldlM call state = .ok last →
      items.forM turn state = .ok () last := by
  induction items with
  | nil =>
    intro state last ran
    obtain rfl : state = last := Except.ok.inj ran
    rfl
  | cons item items ih =>
    intro state last ran
    obtain ⟨next, taken, rest⟩ := foldlM_cons_eq_ok.mp ran
    exact step (each taken) (ih rest)

variable {pass next : Pass}

/-- A commit sees the changes a call makes to its workspace. -/
theorem onWorkspace_of_ok {ε α : Type} {call : Attempt Workspace ε α} {value : α}
    {workspace : Workspace} (done : call pass.workspace = .ok value workspace) :
    onWorkspace call pass = .ok value { pass with workspace } := by
  unfold onWorkspace
  rw [done]

theorem asPass_of_ok {ε α : Type} {run : Attempt Pass ε α} {value : α} {workspace : Workspace}
    (done : run (.start workspace) = .ok value pass) :
    asPass run workspace = .ok value pass.workspace := by
  unfold asPass
  rw [done]

theorem reparse_of_ok {state after : Pass × List (NodeId × Option Symbol)} {id : NodeId}
    (done : Pass.reparse state id = .ok after) :
    reparse state.2 id state.1 = .ok after.2 after.1 := by
  unfold Pass.reparse at done
  obtain ⟨⟨workspace, earlier⟩, parsed, made⟩ := bind_eq_ok.mp done
  obtain rfl := Except.ok.inj made
  refine write_step (step (onWorkspace_of_ok ?_) rfl)
  rw [parse_eq, parsed]
  rfl

theorem renormalize_of_ok {earlier : List (NodeId × Option Symbol)} {id : NodeId}
    (done : Pass.renormalize earlier pass id = .ok next) :
    renormalize earlier id pass = .ok () next := by
  unfold Pass.renormalize at done
  obtain ⟨⟨workspace, current, symbol⟩, named, rest⟩ := bind_eq_ok.mp done
  refine step (@onWorkspace_of_ok _ _ _ _ (current, symbol) workspace ?_) ?_
  · rw [normalize_eq, named]
    rfl
  · simp only at rest ⊢
    by_cases same : (earlier.lookup id).getD current = symbol
    · rw [if_pos same] at rest ⊢
      obtain rfl := Except.ok.inj rest
      rfl
    · rw [if_neg same] at rest ⊢
      obtain rfl := Except.ok.inj rest
      refine write_step ?_
      split
      · rfl
      · rfl

theorem resolve_of_ok {id : NodeId} (done : pass.resolve id = .ok next) :
    onWorkspace (resolve id) pass = .ok () next := by
  unfold Pass.resolve at done
  obtain ⟨workspace, resolved, made⟩ := bind_eq_ok.mp done
  obtain rfl := Except.ok.inj made
  refine onWorkspace_of_ok ?_
  rw [resolve_eq, resolved]
  rfl

theorem resolveAgain_of_ok {id : NodeId} (done : pass.resolveAgain id = .ok next) :
    resolveAgain id pass = .ok () next :=
  step rfl (resolve_of_ok done)

theorem propagate_of_ok {workspace after : Workspace} {transaction : Transaction} {report : Report}
    (done : workspace.propagate transaction = .ok (after, report)) :
    propagate transaction workspace = .ok report after := by
  unfold Workspace.propagate at done
  obtain ⟨⟨read, earlier⟩, reread, rest⟩ := bind_eq_ok.mp done
  obtain ⟨named, renamed, rest⟩ := bind_eq_ok.mp rest
  obtain ⟨resolved, answered, rest⟩ := bind_eq_ok.mp rest
  obtain ⟨last, again, rest⟩ := bind_eq_ok.mp rest
  obtain ⟨rfl, rfl⟩ := Prod.mk.inj (Except.ok.inj rest)
  refine @asPass_of_ok last _ _ _ _ _ ?_
  refine write_step (write_step (get_step ?_))
  refine step (foldlM_of_ok reparse_of_ok _ reread) ?_
  refine get_step (get_step ?_)
  refine step (forM_of_ok renormalize_of_ok _ renamed) (write_step ?_)
  refine step (forM_of_ok resolve_of_ok _ answered) (get_step (get_step ?_))
  exact step (forM_of_ok resolveAgain_of_ok _ again) (get_step rfl)

theorem commit_of_ok {workspace after : Workspace} {report : Report}
    (done : workspace.commit = .ok (after, report)) : commit workspace = .ok report after := by
  unfold Workspace.commit at done
  cases opened : workspace.transaction with
  | none =>
    rw [opened] at done
    exact nomatch done
  | some transaction =>
    rw [opened] at done
    exact read_step (by rw [opened]) (write_step (propagate_of_ok done))

theorem rebuild_of_ok {workspace after : Workspace} {report : Report}
    (done : workspace.rebuild = .ok (after, report)) : rebuild workspace = .ok report after := by
  unfold Workspace.rebuild at done
  obtain ⟨opened, began, rest⟩ := bind_eq_ok.mp done
  obtain ⟨edited, looped, committed⟩ := bind_eq_ok.mp rest
  refine @step _ _ _ _ _ _ _ opened () _ ?_ (get_step ?_)
  · rw [beginTransaction_eq, began]
    rfl
  · exact step (forM_of_ok beginEdit_of_ok _ looped) (commit_of_ok committed)

end Commits

/-! ### Whole files -/

section Files

theorem foldlM_load (uri : Layer → String) (sections : List (Layer × Element)) :
    ∀ (workspace : Workspace) (ids : List DocumentId),
      (sections.foldlM (fun ids part => return ids ++ [← load (uri part.1) part.1 part.2]) ids :
        Attempt Workspace ExchangeError (List DocumentId)) workspace
      = outcome workspace (.ok (sections.foldl (fun state part =>
          let (loaded, id) := state.1.load (uri part.1) part.1 part.2
          (loaded, state.2 ++ [id])) (workspace, ids))) := by
  induction sections with
  | nil => exact fun _ _ => rfl
  | cons part sections ih =>
    intro workspace ids
    rw [List.foldlM_cons]
    exact step rfl (ih _ _)

theorem loadSections_eq (workspace : Workspace) (uri : Layer → String)
    (sections : List (Layer × Element)) :
    loadSections uri sections workspace
      = outcome workspace (.ok (workspace.loadSections uri sections)) :=
  foldlM_load uri sections workspace []

theorem loadFile_eq (workspace : Workspace) (uri : String) (bytes : List UInt8) :
    loadFile uri bytes workspace = outcome workspace (workspace.loadFile uri bytes) := by
  refine read_bind fun root _ => ?_
  unfold Workspace.loadRoot
  simp only
  split
  · rfl
  · exact loadSections_eq workspace _ _

end Files

end Attempt

namespace Workspace

/-- A call that stops leaves the workspace as it was, and one that goes through does all that is
asked of it. -/
structure Atomic (workspace : Workspace) : Prop where
  refused : ∀ command error left,
    Attempt.perform command workspace = .error error left → left = workspace
  unread : ∀ uri bytes error left,
    Attempt.loadFile uri bytes workspace = .error error left → left = workspace
  /-- Once a node is renamed, no step that changes the references to it along can fail. -/
  renames : ∀ id name renamed, Attempt.renameNode id name workspace = .ok () renamed →
    ∃ written after, Attempt.renameWithReferences id name workspace = .ok written after
  commands : ∀ command,
    Attempt.perform command workspace = Attempt.outcome workspace (workspace.perform command)
  files : ∀ uri bytes,
    Attempt.loadFile uri bytes workspace = Attempt.outcome workspace (workspace.loadFile uri bytes)

end Workspace

namespace Attempt

variable {workspace : Workspace}

/-- A call may turn what it gives back into an answer. -/
theorem answer_eq {α : Type} {run : Attempt Workspace WorkspaceError α}
    {result : Except WorkspaceError (Workspace × α)} (done : run workspace = outcome workspace result)
    (answer : α → Answer) : (run >>= fun value => pure (answer value)) workspace
      = outcome workspace (result.map fun (changed, value) => (changed, answer value)) := by
  cases result with
  | error error => exact stop done
  | ok changed => exact step done rfl

/-- A call may keep what it gives back to itself. -/
theorem quiet_eq {α : Type} {run : Attempt Workspace WorkspaceError α}
    {result : Except WorkspaceError (Workspace × α)} (done : run workspace = outcome workspace result) :
    (run >>= fun _ => pure .done) workspace
      = outcome workspace (Workspace.plainly (result.map Prod.fst)) := by
  cases result with
  | error error => exact stop done
  | ok changed => exact step done rfl

theorem done_eq {run : Attempt Workspace WorkspaceError Unit}
    {result : Except WorkspaceError Workspace}
    (done : run workspace = outcome workspace (silently result)) :
    (run >>= fun _ => pure .done) workspace = outcome workspace (Workspace.plainly result) := by
  refine (quiet_eq done).trans ?_
  cases result with
  | error error => rfl
  | ok changed => rfl

theorem commit_eq (coherent : workspace.Coherent) :
    commit workspace = outcome workspace workspace.commit := by
  cases opened : workspace.transaction with
  | none =>
    unfold Workspace.commit
    rw [opened]
    exact read_stop (by rw [opened])
  | some transaction =>
    obtain ⟨course, _, report, done⟩ := exists_run coherent opened
    rw [done]
    exact commit_of_ok done

theorem rebuild_eq (coherent : workspace.Coherent) :
    rebuild workspace = outcome workspace workspace.rebuild := by
  cases inside : workspace.inTransaction with
  | false =>
    obtain ⟨after, report, done, _⟩ := coherent.proceeds.rebuilds.mp inside
    rw [done]
    exact rebuild_of_ok done
  | true =>
    have refused : workspace.beginTransaction = .error .transactionOpen := by
      unfold Workspace.beginTransaction
      rw [inside]
      rfl
    unfold Workspace.rebuild
    rw [refused]
    refine stop ?_
    rw [beginTransaction_eq, refused]
    rfl

/-- **Every command goes through as a whole or not at all.** -/
theorem perform_eq (coherent : workspace.Coherent) (command : Command) :
    perform command workspace = outcome workspace (workspace.perform command) := by
  cases command with
  | load uri layer root => rfl
  | unload id => exact done_eq (unload_eq workspace id)
  | beginTransaction => exact done_eq (beginTransaction_eq workspace)
  | beginEdit id => exact done_eq (beginEdit_eq workspace id)
  | setAttribute id name value => exact done_eq (changeHead_eq workspace id _)
  | removeAttribute id name => exact done_eq (changeHead_eq workspace id _)
  | setText id text => exact done_eq (changeHead_eq workspace id _)
  | insertElement parent index element =>
    exact answer_eq (insertElement_eq workspace parent index element) .node
  | deleteNode id => exact done_eq (deleteNode_eq workspace id)
  | renameNode id name => exact done_eq (renameNode_eq id name)
  | renameWithReferences id name => exact answer_eq (renameWithReferences_eq id name) .references
  | commit => exact answer_eq (commit_eq coherent) .report
  | rebuild => exact answer_eq (rebuild_eq coherent) .report
  | parse id => exact quiet_eq (parse_eq workspace id)
  | normalize id => exact quiet_eq (normalize_eq workspace id)
  | resolve id => exact done_eq (resolve_eq workspace id)
  | rebind id => exact answer_eq (rebind_eq workspace id) .resolution

end Attempt

namespace Workspace

/-- The documents of a file are loaded one after the other. -/
theorem loadSections_eq_after (workspace : Workspace) (uri : Layer → String)
    (sections : List (Layer × Element)) : (workspace.loadSections uri sections).1 =
      workspace.after (sections.map fun part => .load (uri part.1) part.1 part.2) := by
  have fold : ∀ (sections : List (Layer × Element)) (state : Workspace × List DocumentId),
      (sections.foldl (fun state part =>
        let (loaded, id) := state.1.load (uri part.1) part.1 part.2
        (loaded, state.2 ++ [id])) state).1
      = state.1.after (sections.map fun part => .load (uri part.1) part.1 part.2) := by
    intro sections
    induction sections with
    | nil => exact fun _ => rfl
    | cons part sections ih => exact fun state => ih _
  exact fold sections (workspace, [])

/-- Loading a whole file is a history of commands. -/
theorem exists_commands_of_loadFile {workspace loaded : Workspace} {uri : String}
    {bytes : List UInt8} {ids : List DocumentId}
    (done : workspace.loadFile uri bytes = .ok (loaded, ids)) :
    ∃ commands, loaded = workspace.after commands := by
  unfold Workspace.loadFile loadRoot at done
  obtain ⟨root, _, rest⟩ := bind_eq_ok.mp done
  simp only at rest
  split at rest
  · exact nomatch rest
  · have same := congrArg Prod.fst (Except.ok.inj rest)
    exact ⟨_, same.symm.trans (loadSections_eq_after _ _ _)⟩

namespace Coherent

variable {workspace : Workspace} (coherent : workspace.Coherent)

include coherent

theorem atomic : workspace.Atomic := by
  refine ⟨?_, ?_, ?_, Attempt.perform_eq coherent, Attempt.loadFile_eq workspace⟩
  · intro command error left stopped
    rw [Attempt.perform_eq coherent] at stopped
    exact Attempt.eq_of_outcome stopped
  · intro uri bytes error left stopped
    rw [Attempt.loadFile_eq] at stopped
    exact Attempt.eq_of_outcome stopped
  · intro id name renamed ran
    rw [Attempt.renameNode_eq] at ran
    cases done : workspace.renameNode id name with
    | error error =>
      rw [done] at ran
      exact nomatch ran
    | ok changed =>
      obtain ⟨last, _, whole⟩ := Attempt.exists_renameWithReferences done
      exact ⟨last.2, last.1, whole⟩

/-! ### Calls as histories -/

/-- Every call is a history of commands. -/
theorem exists_commands_of_call (call : Attempt.Call) :
    ∃ commands, Attempt.next workspace call = workspace.after commands := by
  cases call with
  | command command =>
    refine ⟨[command], ?_⟩
    show Attempt.left (Attempt.perform command workspace) = workspace.next command
    rw [Attempt.perform_eq coherent]
    unfold Workspace.next
    cases workspace.perform command with
    | error error => rfl
    | ok result => rfl
  | file uri bytes =>
    show ∃ commands, Attempt.left (Attempt.loadFile uri bytes workspace) = workspace.after commands
    rw [Attempt.loadFile_eq]
    cases done : workspace.loadFile uri bytes with
    | error error => exact ⟨[], rfl⟩
    | ok result => exact exists_commands_of_loadFile done

/-- **Calls are a history of commands**, those that fail left out. -/
theorem exists_commands_of_calls (calls : List Attempt.Call) :
    ∃ commands, Attempt.after workspace calls = workspace.after commands := by
  unfold Attempt.after
  induction calls generalizing workspace with
  | nil => exact ⟨[], rfl⟩
  | cons call calls ih =>
    obtain ⟨first, next⟩ := exists_commands_of_call coherent call
    obtain ⟨later, rest⟩ := ih (coherent.after first)
    refine ⟨first ++ later, ?_⟩
    rw [List.foldl_cons, next, rest, after_append]

theorem afterCalls (calls : List Attempt.Call) : (Attempt.after workspace calls).Coherent := by
  obtain ⟨commands, same⟩ := exists_commands_of_calls coherent calls
  exact same ▸ coherent.after commands

end Coherent

end Workspace

/-- **A call that fails changes nothing**, in every state that calls lead to, those included that
failed themselves. -/
theorem atomic_after (options : Options) (calls : List Attempt.Call) :
    (Attempt.after (Workspace.ofOptions options) calls).Atomic :=
  ((Workspace.coherent_ofOptions options).afterCalls calls).atomic

end EntityModel
