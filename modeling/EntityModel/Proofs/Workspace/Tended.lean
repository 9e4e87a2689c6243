import EntityModel.Proofs.Commit.Settling
import EntityModel.Proofs.Workspace.Reachable

/-
**Histories that leave the life of nodes to commits.**

* `Steady` — a coherent workspace in which all that edits have not touched is as the last commit left
  it; `steady_after` — **histories without single steps in the life of nodes keep a workspace so.**
* `Tended` — a steady workspace in which slots that wait for symbols are looked at again.
* `Tended.commit` — a commit leads from there to a settled workspace without a transaction.
-/

namespace EntityModel

namespace Workspace

theorem Edit.options {fits : Site → Element → Prop} {workspace after : Workspace}
    (edit : Edit fits workspace after) : after.options = workspace.options := by
  cases edit with
  | «open» closed => rfl
  | write rewrites => rfl
  | load uri layer root => rfl
  | insert member fit => rfl
  | unload member => rfl
  | delete member => rfl

theorem options_of_edits {fits : Site → Element → Prop} {workspace after : Workspace}
    (edits : Edits fits workspace after) : after.options = workspace.options := by
  induction edits with
  | refl => rfl
  | tail before edit ih => rw [edit.options, ih]

/-- No command changes the options. -/
theorem Coherent.options_turn {fits : Site → Element → Prop} {workspace after : Workspace}
    (coherent : workspace.Coherent) (turn : Turn fits workspace after) :
    after.options = workspace.options := by
  cases turn with
  | edit edits => exact options_of_edits edits
  | commit edits done =>
    obtain ⟨transaction, course, _, runs, rfl⟩ := (coherent.edits edits).runs_of_commit done
    rw [runs.options_after]
    exact options_of_edits edits
  | rebind member owner ready held => rfl

theorem options_after {options : Options} {commands : List Command}
    (plain : ∀ command ∈ commands, command.isTransactional = true) :
    ((ofOptions options).after commands).options = options :=
  @after_of_turn (fun workspace => workspace.options = options) _ plain
    (fun coherent same turn => (coherent.options_turn turn).trans same) _
    (coherent_ofOptions options) rfl

/-- Coherent, with all that edits have not touched as the last commit left it. -/
structure Steady (workspace : Workspace) : Prop where
  coherent : workspace.Coherent
  current : workspace.Current

theorem steady_ofOptions (options : Options) : (ofOptions options).Steady :=
  ⟨coherent_ofOptions options, current_ofOptions options⟩

namespace Steady

variable {workspace after : Workspace} (steady : workspace.Steady)

include steady

theorem edits {fits : Site → Element → Prop} (edits : Edits fits workspace after) :
    after.Steady :=
  ⟨steady.coherent.edits edits, steady.current.edits steady.coherent edits⟩

/-- **A commit leaves nothing waiting.** -/
theorem commit {report : Report} (done : workspace.commit = .ok (after, report)) :
    after.Steady ∧ after.transaction = none := by
  obtain ⟨transaction, course, opened, runs, rfl⟩ := steady.coherent.runs_of_commit done
  exact ⟨⟨runs.coherent steady.coherent opened,
    runs.current_after opened steady.current steady.coherent⟩, runs.transaction_after⟩

theorem turn {fits : Site → Element → Prop} (turn : Turn fits workspace after) :
    after.Steady := by
  cases turn with
  | edit edits => exact steady.edits edits
  | commit edits done => exact ((steady.edits edits).commit done).1
  | rebind member owner ready held =>
    exact ⟨steady.coherent.afterRebind member owner ready held,
      steady.current.afterRebind steady.coherent member owner ready held⟩

theorem next {command : Command} (plain : command.isTransactional = true) :
    (workspace.next command).Steady :=
  next_of_turn plain steady steady.turn

end Steady

/-- **Histories without single steps in the life of nodes keep a workspace steady.** -/
theorem steady_after (options : Options) {commands : List Command}
    (plain : ∀ command ∈ commands, command.isTransactional = true) :
    ((ofOptions options).after commands).Steady :=
  after_of_next (fun command inside steady => steady.next (plain command inside))
    (steady_ofOptions options)

/-! ### Where slots that wait are looked at again -/

/-- Steady, with slots that wait for symbols looked at again. -/
structure Tended (workspace : Workspace) : Prop extends Steady workspace where
  rebinds : workspace.options.rebindWaiting = true

namespace Tended

variable {workspace after : Workspace} (tended : workspace.Tended)

include tended

theorem edits {fits : Site → Element → Prop} (edits : Edits fits workspace after) :
    after.Tended := by
  refine ⟨tended.toSteady.edits edits, ?_⟩
  rw [options_of_edits edits]
  exact tended.rebinds

/-- **A commit settles everything.** -/
theorem commit {report : Report} (done : workspace.commit = .ok (after, report)) :
    after.Tended ∧ after.Settled ∧ after.transaction = none := by
  obtain ⟨steady, closed⟩ := tended.toSteady.commit done
  have rebinds : after.options.rebindWaiting = true := by
    rw [tended.coherent.options_turn (@Turn.commit (fun _ _ => True) _ _ _ _ .refl done)]
    exact tended.rebinds
  exact ⟨⟨steady, rebinds⟩, steady.current.settled steady.coherent rebinds closed, closed⟩

/-- Such histories keep a workspace tended, and its options as they are. -/
theorem after_commands {commands : List Command}
    (plain : ∀ command ∈ commands, command.isTransactional = true) :
    (workspace.after commands).Tended ∧ (workspace.after commands).options = workspace.options := by
  have steady : (workspace.after commands).Steady :=
    after_of_next (fun command inside steady => steady.next (plain command inside)) tended.toSteady
  have options := @after_of_turn (fun state => state.options = workspace.options) _ plain
    (fun coherent same turn => (coherent.options_turn turn).trans same) _ tended.coherent rfl
  refine ⟨⟨steady, ?_⟩, options⟩
  rw [options]
  exact tended.rebinds

end Tended

/-- **Where slots that wait are looked at again, such histories keep a workspace tended.** -/
theorem tended_after {options : Options} (rebinds : options.rebindWaiting = true)
    {commands : List Command} (plain : ∀ command ∈ commands, command.isTransactional = true) :
    ((ofOptions options).after commands).Tended := by
  refine ⟨steady_after options plain, ?_⟩
  rw [options_after plain]
  exact rebinds

end Workspace

end EntityModel
