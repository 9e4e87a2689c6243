import EntityModel.Proofs.Catalog.Written
import EntityModel.Proofs.Commit.Phases

/-
**A commit changes nothing that is written.**

Reading, naming and resolving fill in what is known of the nodes. What is written changes only where
something is removed.

* `written_parsed`, `written_normalized`, `written_resolved` — the steps in the life of a node.
* `written_of_commit` — **a commit that removes nothing keeps all that is written.**
-/

namespace EntityModel

namespace Workspace

/-! ### The life of a node -/

section Life

variable (workspace : Workspace) (site : Site)

theorem written_parsed : (workspace.parsed site).catalog.written = workspace.catalog.written := by
  refine Eq.trans ?_ ((Catalog.reworked_withdrawSymbol workspace.catalog site.node).written
    (Catalog.documents_withdrawSymbol workspace.catalog site.node))
  show (Catalog.modify _ _ _).written = _
  rw [Catalog.written_modify_self]
  exact fun _ => rfl

theorem written_normalized :
    (workspace.normalized site).catalog.written = workspace.catalog.written := by
  refine Eq.trans ?_ ((Catalog.reworked_replaceSymbol workspace.catalog site.id _ _).written
    (Catalog.documents_replaceSymbol workspace.catalog site.id site.node.symbol
      site.declaredSymbol?))
  show (Catalog.modify _ _ _).written = _
  rw [Catalog.written_modify_self]
  exact fun _ => rfl

theorem written_applied (id : ReferenceId) (resolution : Resolution) :
    (workspace.applied id resolution).catalog.written = workspace.catalog.written := by
  show (Catalog.modify _ _ _).written = _
  rw [Catalog.written_modify_self]
  exact fun _ => rfl

theorem written_resolved : (workspace.resolved site).catalog.written = workspace.catalog.written := by
  have answered := @view_of_foldl _ _ _
    (fun workspace (outcome : ReferenceId × Resolution) => workspace.applied outcome.1 outcome.2)
    (fun workspace : Workspace => workspace.catalog.written)
    (fun workspace outcome => written_applied workspace outcome.1 outcome.2)
    (workspace.evaluateAll site.node) workspace
  refine Eq.trans ?_ answered
  show (Catalog.modify _ _ _).written = _
  rw [Catalog.written_modify_self]
  exact fun _ => rfl

end Life

/-! ### Commits -/

/-- No step in the life of a node changes anything written. -/
theorem endures_written :
    Endures fun before after => after.catalog.written = before.catalog.written where
  refl _ := rfl
  trans first second := second.trans first
  parsed := written_parsed
  normalized := written_normalized
  resolved := written_resolved
  atStage workspace id := Catalog.written_modify_self workspace.catalog id fun _ => rfl

/-- **A commit that removes nothing keeps all that is written.** -/
theorem written_of_commit {workspace after : Workspace} {report : Report}
    (done : workspace.commit = .ok (after, report)) (stays : workspace.current.deleted = .empty)
    (loaded : workspace.current.unloaded = []) : after.catalog.written = workspace.catalog.written := by
  cases opened : workspace.transaction with
  | none =>
    unfold commit at done
    rw [opened] at done
    exact nomatch done
  | some transaction =>
    rw [current_of_transaction opened] at stays loaded
    have started : (workspace.cleared transaction).workspace.catalog = workspace.catalog := by
      unfold cleared
      rw [stays, loaded]
      rfl
    rw [endures_written.commit opened done, started]

end Workspace

end EntityModel
