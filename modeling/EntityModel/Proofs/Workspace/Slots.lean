import EntityModel.Proofs.Arena.Changes
import EntityModel.Proofs.Arena.Paths
import EntityModel.Proofs.Arena.Runs
import EntityModel.Proofs.Commit.Writing
import EntityModel.Proofs.Workspace.Progress

/-
**Every command works on the slots by the operations of the arena.**

* `Slotwise` — what is done to a workspace is any number of operations on its slots.
* `slotwise_edit`, `slotwise_commit`, `slotwise_turn`, `slotwise_visit` — edits, commits and the steps
  in the life of a node are of this kind; a commit empties the slots of what is deleted, then drops
  the documents, and changes nodes only.
* `slotwise_after` — **so is every history of commands.**
-/

namespace EntityModel

namespace Catalog

/-- The slots do not depend on the index of symbols. -/
theorem Reworked.arena_eq {f : Node → Node} {before after : Catalog}
    (reworked : Reworked f before after) (documents : after.documents = before.documents) :
    after.arena = before.arena := by
  rcases before with ⟨_, _, _, _⟩
  rcases after with ⟨_, _, _, _⟩
  obtain rfl := documents
  obtain rfl := reworked.nextNode
  obtain rfl := reworked.nextDocument
  rfl

theorem arena_withdrawSymbol (catalog : Catalog) (node : Node) :
    (Workspace.withdrawSymbol catalog node).arena = catalog.arena :=
  (reworked_withdrawSymbol catalog node).arena_eq (documents_withdrawSymbol catalog node)

theorem arena_replaceSymbol (catalog : Catalog) (id : NodeId) (earlier later : Option Symbol) :
    (Workspace.replaceSymbol catalog id earlier later).arena = catalog.arena :=
  (reworked_replaceSymbol catalog id earlier later).arena_eq
    (documents_replaceSymbol catalog id earlier later)

/-- A change of a node that keeps its number, kind and tag is an operation. -/
theorem step_modify (catalog : Catalog) (id : NodeId) {change : Node → Node}
    (keeps : ∀ node, (change node).id = node.id ∧ (change node).kind = node.kind ∧
      (change node).head.tag = node.head.tag) :
    Arena.Step catalog.arena (catalog.modify id change).arena := by
  rw [arena_modify catalog (fun node => (keeps node).1)]
  exact .write keeps

end Catalog

namespace Workspace

/-- What is done to the workspace is done by operations on its slots. -/
def Slotwise (before after : Workspace) : Prop :=
  Arena.Steps before.catalog.arena after.catalog.arena

/-! ### The life of a node -/

section Life

variable (workspace : Workspace) (site : Site)

theorem slotwise_modify (id : NodeId) {change : Node → Node}
    (keeps : ∀ node, (change node).id = node.id ∧ (change node).kind = node.kind ∧
      (change node).head.tag = node.head.tag) : Slotwise workspace (workspace.modify id change) :=
  .single (workspace.catalog.step_modify id keeps)

theorem slotwise_parsed : Slotwise workspace (workspace.parsed site) := by
  unfold Slotwise
  rw [← Catalog.arena_withdrawSymbol workspace.catalog site.node]
  exact .single (Catalog.step_modify _ site.id fun _ => ⟨rfl, rfl, rfl⟩)

theorem slotwise_normalized : Slotwise workspace (workspace.normalized site) := by
  unfold Slotwise
  rw [← Catalog.arena_replaceSymbol workspace.catalog site.id site.node.symbol site.declaredSymbol?]
  exact .single (Catalog.step_modify _ site.id fun _ => ⟨rfl, rfl, rfl⟩)

theorem slotwise_applied (id : ReferenceId) (resolution : Resolution) :
    Slotwise workspace (workspace.applied id resolution) :=
  .single (workspace.catalog.step_modify id.owner fun _ => ⟨rfl, rfl, rfl⟩)

theorem slotwise_resolved : Slotwise workspace (workspace.resolved site) := by
  have answered : ∀ (outcomes : List (ReferenceId × Resolution)) (workspace : Workspace),
      Slotwise workspace (outcomes.foldl
        (fun workspace outcome => workspace.applied outcome.1 outcome.2) workspace) := by
    intro outcomes
    induction outcomes with
    | nil => exact fun _ => .refl
    | cons outcome outcomes ih =>
      exact fun workspace => (slotwise_applied workspace outcome.1 outcome.2).trans (ih _)
  exact (answered (workspace.evaluateAll site.node) workspace).trans
    (slotwise_modify _ site.id fun _ => ⟨rfl, rfl, rfl⟩)

end Life

theorem slotwise_visit {workspace after : Workspace} (visit : Visit workspace after) :
    Slotwise workspace after := by
  cases visit with
  | parse member => exact slotwise_parsed workspace _
  | normalize member => exact slotwise_normalized workspace _
  | resolve member => exact slotwise_resolved workspace _

/-! ### Edits -/

theorem slotwise_edit {fits : Site → Element → Prop} {workspace after : Workspace}
    (numbered : workspace.catalog.Numbered) (edit : Edit fits workspace after) :
    Slotwise workspace after := by
  cases edit with
  | «open» closed => exact .refl
  | write rewrites =>
    refine slotwise_modify (workspace.changeTransaction _) _ fun node => ?_
    obtain ⟨head, stage, start, _, same⟩ := rewrites node
    rw [same]
    exact ⟨rfl, rfl, start.tag⟩
  | load uri layer root =>
    refine .single ?_
    show Arena.Step _ (workspace.catalog.addDocument uri layer root).1.arena
    rw [numbered.arena_addDocument]
    exact .load uri layer root
  | @insert site index element member fit =>
    refine .single ?_
    show Arena.Step _ (workspace.catalog.insertUnder site index element).1.arena
    rw [numbered.arena_insertUnder member]
    exact .insert (numbered.cell?_of_site member) index element
  | unload member => exact .refl
  | delete member => exact .refl

theorem slotwise_edits {fits : Site → Element → Prop} {workspace after : Workspace}
    (coherent : workspace.Coherent) (edits : Edits fits workspace after) :
    Slotwise workspace after := by
  induction edits with
  | refl => exact .refl
  | tail earlier edit ih =>
    exact ih.trans (slotwise_edit (coherent.edits earlier).numbered edit)

/-! ### Commits -/

section Removing

variable {pass : Pass}

theorem slotwise_deleteTree (numbered : pass.workspace.catalog.Numbered) (root : NodeId) :
    Slotwise pass.workspace (pass.deleteTree root).workspace := by
  unfold Pass.deleteTree
  cases located : pass.workspace.catalog.site? root with
  | none => exact .refl
  | some site =>
    have live : pass.workspace.catalog.contains root = true := by
      rw [Catalog.contains, located]
      rfl
    have dropped : ∀ pass : Pass, (site.subtree.foldl Pass.dropNode pass).workspace.catalog.arena =
        pass.workspace.catalog.arena :=
      @view_of_foldl _ _ _ Pass.dropNode (fun pass => pass.workspace.catalog.arena)
        (fun _ _ => rfl) site.subtree
    have withdrawn : ∀ pass : Pass,
        (site.subtree.foldl Pass.withdrawNode pass).workspace.catalog.arena =
          pass.workspace.catalog.arena :=
      @view_of_foldl _ _ _ Pass.withdrawNode (fun pass => pass.workspace.catalog.arena)
        (fun pass node => Catalog.arena_withdrawSymbol pass.workspace.catalog node) site.subtree
    unfold Slotwise
    simp only
    rw [dropped, withdrawn]
    show Arena.Steps _ (pass.workspace.catalog.removeSubtree root).arena
    rw [numbered.arena_removeSubtree live]
    exact .single (.remove (numbered.walk_subtree root))

theorem slotwise_deleteTrees (roots : List NodeId) : ∀ {pass : Pass}, pass.workspace.Sound →
    Slotwise pass.workspace (roots.foldl Pass.deleteTree pass).workspace := by
  induction roots with
  | nil => exact fun _ => .refl
  | cons root roots ih =>
    intro pass sound
    exact (slotwise_deleteTree sound.numbered root).trans
      (ih ((treeGone_deleteTree sound root).sound sound))

/-- Documents whose tree is gone leave the slots alone. -/
theorem steps_dropDocuments (ids : List DocumentId) : ∀ {catalog : Catalog},
    (∀ document ∈ catalog.documents, document.id ∈ ids → document.root = none) →
      Arena.Steps catalog.arena (ids.foldl Catalog.dropDocument catalog).arena := by
  induction ids with
  | nil => exact fun _ => .refl
  | cons id ids ih =>
    intro catalog hollow
    have bare : ∀ document ∈ catalog.documents, document.id = id → document.root = none :=
      fun document member same => hollow document member (List.mem_cons.mpr (Or.inl same))
    have first : Arena.Step catalog.arena (catalog.dropDocument id).arena := by
      rw [Catalog.arena_dropDocument catalog id bare]
      refine .drop fun volume listed same => ?_
      obtain ⟨document, member, rfl⟩ := List.mem_map.mp listed
      exact Option.map_eq_none_iff.mpr (bare document member same)
    refine (Relation.ReflTransGen.single first).trans (ih fun document member listed => ?_)
    exact hollow document (List.mem_of_mem_filter member) (List.mem_cons_of_mem _ listed)

end Removing

theorem endures_slotwise : Endures Slotwise where
  refl _ := .refl
  trans first second := first.trans second
  parsed := slotwise_parsed
  normalized := slotwise_normalized
  resolved := slotwise_resolved
  atStage workspace id := slotwise_modify workspace id fun _ => ⟨rfl, rfl, rfl⟩

theorem slotwise_commit {workspace after : Workspace} {report : Report}
    (coherent : workspace.Coherent) (done : workspace.commit = .ok (after, report)) :
    Slotwise workspace after := by
  cases opened : workspace.transaction with
  | none =>
    unfold commit at done
    rw [opened] at done
    exact nomatch done
  | some transaction =>
    have deleted := slotwise_deleteTrees transaction.deleted.items
      (show (Pass.start workspace.closed).workspace.Sound from coherent.toSound.closed)
    have dropped := steps_dropDocuments transaction.unloaded (coherent.dropped opened)
    exact (deleted.trans dropped).trans (endures_slotwise.commit opened done)

/-! ### Every command -/

theorem slotwise_turn {fits : Site → Element → Prop} {workspace after : Workspace}
    (coherent : workspace.Coherent) (turn : Turn fits workspace after) :
    Slotwise workspace after := by
  cases turn with
  | edit edits => exact slotwise_edits coherent edits
  | commit edits done =>
    exact (slotwise_edits coherent edits).trans (slotwise_commit (coherent.edits edits) done)
  | rebind member owner ready held => exact slotwise_applied workspace _ _

/-- **Every command works by operations on the slots.** -/
theorem slotwise_next {workspace : Workspace} (coherent : workspace.Coherent) (command : Command) :
    Slotwise workspace (workspace.next command) :=
  next_of_step .refl (slotwise_turn coherent) slotwise_visit command

/-- **So does every history of commands.** -/
theorem slotwise_after {workspace : Workspace} (coherent : workspace.Coherent)
    (commands : List Command) : Slotwise workspace (workspace.after commands) := by
  induction commands generalizing workspace with
  | nil => exact .refl
  | cons command commands ih =>
    exact (slotwise_next coherent command).trans (ih (coherent.next command))

end Workspace

end EntityModel
