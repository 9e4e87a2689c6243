import EntityModel.Proofs.Commit.Writing
import EntityModel.Proofs.Workspace.Reachable

/-
**Removals that wait for the commit.**

Only what is there can be marked for removal, and a commit removes nothing that is not marked. So
what comes in after a mark is spared by the commit.

* `DeletedBelow` — the nodes that are marked are older than the next one.
* `DeletedBelow.edit`, `DeletedBelow.turn`, `DeletedBelow.visit` — no step changes this;
  `deletedBelow_after` — **it holds after every history of commands.**
* `mem_documents_cleared` — **a document stays where neither it nor one of its nodes is marked.**
-/

namespace EntityModel

/-- Where no label is dropped the tree stays. -/
theorem Tree.prune_of_forall {α : Type} {drops : α → Bool} (tree : Tree α) :
    (∀ label ∈ tree.labels, drops label = false) → prune drops tree = some tree := by
  induction tree using Tree.induct with
  | step label children ih =>
    intro keeps
    have each : ∀ child ∈ children, prune drops child = some child := fun child member =>
      ih child member fun below inside =>
        keeps below (@mem_labels_of_child _ (.node label children) child member below inside)
    rw [prune_node, keeps label (labels_node label children ▸ List.mem_cons_self),
      List.filterMap_congr each, List.filterMap_some]
    rfl

namespace Workspace

/-! ### Marks -/

/-- Every node that is marked for removal has an older number than the next one. -/
def DeletedBelow (workspace : Workspace) : Prop :=
  ∀ id ∈ workspace.current.deleted, id.number < workspace.catalog.nextNode

theorem deletedBelow_of_closed {workspace : Workspace} (closed : workspace.transaction = none) :
    workspace.DeletedBelow := by
  intro id marked
  rw [current, closed] at marked
  exact absurd marked List.not_mem_nil

namespace DeletedBelow

variable {workspace after : Workspace} (below : workspace.DeletedBelow)

include below

/-- The marks stay, and no number is free again. -/
theorem grow (marks : after.current.deleted = workspace.current.deleted)
    (numbers : workspace.catalog.nextNode ≤ after.catalog.nextNode) : after.DeletedBelow := by
  intro id marked
  rw [marks] at marked
  exact Nat.lt_of_lt_of_le (below id marked) numbers

theorem edit (numbered : workspace.catalog.Numbered) {fits : Site → Element → Prop}
    (edit : Edit fits workspace after) : after.DeletedBelow := by
  cases edit with
  | «open» closed => exact fun id marked => absurd marked List.not_mem_nil
  | write rewrites => exact below
  | load uri layer root => exact below.grow rfl (Nat.le_add_right _ _)
  | insert member fit => exact below.grow rfl (Nat.le_add_right _ _)
  | @unload document member =>
    intro id marked
    rcases OrderedSet.mem_insertAll.mp marked with earlier | now
    · exact below id earlier
    · -- the root of the document
      obtain ⟨tree, rooted, rfl⟩ := Option.map_eq_some_iff.mp (Option.mem_toList.mp now)
      obtain ⟨rest, lines⟩ := Tree.lines_eq_cons tree
      exact numbered.below _
        (Catalog.row_of_line member rooted (lines ▸ List.mem_cons_self))
  | @delete site member =>
    intro id marked
    rcases OrderedSet.mem_insert.mp marked with earlier | rfl
    · exact below id earlier
    · exact numbered.below site.row (Catalog.row_mem_rows member)

theorem edits (coherent : workspace.Coherent) {fits : Site → Element → Prop}
    (edits : Edits fits workspace after) : after.DeletedBelow := by
  induction edits with
  | refl => exact below
  | tail before edit ih => exact ih.edit (coherent.edits before).numbered edit

theorem turn (coherent : workspace.Coherent) {fits : Site → Element → Prop}
    (turn : Turn fits workspace after) : after.DeletedBelow := by
  cases turn with
  | edit edits => exact below.edits coherent edits
  | commit edits done =>
    obtain ⟨transaction, course, _, runs, rfl⟩ := (coherent.edits edits).runs_of_commit done
    exact deletedBelow_of_closed runs.transaction_after
  | rebind member owner ready held => exact below

theorem visit (visit : Visit workspace after) : after.DeletedBelow := by
  cases visit with
  | parse member =>
    exact below.grow rfl (Nat.le_of_eq (congrArg Catalog.nextNode (written_parsed _ _)).symm)
  | normalize member =>
    exact below.grow rfl (Nat.le_of_eq (congrArg Catalog.nextNode (written_normalized _ _)).symm)
  | @resolve site member =>
    refine below.grow ?_ (Nat.le_of_eq (congrArg Catalog.nextNode (written_resolved _ _)).symm)
    rw [current, transaction_resolved workspace site]
    rfl

theorem next (coherent : workspace.Coherent) (command : Command) :
    (workspace.next command).DeletedBelow :=
  next_of_step below (below.turn coherent) below.visit command

end DeletedBelow

/-- **Every history of commands marks what is there.** -/
theorem deletedBelow_after (options : Options) (commands : List Command) :
    ((ofOptions options).after commands).DeletedBelow := by
  have both : ((ofOptions options).after commands).Coherent ∧
      ((ofOptions options).after commands).DeletedBelow :=
    @after_of_next (fun workspace => workspace.Coherent ∧ workspace.DeletedBelow) commands
      (fun command _ held => ⟨held.1.next command, held.2.next held.1 command⟩) _
      ⟨coherent_ofOptions options, deletedBelow_of_closed rfl⟩
  exact both.2

/-! ### Commits -/

/-- A tree that is removed leaves a document alone that has none of its nodes. -/
theorem mem_documents_deleteTree {pass : Pass} {root : NodeId} {document : Document}
    (member : document ∈ pass.workspace.catalog.documents)
    (apart : ∀ tree ∈ document.root, ∀ node ∈ tree.labels, node.id ≠ root) :
    document ∈ (pass.deleteTree root).workspace.catalog.documents := by
  unfold Pass.deleteTree
  split
  · exact member
  · rename_i site found
    -- the nodes withdraw from the index and the ledger alone
    have withdrawn := @view_of_foldl _ _ _ Pass.withdrawNode
      (fun pass => pass.workspace.catalog.documents)
      (fun pass node => Catalog.documents_withdrawSymbol pass.workspace.catalog node) site.subtree
    have dropped := @view_of_foldl _ _ _ Pass.dropNode
      (fun pass => pass.workspace.catalog.documents) (fun _ _ => rfl) site.subtree
    simp only [dropped, withdrawn]
    refine List.mem_map.mpr ⟨document, member, ?_⟩
    have kept : document.root.bind (Tree.prune fun node => node.id = root) = document.root := by
      cases rooted : document.root with
      | none => rfl
      | some tree =>
        exact Tree.prune_of_forall tree fun node inside =>
          decide_eq_false (apart tree rooted node inside)
    rw [kept]

/-- **A document stays** where neither it nor one of its nodes is marked. -/
theorem mem_documents_cleared {workspace : Workspace} {transaction : Transaction}
    {document : Document} (member : document ∈ workspace.catalog.documents)
    (apart : ∀ tree ∈ document.root, ∀ node ∈ tree.labels, node.id ∉ transaction.deleted)
    (stays : document.id ∉ transaction.unloaded) :
    document ∈ (workspace.cleared transaction).workspace.catalog.documents := by
  have trees : ∀ (roots : List NodeId) (pass : Pass),
      document ∈ pass.workspace.catalog.documents →
      (∀ tree ∈ document.root, ∀ node ∈ tree.labels, node.id ∉ roots) →
      document ∈ (roots.foldl Pass.deleteTree pass).workspace.catalog.documents := by
    intro roots
    induction roots with
    | nil => exact fun _ inside _ => inside
    | cons root roots ih =>
      intro pass inside others
      refine ih _ (mem_documents_deleteTree inside fun tree rooted node listed same => ?_)
        fun tree rooted node listed later => ?_
      · exact others tree rooted node listed (same ▸ List.mem_cons_self)
      · exact others tree rooted node listed (List.mem_cons_of_mem _ later)
  unfold cleared Pass.dropDocuments
  dsimp only
  rw [(Catalog.documents_dropDocuments _ _).1, List.mem_filter, decide_eq_true_eq]
  exact ⟨trees _ (.start workspace.closed) member apart, stays⟩

end Workspace

end EntityModel
