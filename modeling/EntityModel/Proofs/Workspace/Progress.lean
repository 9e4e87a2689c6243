import EntityModel.Proofs.Workspace.Reachable

/-
**Commits and rebuilds go through.**

* `Begun` — every node is taken back to its written form, as a rebuild does first.
* `Coherent.exists_rebuild` — a coherent workspace without a transaction is rebuilt by a commit that
  runs its course.
* `Dropped` — the documents that a commit drops have lost their trees by then, so no node is left
  without a document.
* `proceeds_after` — **in every state a commit goes through exactly when a transaction is open, a
  rebuild exactly when none is**, and no transaction is open afterwards.
-/

namespace EntityModel

namespace Workspace

/-! ### Every node is edited -/

/-- Some nodes have begun to be edited, and nothing is to be removed. -/
structure Begun (opened : Workspace) (done : List NodeId) (state : Workspace) : Prop where
  reworked : Catalog.Reworked (onlyIn done (Node.atStage .unparsed)) opened.catalog state.catalog
  transaction : ∃ transaction, state.transaction = some transaction ∧ transaction.deleted = .empty

theorem Begun.step {opened : Workspace} (numbered : opened.catalog.Numbered) {done : List NodeId}
    {state : Workspace} (begun : Begun opened done state) {id : NodeId}
    (live : id ∈ opened.catalog.documentOrder) (new : id ∉ done) :
    ∃ next, state.beginEdit id = .ok next ∧ Begun opened (done ++ [id]) next := by
  have inPlace : InPlace (onlyIn done (Node.atStage .unparsed)) :=
    (inPlace_atStage .unparsed).of_cases (onlyIn_cases done _)
  obtain ⟨transaction, opens, kept⟩ := begun.transaction
  have current : state.current = transaction := current_of_transaction opens
  rw [Catalog.documentOrder_eq] at live
  obtain ⟨row, member, rfl⟩ := List.mem_map.mp live
  obtain ⟨site, _, located, _⟩ := begun.reworked.exists_site inPlace.sameId
    (begun.reworked.numbered inPlace.sameId numbered) member
  have stays : state.isPendingDelete row.id = false := by
    unfold isPendingDelete
    rw [current, kept, List.any_eq_false]
    intro each _
    rw [decide_eq_true_eq]
    exact List.not_mem_nil
  have began : state.beginEdit row.id = .ok (state.write row.id (Node.atStage .unparsed)) := by
    unfold beginEdit
    rw [bind_eq_ok]
    exact ⟨site, editable_eq_ok.mpr ⟨located, stays⟩, rfl⟩
  refine ⟨_, began, ?_, ?_⟩
  · rw [← onlyAt_onlyIn (inPlace_atStage .unparsed).sameId new]
    exact begun.reworked.trans
      (Catalog.reworked_modify _ (inPlace_atStage .unparsed).sameId row.id)
  · refine ⟨{ transaction with edited := transaction.edited.insert row.id }, ?_, kept⟩
    show some { state.current with edited := state.current.edited.insert row.id } = _
    rw [current]

theorem exists_begun {opened : Workspace} (numbered : opened.catalog.Numbered)
    (fresh : opened.transaction = some .empty) :
    ∃ edited, opened.catalog.documentOrder.foldlM beginEdit opened = .ok edited ∧
      Begun opened opened.catalog.documentOrder edited := by
  have start : Begun opened [] opened := by
    refine ⟨?_, .empty, fresh, rfl⟩
    rw [onlyIn_nil]
    exact Catalog.Reworked.refl _
  exact @foldlM_ok _ _ _ _ (Begun opened) opened.catalog.documentOrder [] opened
    numbered.documentOrder_nodup start
    fun done state id live new begun => begun.step numbered live new

/-- **A rebuild runs its course** where no transaction is open: the commit of a workspace in which
every node has begun to be edited. -/
theorem Coherent.exists_rebuild {workspace : Workspace} (coherent : workspace.Coherent)
    (closed : workspace.transaction = none) :
    ∃ edited, Begun { workspace with transaction := some .empty } workspace.catalog.documentOrder
        edited ∧ Edits (fun _ _ => True) workspace edited ∧
      ∃ transaction, edited.transaction = some transaction ∧ transaction.deleted = .empty ∧
        ∃ course report, Course.Runs edited.closed transaction course ∧
          edited.commit = .ok (course.after.workspace, report) ∧
          workspace.rebuild = .ok (course.after.workspace, report) := by
  obtain ⟨edited, looped, begun⟩ := @exists_begun { workspace with transaction := some .empty }
    coherent.numbered rfl
  have opened : workspace.beginTransaction = .ok { workspace with transaction := some .empty } := by
    unfold beginTransaction inTransaction
    rw [closed]
    rfl
  have edits : Edits (fun _ _ => True) workspace edited := by
    refine Relation.ReflTransGen.trans (.single (.open closed)) ?_
    exact @steps_of_foldlM _ _ _ (Edit fun _ _ => True) (fun state => state) _ _
      (fun state item next _ taken => edits_beginEdit taken) _ _ looped
  obtain ⟨transaction, opens, keeps⟩ := begun.transaction
  obtain ⟨course, runs, report, committed⟩ := exists_run (coherent.edits edits) opens
  refine ⟨edited, begun, edits, transaction, opens, keeps, course, report, runs, committed, ?_⟩
  unfold rebuild
  rw [bind_eq_ok]
  refine ⟨_, opened, ?_⟩
  rw [bind_eq_ok]
  exact ⟨edited, looped, committed⟩

/-! ### Documents on their way out -/

/-- Once the trees to remove are gone, the documents to drop have none. -/
def Dropped (workspace : Workspace) (transaction : Transaction) : Prop :=
  let cleared := transaction.deleted.items.foldl Pass.deleteTree (.start workspace.closed)
  ∀ document ∈ cleared.workspace.catalog.documents, document.id ∈ transaction.unloaded →
    document.root = none

theorem root_eq_none_of_rows {document : Document} (hollow : document.rows = []) :
    document.root = none := by
  cases root : document.root with
  | none => rfl
  | some tree =>
    obtain ⟨rest, lines⟩ := Tree.lines_eq_cons tree
    rw [Document.rows_of_root root, lines] at hollow
    exact absurd hollow (List.cons_ne_nil _ _)

theorem Coherent.dropped {workspace : Workspace} (coherent : workspace.Coherent)
    {transaction : Transaction} (opened : workspace.transaction = some transaction) :
    workspace.Dropped transaction := by
  have hollow := (coherent.removal opened rfl).2
  exact fun document member listed => root_eq_none_of_rows (hollow document member listed)

/-! ### Every state -/

/-- Commits and rebuilds go through whenever they are allowed, and leave no transaction open. -/
structure Proceeds (workspace : Workspace) : Prop where
  commits : workspace.inTransaction = true ↔
    ∃ after report, workspace.commit = .ok (after, report) ∧ after.inTransaction = false
  rebuilds : workspace.inTransaction = false ↔
    ∃ after report, workspace.rebuild = .ok (after, report) ∧ after.inTransaction = false
  /-- No node outlives its document. -/
  dropped : ∀ transaction, workspace.transaction = some transaction → workspace.Dropped transaction

theorem inTransaction_of_runs {workspace : Workspace} {transaction : Transaction}
    {course : Course} (runs : course.Runs workspace.closed transaction) :
    course.after.workspace.inTransaction = false := by
  unfold inTransaction
  rw [runs.transaction_after]
  rfl

theorem Coherent.proceeds {workspace : Workspace} (coherent : workspace.Coherent) :
    workspace.Proceeds := by
  refine ⟨⟨?_, ?_⟩, ⟨?_, ?_⟩, fun transaction opened => coherent.dropped opened⟩
  · intro inside
    obtain ⟨transaction, opened⟩ := Option.isSome_iff_exists.mp inside
    obtain ⟨course, runs, report, committed⟩ := exists_run coherent opened
    exact ⟨course.after.workspace, report, committed, inTransaction_of_runs runs⟩
  · rintro ⟨after, report, committed, _⟩
    obtain ⟨transaction, _, opened, _⟩ := coherent.runs_of_commit committed
    unfold inTransaction
    rw [opened]
    rfl
  · intro outside
    have closed : workspace.transaction = none := by
      rw [← Option.isNone_iff_eq_none, ← Option.not_isSome]
      exact congrArg not outside
    obtain ⟨_, _, _, _, _, _, course, report, runs, _, rebuilt⟩ := coherent.exists_rebuild closed
    exact ⟨course.after.workspace, report, rebuilt, inTransaction_of_runs runs⟩
  · rintro ⟨after, report, rebuilt, _⟩
    unfold rebuild at rebuilt
    obtain ⟨opened, began, _⟩ := bind_eq_ok.mp rebuilt
    cases inside : workspace.inTransaction with
    | false => rfl
    | true =>
      unfold beginTransaction at began
      rw [inside] at began
      exact nomatch began

end Workspace

/-- **A commit never fails**: in every state that commands lead to, it goes through exactly when a
transaction is open, and a rebuild exactly when none is. -/
theorem proceeds_after (options : Options) (commands : List Command) :
    ((Workspace.ofOptions options).after commands).Proceeds :=
  (Workspace.coherent_after options commands).proceeds

end EntityModel
