import EntityModel.Proofs.Commit.Untouched

/-
**A commit brings everything up to date.**

* `finish` — what the commit does to a node after the reading keeps the content that is read.
* `symbol_change`, `contentRead_change` — a node has the symbol it declares and the content that is
  read from its written form.
* `upToDate_busy`, `lasting_idle` — the nodes that the commit deals with are given the answers of an
  evaluation, what is kept of the others lasts.
* `Runs.current_after` — after the commit nothing waits any more.
* `Runs.settled_of_reread` — a commit that reads every node again settles everything, whatever was
  known before.
-/

namespace EntityModel

open Workspace

namespace Course

/-- What the commit makes of a node after the reading. -/
def finish (course : Course) : Node → Node :=
  onlyIn (course.work ++ course.rebound) course.queued.workspace.answer ∘
    onlyIn course.work course.read.workspace.catalog.rename

theorem change_eq (course : Course) : course.change = course.finish ∘ course.reader := rfl

theorem keepsOutline_naming (course : Course) :
    KeepsOutline (onlyIn course.work course.read.workspace.catalog.rename) :=
  (Catalog.keepsOutline_rename _).of_cases (onlyIn_cases course.work _)

theorem keepsOutline_resolving (course : Course) :
    KeepsOutline (onlyIn (course.work ++ course.rebound) course.queued.workspace.answer) :=
  course.queued.workspace.keepsOutline_answer.of_cases (onlyIn_cases _ _)

theorem keepsOutline_finish (course : Course) : KeepsOutline course.finish :=
  fun node => (course.keepsOutline_resolving _).trans (course.keepsOutline_naming node)

theorem defects_finish (course : Course) (node : Node) :
    (course.finish node).defects = node.defects := by
  have renamed : ∀ node : Node, (course.read.workspace.catalog.rename node).defects = node.defects := by
    intro node
    unfold Catalog.rename
    split
    · rfl
    · rfl
  have named := keeps_of_cases Node.defects (onlyIn_cases course.work _) renamed node
  have resolved := keeps_of_cases Node.defects
    (onlyIn_cases (course.work ++ course.rebound) course.queued.workspace.answer) fun _ => rfl
  exact (resolved _).trans named

theorem written_finish (course : Course) (node : Node) :
    (course.finish node).content.map Content.written = node.content.map Content.written := by
  have same := congrArg Node.content (course.keepsOutline_finish node)
  exact same

namespace Runs

variable {workspace : Workspace} {transaction : Transaction} {course : Course}
  (runs : course.Runs workspace.closed transaction)
  (opened : workspace.transaction = some transaction) (current : workspace.Current)
  {row : Row} (live : row ∈ course.cleared.workspace.catalog.rows)

include runs live

theorem live_before : row ∈ workspace.catalog.rows :=
  (runs.removal.mem_rows.mp live).1

omit runs live in
/-- What counts for the content is what the reading makes of the node. -/
theorem contentRead_of_reader (read : (course.reader row.node).content.map Content.written =
      some (Content.read row.source).1 ∧
    (course.reader row.node).defects = (Content.read row.source).2) :
    (row.map course.change).ContentRead := by
  have sources : (row.map course.change).source = row.source := course.inPlace_change.source_row row
  unfold Row.ContentRead
  rw [sources]
  show (course.finish (course.reader row.node)).content.map Content.written = _ ∧
    (course.finish (course.reader row.node)).defects = _
  rw [course.written_finish, course.defects_finish]
  exact read

theorem contentRead_of_reread (again : row.id ∈ course.reread) :
    (row.map course.change).ContentRead := by
  refine contentRead_of_reader ?_
  rw [reader, onlyIn_of_mem (show row.node.id ∈ course.reread from again), Catalog.reread,
    show row.node.id = row.id from rfl, runs.removal.sound.numbered.row?_of_mem live]
  exact ⟨congrArg some (Content.written_read row.source), rfl⟩

omit runs live in
/-- What counts for the symbol is what the naming makes of the node. -/
theorem symbol_of_prepare
    (named : (course.prepare row.node).symbol = (row.map course.reader).declaredSymbol?) :
    (course.change row.node).symbol = (row.map course.change).declaredSymbol? := by
  have same : (course.change row.node).symbol = (course.prepare row.node).symbol :=
    @symbol_onlyIn course.queued.workspace.answer (fun _ => rfl) _ (course.prepare row.node)
  rw [same, named, course.change_eq, ← Row.map_map, course.keepsOutline_finish.declaredSymbol?]

theorem symbol_of_work (busy : row.id ∈ course.work) :
    (course.change row.node).symbol = (row.map course.change).declaredSymbol? :=
  symbol_of_prepare (runs.symbol_prepare live busy)

/-- Resolving changes nothing that evaluations read. -/
theorem evaluate_after (reference : Reference) :
    course.after.workspace.evaluate row.id reference =
      course.queued.workspace.evaluate row.id reference := by
  have prepared : row.map course.prepare ∈ course.queued.workspace.catalog.rows :=
    runs.reworked_prepare.map_mem live
  have number : (row.map course.prepare).id = row.id := course.inPlace_prepare.sameId row.node
  rw [← number]
  exact evaluate_reworked runs.sound_queued runs.resolving.sound runs.resolving.reworked
    course.keepsOutline_resolving
    (@symbol_onlyIn course.queued.workspace.answer (fun _ => rfl) _) runs.resolving.options prepared
    reference

/-- A node that the commit deals with is given the answers and the dependencies of an evaluation. -/
theorem upToDate_of_symbol
    (symbol : (course.change row.node).symbol = (row.map course.change).declaredSymbol?)
    (busy : row.id ∈ course.work ++ course.rebound) :
    course.after.workspace.UpToDate (row.map course.change) := by
  have number : (row.map course.change).id = row.id := course.inPlace_change.sameId row.node
  have answered := change_of_mem busy
  refine ⟨symbol, ?_, ?_⟩
  · intro reference inside
    rw [show (row.map course.change).node = course.change row.node from rfl, answered,
      references_answered] at inside
    obtain ⟨original, owned, rfl⟩ := List.mem_map.mp inside
    rw [number, runs.evaluate_after live]
    rfl
  · intro reference inside
    rw [show (row.map course.change).node = course.change row.node from rfl, answered,
      references_answered] at inside
    obtain ⟨original, owned, rfl⟩ := List.mem_map.mp inside
    have prepared : row.map course.prepare ∈ course.queued.workspace.catalog.rows :=
      runs.reworked_prepare.map_mem live
    have same : (row.map course.prepare).id = row.id := course.inPlace_prepare.sameId row.node
    have recorded := runs.resolving.recorded _ prepared (same.symm ▸ busy) original owned
    rw [same] at recorded
    rw [number, runs.evaluate_after live]
    exact recorded

omit live in
/-- **A commit that reads every node again settles everything.** -/
theorem settled_of_reread
    (all : ∀ row ∈ course.cleared.workspace.catalog.rows, row.id ∈ course.reread) :
    course.after.workspace.Settled := by
  refine ⟨?_, ?_, ?_⟩
  · intro row member
    obtain ⟨earlier, live, rfl⟩ := runs.reworked.mem_rows.mp member
    have busy := runs.work_of_reread (all earlier live)
    exact runs.upToDate_of_symbol live (runs.symbol_of_work live busy) (List.mem_append_left _ busy)
  · intro row member
    obtain ⟨earlier, live, rfl⟩ := runs.reworked.mem_rows.mp member
    show (course.change earlier.node).stage = .resolved
    rw [change_of_mem (List.mem_append_left _ (runs.work_of_reread (all earlier live)))]
    rfl
  · intro row member
    obtain ⟨earlier, live, rfl⟩ := runs.reworked.mem_rows.mp member
    exact runs.contentRead_of_reread live (all earlier live)

include opened

/-- A node that is not read again was neither edited nor planted. -/
theorem standing_of_unread (unread : row.id ∉ course.reread) :
    workspace.Standing row ∧ row.id ∉ workspace.current.edited := by
  unfold Standing
  rw [current_of_transaction opened]
  constructor
  · exact fun root planted through =>
      unread (runs.mem_reread.mpr ⟨row, live, rfl, Or.inr ⟨root, planted, through⟩⟩)
  · exact fun edited => unread (runs.mem_reread.mpr ⟨row, live, rfl, Or.inl edited⟩)

include current

theorem resolved_of_unread (unread : row.id ∉ course.reread) : row.node.stage = .resolved := by
  obtain ⟨standing, unedited⟩ := runs.standing_of_unread opened live unread
  exact current.resolved row (runs.live_before live) standing unedited

/-- **The content is the one that is read** from the written form. -/
theorem contentRead_change : (row.map course.change).ContentRead := by
  by_cases again : row.id ∈ course.reread
  · exact runs.contentRead_of_reread live again
  · refine contentRead_of_reader ?_
    rw [reader, onlyIn_of_not_mem (show row.node.id ∉ course.reread from again)]
    obtain ⟨standing, unedited⟩ := runs.standing_of_unread opened live again
    exact current.read row (runs.live_before live) standing unedited

/-- **The symbol is the one that is declared.** -/
theorem symbol_change : (course.change row.node).symbol = (row.map course.change).declaredSymbol? := by
  by_cases busy : row.id ∈ course.work
  · exact runs.symbol_of_work live busy
  · have unread : row.id ∉ course.reread := fun again => busy (runs.work_of_reread again)
    obtain ⟨standing, _⟩ := runs.standing_of_unread opened live unread
    have stage := runs.resolved_of_unread opened current live unread
    have idle := runs.line_idle live busy (by rw [stage]; rfl)
    have before := current.symbols row (runs.live_before live) standing
    refine symbol_of_prepare ?_
    rw [runs.prepare_of_not_mem (show row.node.id ∉ course.work from busy), before,
      ← course.keepsOutline_naming.declaredSymbol? (row.map course.reader), Row.map_map]
    exact (congrArg Row.declaredSymbol? idle).symm

theorem upToDate_busy (busy : row.id ∈ course.work ++ course.rebound) :
    course.after.workspace.UpToDate (row.map course.change) :=
  runs.upToDate_of_symbol live (runs.symbol_change opened current live) busy

theorem lasting_busy (busy : row.id ∈ course.work ++ course.rebound) :
    ∀ reference ∈ (course.change row.node).references,
      course.after.workspace.Lasting row.id reference := by
  intro reference inside
  have number : (row.map course.change).id = row.id := course.inPlace_change.sameId row.node
  have upToDate := runs.upToDate_busy opened current live busy
  have answer := upToDate.answers reference inside
  have dependencies := upToDate.dependencies reference inside
  rw [number] at answer dependencies
  unfold Lasting
  rw [answer, dependencies]
  exact Resolution.lasts _ _

theorem lasting_idle (coherent : workspace.Coherent)
    (idle : row.id ∉ course.work ++ course.rebound) :
    ∀ reference ∈ (course.change row.node).references,
      course.after.workspace.Lasting row.id reference := by
  intro reference inside
  have unnamed : row.id ∉ course.work := fun busy => idle (List.mem_append_left _ busy)
  have unread : row.id ∉ course.reread := fun again => unnamed (runs.work_of_reread again)
  obtain ⟨standing, _⟩ := runs.standing_of_unread opened live unread
  have stage := runs.resolved_of_unread opened current live unread
  have unqueued := runs.not_queued live idle (by rw [stage]; rfl)
  have found : course.cleared.workspace.catalog.contains row.id = true :=
    Catalog.contains_iff.mpr ⟨row, live, rfl⟩
  have kept : course.cleared.workspace.ledger.dependencies ⟨row.id, reference.role⟩ =
      workspace.ledger.dependencies ⟨row.id, reference.role⟩ :=
    @Removal.kept _ _ _ runs.removal ⟨row.id, reference.role⟩ found
      fun inQueue => unqueued (runs.queued_of_cleared inQueue)
  rw [runs.change_of_not_mem (show row.node.id ∉ _ from idle)] at inside
  have before := current.lasting row (runs.live_before live) standing reference inside
  have idleReference := runs.idle_of_not_queued coherent unread unqueued before
    (coherent.recorded row (runs.live_before live) reference inside) kept
  have lasts := runs.lasts_of_idle coherent.toSound live unnamed (by rw [stage]; rfl) before
    idleReference
  unfold Lasting
  rw [runs.evaluate_after live, runs.options_after, runs.dependencies_of_not_mem idle, kept]
  exact lasts

omit live in
/-- **After a commit nothing waits any more**: everything is as the commit has left it. -/
theorem current_after (coherent : workspace.Coherent) : course.after.workspace.Current := by
  refine ⟨?_, ?_, ?_, ?_⟩
  · intro row member _
    obtain ⟨earlier, live, rfl⟩ := runs.reworked.mem_rows.mp member
    exact runs.symbol_change opened current live
  · intro row member _ reference inside
    obtain ⟨earlier, live, rfl⟩ := runs.reworked.mem_rows.mp member
    rw [show (earlier.map course.change).id = earlier.id from
      course.inPlace_change.sameId earlier.node]
    by_cases busy : earlier.id ∈ course.work ++ course.rebound
    · exact runs.lasting_busy opened current live busy reference inside
    · exact runs.lasting_idle opened current live coherent busy reference inside
  · intro row member _ _
    obtain ⟨earlier, live, rfl⟩ := runs.reworked.mem_rows.mp member
    show (course.change earlier.node).stage = .resolved
    by_cases busy : earlier.id ∈ course.work ++ course.rebound
    · rw [change_of_mem busy]
      rfl
    · rw [runs.change_of_not_mem (show earlier.node.id ∉ _ from busy)]
      exact runs.resolved_of_unread opened current live fun again =>
        busy (List.mem_append_left _ (runs.work_of_reread again))
  · intro row member _ _
    obtain ⟨earlier, live, rfl⟩ := runs.reworked.mem_rows.mp member
    exact runs.contentRead_change opened current live

end Runs

end Course

end EntityModel
