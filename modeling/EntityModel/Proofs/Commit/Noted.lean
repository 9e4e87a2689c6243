import EntityModel.Proofs.Commit.Phases
import EntityModel.Proofs.Commit.Settling

/-
**What a commit removes and notes, and nothing else.**

The parts of a commit say what is noted at least. Here the loops are gone through once more for the
other direction: every node removed was in a tree that goes, every symbol noted is one that a node has
lost or gained.

* `Cleared` — after some trees are gone, exactly their nodes are listed as removed, each once, and
  only their symbols are noted.
* `Narrow` — naming notes only symbols that a node has lost or gained, and queues only what rests on
  a node whose symbol has changed.
* `Loops.mem_removed`, `Loops.nodup_removed` — **the nodes removed are those that are gone**, each
  once.
* `Loops.mem_touched` — **a symbol is noted just when other nodes declare it** than before.
-/

namespace EntityModel

open Workspace

/-! ### Trees that go -/

namespace Pass

theorem removed_deleteTree (pass : Pass) (root : NodeId) :
    (pass.deleteTree root).removed = pass.removed ++ pass.workspace.catalog.subtree root := by
  have dropped : ∀ (nodes : List Node) (pass : Pass),
      (nodes.foldl dropNode pass).removed = pass.removed ++ nodes.map Node.id := by
    intro nodes
    induction nodes with
    | nil => exact fun pass => (List.append_nil _).symm
    | cons node nodes ih =>
      intro pass
      rw [List.foldl_cons, ih, List.map_cons, List.append_cons]
      rfl
  unfold deleteTree Catalog.subtree
  cases pass.workspace.catalog.site? root with
  | none => exact (List.append_nil _).symm
  | some site =>
    simp only
    rw [dropped, @view_of_foldl _ _ _ withdrawNode Pass.removed (fun _ _ => rfl) site.subtree]

/-- Only symbols of the nodes that go are noted. -/
theorem noted_deleteTree {pass : Pass} (sound : pass.workspace.Sound) {root : NodeId}
    {symbol : Symbol} (noted : symbol ∈ (pass.deleteTree root).touched) :
    symbol ∈ pass.touched ∨ ∃ row ∈ pass.workspace.catalog.rows, root ∈ row.line ∧
      row.node.declared? = some symbol := by
  unfold deleteTree at noted
  cases located : pass.workspace.catalog.site? root with
  | none =>
    rw [located] at noted
    exact Or.inl noted
  | some site =>
    rw [located] at noted
    obtain ⟨member, rfl⟩ := Catalog.mem_sites_of_site? located
    have touched : symbol ∈ (site.subtree.foldl withdrawNode (pass.cut site.id)).touched := by
      rw [← @view_of_foldl _ _ _ dropNode Pass.touched (fun _ _ => rfl) site.subtree]
      exact noted
    refine ((withdrawn_subtree sound member).touched.mp touched).imp_right ?_
    rintro ⟨node, inside, declares⟩
    obtain ⟨row, live, rfl, through⟩ := sound.numbered.row_of_subtree member inside
    exact ⟨row, live, through, declares⟩

end Pass

/-- What has been removed and noted once the trees at the roots `done` are gone. -/
structure Cleared (start : Workspace) (done : List NodeId) (pass : Pass) : Prop where
  distinct : pass.removed.Nodup
  removed : ∀ {id}, id ∈ pass.removed ↔
    ∃ row ∈ start.catalog.rows, row.id = id ∧ row.passes done = true
  noted : ∀ {symbol}, symbol ∈ pass.touched →
    ∃ row ∈ start.catalog.rows, row.passes done = true ∧ row.node.declared? = some symbol

theorem cleared_start (start : Workspace) : Cleared start [] (.start start) := by
  refine ⟨List.nodup_nil, ⟨fun member => absurd member List.not_mem_nil, ?_⟩,
    fun noted => absurd noted List.not_mem_nil⟩
  rintro ⟨_, _, _, through⟩
  exact nomatch through

theorem Cleared.step {start : Workspace} {done : List NodeId} {pass : Pass}
    (numbered : start.catalog.Numbered) (removal : Removal start done pass)
    (cleared : Cleared start done pass) (root : NodeId) :
    Cleared start (done ++ [root]) (pass.deleteTree root) := by
  have live : ∀ {row : Row}, row ∈ start.catalog.rows → row.passes done = false →
      row ∈ pass.workspace.catalog.rows := fun inside stays => removal.mem_rows.mpr ⟨inside, stays⟩
  refine ⟨?_, ?_, ?_⟩
  · rw [Pass.removed_deleteTree]
    refine List.nodup_append'.mpr
      ⟨cleared.distinct, removal.sound.numbered.nodup_subtree root, fun id gone below => ?_⟩
    obtain ⟨row, inside, rfl, through⟩ := cleared.removed.mp gone
    obtain ⟨other, stays, same, _⟩ := removal.sound.numbered.mem_subtree.mp below
    obtain ⟨there, apart⟩ := removal.mem_rows.mp stays
    rw [numbered.eq_of_id there inside same, through] at apart
    exact nomatch apart
  · intro id
    rw [Pass.removed_deleteTree, List.mem_append, cleared.removed,
      removal.sound.numbered.mem_subtree]
    constructor
    · rintro (⟨row, inside, same, through⟩ | ⟨row, stays, same, below⟩)
      · exact ⟨row, inside, same, by rw [Row.passes_append, through, Bool.true_or]⟩
      · refine ⟨row, (removal.mem_rows.mp stays).1, same, ?_⟩
        rw [Row.passes_append, decide_eq_true below, Bool.or_true]
    · rintro ⟨row, inside, same, through⟩
      cases gone : row.passes done with
      | true => exact Or.inl ⟨row, inside, same, gone⟩
      | false =>
        rw [Row.passes_append, gone, Bool.false_or, decide_eq_true_eq] at through
        exact Or.inr ⟨row, live inside gone, same, through⟩
  · intro symbol noted
    rcases Pass.noted_deleteTree removal.sound noted with before | ⟨row, stays, below, declares⟩
    · obtain ⟨row, inside, through, declares⟩ := cleared.noted before
      exact ⟨row, inside, by rw [Row.passes_append, through, Bool.true_or], declares⟩
    · refine ⟨row, (removal.mem_rows.mp stays).1, ?_, declares⟩
      rw [Row.passes_append, decide_eq_true below, Bool.or_true]

theorem Cleared.deleteTrees {start : Workspace} (numbered : start.catalog.Numbered)
    (roots : List NodeId) : ∀ {done : List NodeId} {pass : Pass}, Removal start done pass →
    Cleared start done pass → Cleared start (done ++ roots) (roots.foldl Pass.deleteTree pass) := by
  induction roots with
  | nil =>
    intro done pass _ cleared
    rw [List.append_nil]
    exact cleared
  | cons root roots ih =>
    intro done pass removal cleared
    rw [List.foldl_cons, ← List.singleton_append, ← List.append_assoc]
    exact ih (removal.deleteTree root) (cleared.step numbered removal root)

/-! ### Names -/

/-- The symbol that the node at the row declares is another one than before. -/
def Row.Renames (earlier : List (NodeId × Option Symbol)) (row : Row) : Prop :=
  symbolBefore earlier row.node ≠ row.declaredSymbol?

/-- The node at the row has lost or gained the symbol. -/
structure Row.Moves (earlier : List (NodeId × Option Symbol)) (row : Row) (symbol : Symbol) : Prop
    where
  renames : row.Renames earlier
  real : symbol.isEmpty = false
  either : symbolBefore earlier row.node = some symbol ∨ row.declaredSymbol? = some symbol

/-- What naming the nodes `done` has noted and queued at most. -/
structure Narrow (read : Pass) (earlier : List (NodeId × Option Symbol)) (done : List NodeId)
    (pass : Pass) : Prop where
  noted : ∀ {symbol}, symbol ∈ pass.touched → symbol ∈ read.touched ∨
    ∃ row ∈ read.workspace.catalog.rows, row.id ∈ done ∧ row.Moves earlier symbol
  queued : ∀ {id}, id ∈ pass.queue → id ∈ read.queue ∨
    ∃ row ∈ read.workspace.catalog.rows, row.id ∈ done ∧ row.Renames earlier ∧
      earlier.lookup row.id = none ∧ ∃ reference : ReferenceId, reference.owner = id ∧
        (row.id ∈ (read.workspace.ledger.dependencies reference).targets ∨
          row.id ∈ (read.workspace.ledger.dependencies reference).context)

theorem Narrow.step {read : Pass} {earlier : List (NodeId × Option Symbol)} {done : List NodeId}
    {pass next : Pass} (naming : Naming read earlier done pass)
    (narrow : Narrow read earlier done pass) {row : Row}
    (member : row ∈ read.workspace.catalog.rows)
    (ready : row.node.stage.reaches .parsed = true) (new : row.id ∉ done)
    (ran : pass.renormalize earlier row.id = .ok next) :
    Narrow read earlier (done ++ [row.id]) next := by
  obtain ⟨site, live, number, node, declared, located⟩ := naming.exists_site member new
  rw [← number, renormalize_eq earlier located (node ▸ ready), node, declared, number] at ran
  obtain rfl := Except.ok.inj ran
  have here : row.id ∈ done ++ [row.id] := List.mem_append_right _ (List.mem_singleton_self _)
  -- what was noted and queued before the turn had its reason then
  have before : Narrow read earlier (done ++ [row.id]) pass := by
    refine ⟨fun noted => (narrow.noted noted).imp_right ?_,
      fun queued => (narrow.queued queued).imp_right ?_⟩
    · rintro ⟨other, inside, listed, moves⟩
      exact ⟨other, inside, List.mem_append_left _ listed, moves⟩
    · rintro ⟨other, inside, listed, rest⟩
      exact ⟨other, inside, List.mem_append_left _ listed, rest⟩
  by_cases same : symbolBefore earlier row.node = row.declaredSymbol?
  · rw [if_pos same]
    exact ⟨before.noted, before.queued⟩
  rw [if_neg same]
  have noted : ∀ {symbol}, symbol ∈ (pass.nameAt site (symbolBefore earlier row.node)).touched →
      symbol ∈ read.touched ∨ ∃ other ∈ read.workspace.catalog.rows,
        other.id ∈ done ++ [row.id] ∧ other.Moves earlier symbol := by
    intro symbol noted
    rcases Pass.mem_touch.mp noted with earlierNoted | ⟨listed, real⟩
    · exact before.noted earlierNoted
    · rw [List.mem_append, Option.mem_toList, Option.mem_toList, declared] at listed
      exact Or.inr ⟨row, member, here, same, real, listed⟩
  cases carried : earlier.lookup row.id with
  | some symbol => exact ⟨noted, before.queued⟩
  | none =>
    refine ⟨noted, fun queued => ?_⟩
    have indexed : (pass.nameAt site (symbolBefore earlier row.node)).workspace.ledger.Indexed :=
      naming.sound.indexed
    rcases (Pass.mem_queueDependents indexed).mp queued with already | ⟨reference, depends, owner⟩
    · exact before.queued already
    · rw [show (pass.nameAt site (symbolBefore earlier row.node)).workspace.ledger =
        read.workspace.ledger from naming.ledger] at depends
      exact Or.inr ⟨row, member, here, same, carried, reference, owner, depends⟩

/-- **Naming notes and queues nothing else.** -/
theorem narrow_of_naming {read named : Pass} (sound : read.workspace.Sound)
    {earlier : List (NodeId × Option Symbol)} {work : List NodeId} (distinct : work.Nodup)
    (ready : ∀ id ∈ work, ∃ row ∈ read.workspace.catalog.rows, row.id = id ∧
      row.node.stage.reaches .parsed = true)
    (ran : work.foldlM (Pass.renormalize earlier) read = .ok named) :
    Narrow read earlier work named := by
  have start : Naming read earlier [] read ∧ Narrow read earlier [] read :=
    ⟨naming_start sound earlier, Or.inl, Or.inl⟩
  obtain ⟨last, again, _, narrow⟩ := @foldlM_ok _ _ _ _
    (fun done pass => Naming read earlier done pass ∧ Narrow read earlier done pass) work [] read
    distinct start fun done pass item member new holds => by
      obtain ⟨row, live, rfl, reached⟩ := ready item member
      obtain ⟨next, taken, naming⟩ := holds.1.step sound.numbered live reached new
      exact ⟨next, taken, naming, holds.2.step holds.1 live reached new taken⟩
  obtain rfl := Except.ok.inj (ran.symm.trans again)
  exact narrow

/-! ### The whole commit -/

theorem reparse_eq_ok {state next : Pass × List (NodeId × Option Symbol)} {id : NodeId}
    (ran : Pass.reparse state id = .ok next) : next.1.removed = state.1.removed ∧
      next.1.touched = state.1.touched ∧ next.1.queue = (state.1.queueDependents id).queue := by
  obtain ⟨⟨workspace, symbol⟩, _, made⟩ := bind_eq_ok.mp ran
  obtain rfl := Except.ok.inj made
  exact ⟨rfl, rfl, rfl⟩

theorem removed_renormalize {pass next : Pass} {earlier : List (NodeId × Option Symbol)}
    {id : NodeId} (ran : pass.renormalize earlier id = .ok next) : next.removed = pass.removed := by
  obtain ⟨⟨workspace, current, symbol⟩, _, made⟩ := bind_eq_ok.mp ran
  simp only at made
  split at made
  · obtain rfl := Except.ok.inj made
    rfl
  · obtain rfl := Except.ok.inj made
    split
    · rfl
    · rfl

theorem resolve_eq_ok {pass next : Pass} {id : NodeId} (ran : pass.resolve id = .ok next) :
    next.removed = pass.removed ∧ next.touched = pass.touched := by
  obtain ⟨workspace, _, made⟩ := bind_eq_ok.mp ran
  obtain rfl := Except.ok.inj made
  exact ⟨rfl, rfl⟩

namespace Course

variable {workspace : Workspace} {transaction : Transaction} {course : Course}

namespace Runs

variable (runs : course.Runs workspace.closed transaction)

include runs

/-- What is there after the commit is what the deletions leave. -/
theorem contains_after {id : NodeId} : course.after.workspace.catalog.contains id = true ↔
    ∃ row ∈ course.cleared.workspace.catalog.rows, row.id = id := by
  rw [Catalog.contains_iff]
  constructor
  · rintro ⟨row, member, same⟩
    obtain ⟨earlier, live, rfl⟩ := runs.reworked.mem_rows.mp member
    exact ⟨earlier, live, (course.inPlace_change.sameId earlier.node).symm.trans same⟩
  · rintro ⟨row, live, rfl⟩
    exact ⟨_, runs.reworked.map_mem live, course.inPlace_change.sameId row.node⟩

/-- Looking a symbol up gives after the commit what it gave before the references were evaluated. -/
theorem lookup_after (symbol : Symbol) : course.after.workspace.catalog.lookup symbol =
    course.queued.workspace.catalog.lookup symbol := by
  have resolved := runs.resolving.reworked
  have inPlace := (course.queued.workspace.inPlace_answer).of_cases
    (onlyIn_cases (course.work ++ course.rebound) course.queued.workspace.answer)
  rw [Catalog.lookup_eq runs.resolving.sound.numbered runs.resolving.sound.exact,
    Catalog.lookup_eq runs.sound_queued.numbered runs.sound_queued.exact,
    Catalog.declaring_renamed resolved.rows (fun row _ =>
      @symbol_onlyIn course.queued.workspace.answer (fun _ => rfl) _ row.node), List.map_map]
  exact List.map_congr_left fun row _ => inPlace.sameId row.node

/-- A node that stays is found under a symbol after the commit if it declares it then. -/
theorem mem_lookup_after {row : Row} (live : row ∈ course.cleared.workspace.catalog.rows)
    {symbol : Symbol} : row.id ∈ course.after.workspace.catalog.lookup symbol ↔
      (course.change row.node).declared? = some symbol := by
  have member : row.map course.change ∈ course.after.workspace.catalog.rows :=
    runs.reworked.map_mem live
  have number : (row.map course.change).id = row.id := course.inPlace_change.sameId row.node
  rw [← number]
  exact Catalog.mem_lookup_row runs.resolving.sound.numbered runs.resolving.sound.exact member

/-- What is compared for a node is the symbol it had and the one it gets. -/
theorem symbols_compared {row : Row} (live : row ∈ course.cleared.workspace.catalog.rows)
    (busy : row.id ∈ course.work) :
    symbolBefore course.earlier (row.map course.reader).node = row.node.symbol ∧
      (row.map course.reader).declaredSymbol? = (course.change row.node).symbol := by
  refine ⟨runs.symbolBefore_eq live, ?_⟩
  rw [← runs.symbol_prepare live busy]
  exact (@symbol_onlyIn course.queued.workspace.answer (fun _ => rfl) _ _).symm

theorem renames_iff {row : Row} (live : row ∈ course.cleared.workspace.catalog.rows)
    (busy : row.id ∈ course.work) : (row.map course.reader).Renames course.earlier ↔
      (course.change row.node).symbol ≠ row.node.symbol := by
  obtain ⟨before, after⟩ := runs.symbols_compared live busy
  unfold Row.Renames
  rw [before, after]
  exact ne_comm

/-- A node has lost or gained a symbol just when it declares it either before or after. -/
theorem moves_iff {row : Row} (live : row ∈ course.cleared.workspace.catalog.rows)
    (busy : row.id ∈ course.work) {symbol : Symbol} :
    (row.map course.reader).Moves course.earlier symbol ↔
      ¬ (row.node.declared? = some symbol ↔ (course.change row.node).declared? = some symbol) := by
  obtain ⟨before, after⟩ := runs.symbols_compared live busy
  rw [Node.declared?_eq_some_iff, Node.declared?_eq_some_iff]
  constructor
  · rintro ⟨renames, real, either⟩ same
    rw [before, after] at either
    refine (runs.renames_iff live busy).mp renames ?_
    rcases either with had | has
    · exact (same.mp ⟨had, real⟩).1.trans had.symm
    · exact has.trans (same.mpr ⟨has, real⟩).1.symm
  · intro differs
    refine ⟨(runs.renames_iff live busy).mpr fun same => differs (by rw [same]), ?_, ?_⟩
    · refine Bool.eq_false_iff.mpr fun blank => differs ?_
      rw [blank]
      exact iff_of_false (fun ⟨_, real⟩ => nomatch real) fun ⟨_, real⟩ => nomatch real
    · rw [before, after]
      by_contra neither
      obtain ⟨had, has⟩ := not_or.mp neither
      exact differs (iff_of_false (fun ⟨same, _⟩ => had same) fun ⟨same, _⟩ => has same)

end Runs

namespace Loops

variable {renormalized : List NodeId} {resolved : Pass}
  (loops : course.Loops workspace.closed transaction renormalized resolved)

include loops

/-- Only the deletions remove. -/
theorem removed_after : course.after.removed = course.cleared.removed := by
  have reading := view_of_foldlM (fun ran => (reparse_eq_ok ran).1) _ loops.reading
  have naming := view_of_foldlM (fun ran => removed_renormalize ran) _ loops.naming
  have queueing := @view_of_foldl _ _ _ Pass.queueChanged Pass.removed
    (fun pass symbol => @view_of_foldl _ _ _ Pass.queueDependents Pass.removed (fun _ _ => rfl) _ _)
    course.named.touched.items course.named
  have resolving := view_of_foldlM (fun ran => (resolve_eq_ok ran).1) _ loops.resolving
  have again := @view_of_foldlM _ _ _ _ Pass.resolveAgain Pass.removed
    (fun ran => (resolve_eq_ok ran).1) _ _ _ loops.again
  rw [loops.noted] at queueing
  exact again.trans (resolving.trans (queueing.trans (naming.trans reading)))

/-- Nothing is noted once the nodes are named. -/
theorem touched_after : course.after.touched = course.named.touched := by
  have queueing := @view_of_foldl _ _ _ Pass.queueChanged Pass.touched
    (fun pass symbol => @view_of_foldl _ _ _ Pass.queueDependents Pass.touched (fun _ _ => rfl) _ _)
    course.named.touched.items course.named
  have resolving := view_of_foldlM (fun ran => (resolve_eq_ok ran).2) _ loops.resolving
  have again := @view_of_foldlM _ _ _ _ Pass.resolveAgain Pass.touched
    (fun ran => (resolve_eq_ok ran).2) _ _ _ loops.again
  rw [loops.noted] at queueing
  exact again.trans (resolving.trans queueing)

theorem nodup_reread : course.reread.Nodup := by
  rw [← loops.listed]
  exact nodup_toReparse _ _

section Sound

variable (sound : workspace.Sound)

include sound

theorem cleared : Cleared workspace.closed transaction.deleted.items course.cleared := by
  have gone := Cleared.deleteTrees sound.closed.numbered transaction.deleted.items
    (removal_start sound.closed) (cleared_start workspace.closed)
  rw [List.nil_append] at gone
  rw [← loops.removed]
  exact ⟨gone.distinct, gone.removed, gone.noted⟩

theorem nodup_removed : course.after.removed.Nodup := by
  rw [loops.removed_after]
  exact (loops.cleared sound).distinct

end Sound

section Runs

variable (runs : course.Runs workspace.closed transaction)

include runs

theorem nodup_named : course.work.Nodup := by
  rw [← loops.sorted, ← loops.below]
  exact nodup_work runs.reading.sound.numbered loops.nodup_reread

theorem narrow : Narrow course.read course.earlier course.work course.named :=
  narrow_of_naming runs.reading.sound (loops.nodup_named runs)
    (fun _ member => ready_to_name runs.removal.sound.numbered runs.reread runs.reading
      (runs.work.mp member)) loops.naming

variable (sound : workspace.Sound)

include sound

/-- **The nodes removed are those that are gone.** -/
theorem mem_removed {id : NodeId} : id ∈ course.after.removed ↔
    workspace.catalog.contains id = true ∧ course.after.workspace.catalog.contains id = false := by
  rw [loops.removed_after, (loops.cleared sound).removed, Bool.eq_false_iff, Ne,
    runs.contains_after, Catalog.contains_iff]
  constructor
  · rintro ⟨row, member, rfl, through⟩
    refine ⟨⟨row, member, rfl⟩, ?_⟩
    rintro ⟨other, live, same⟩
    obtain ⟨there, stays⟩ := runs.removal.mem_rows.mp live
    rw [sound.numbered.eq_of_id there member same, through] at stays
    exact nomatch stays
  · rintro ⟨⟨row, member, rfl⟩, gone⟩
    refine ⟨row, member, rfl, ?_⟩
    cases stays : row.passes transaction.deleted.items with
    | true => rfl
    | false => exact absurd ⟨row, runs.removal.mem_rows.mpr ⟨member, stays⟩, rfl⟩ gone

/-- **A symbol is noted just when other nodes declare it** than before. -/
theorem mem_touched {symbol : Symbol} : symbol ∈ course.after.touched ↔
    ∃ id, ¬ (id ∈ workspace.catalog.lookup symbol ↔
      id ∈ course.after.workspace.catalog.lookup symbol) := by
  rw [loops.touched_after]
  constructor
  · intro noted
    rcases (loops.narrow runs).noted noted with cleared | ⟨row, member, busy, moves⟩
    · rw [runs.reading.touched] at cleared
      obtain ⟨row, member, through, declares⟩ := (loops.cleared sound).noted cleared
      refine ⟨row.id, fun same => ?_⟩
      have found := same.mp ((Catalog.mem_lookup_row sound.numbered sound.exact member).mpr declares)
      rw [Catalog.mem_lookup] at found
      obtain ⟨other, live, number⟩ :=
        runs.contains_after.mp (runs.resolving.sound.contains_of_symbol found)
      obtain ⟨there, stays⟩ := runs.removal.mem_rows.mp live
      rw [sound.numbered.eq_of_id there member number, through] at stays
      exact nomatch stays
    · obtain ⟨earlier, live, rfl⟩ := runs.reworked_reader.mem_rows.mp member
      rw [show (earlier.map course.reader).id = earlier.id from
        course.inPlace_reader.sameId earlier.node] at busy
      refine ⟨earlier.id, ?_⟩
      rw [Catalog.mem_lookup_row sound.numbered sound.exact (runs.live_before live),
        runs.mem_lookup_after live]
      exact (runs.moves_iff live busy).mp moves
  · rintro ⟨id, differs⟩
    by_contra untouched
    refine differs ?_
    rw [runs.lookup_after, Catalog.lookup_eq runs.sound_queued.numbered runs.sound_queued.exact,
      runs.declaring_of_untouched untouched, List.map_map,
      Catalog.lookup_eq sound.numbered sound.exact]
    refine iff_of_eq (congrArg (id ∈ ·) (List.map_congr_left fun row _ => ?_))
    exact (course.inPlace_prepare.sameId row.node).symm

end Runs

end Loops

end Course

end EntityModel
