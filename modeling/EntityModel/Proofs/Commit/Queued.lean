import EntityModel.Proofs.Commit.Noted

/-
**What a commit resolves again, and nothing else.**

The queue of a commit is filled in three parts, from a ledger that loses the dependencies of the nodes
read again on the way. For an owner that is not dealt with anyway the outcome is the same as if all
were read off the ledger after the deletions.

* `Ledger.Minds` — a reference has to do with a symbol: it waits for it, has looked it up, or rests on
  a node that declares it.
* `mem_queueChanged`, `mem_queueChanged_foldl` — **dealing with symbols queues just the owners of the
  references that have to do with them.**
* `queued_of_reading` — reading queues only what rests on a node that is read.
* `Course.Concerns` — why a commit looks at a reference again.
* `Loops.mem_queued`, `Loops.mem_rebound` — **the nodes resolved again are the owners of such
  references.**
-/

namespace EntityModel

open Workspace

/-! ### Symbols that came or went -/

/-- The reference has to do with the symbol: it waits for it, has looked it up, or rests on a node
that declares it in the catalog. -/
inductive Ledger.Minds (ledger : Ledger) (rebinds : Bool) (catalog : Catalog) (symbol : Symbol)
    (reference : ReferenceId) : Prop where
  | waits (rebinding : rebinds = true) (waiting : reference ∈ ledger.waitingOn symbol)
  | looks (looked : reference ∈ ledger.lookupDependents symbol)
  | rests {node : NodeId} (declares : node ∈ catalog.lookup symbol)
      (rests : reference ∈ ledger.dependents node)

/-- Only what is recorded for the reference counts, and who declares the symbol. -/
theorem Ledger.Minds.congr {ledger other : Ledger} {rebinds : Bool} {catalog twin : Catalog}
    {symbol : Symbol} {reference : ReferenceId} (indexed : ledger.Indexed) (others : other.Indexed)
    (same : ledger.dependencies reference = other.dependencies reference)
    (lookup : catalog.lookup symbol = twin.lookup symbol)
    (minds : ledger.Minds rebinds catalog symbol reference) :
    other.Minds rebinds twin symbol reference := by
  rcases minds with ⟨rebinding, waiting⟩ | looked | ⟨declares, rests⟩
  · rw [mem_waitingOn indexed, same, ← mem_waitingOn others] at waiting
    exact .waits rebinding waiting
  · rw [mem_lookupDependents indexed, same, ← mem_lookupDependents others] at looked
    exact .looks looked
  · rw [mem_dependents indexed, same, ← mem_dependents others] at rests
    exact .rests (lookup ▸ declares) rests

theorem Ledger.recorded_of_dependent {ledger : Ledger} (indexed : ledger.Indexed) {node : NodeId}
    {reference : ReferenceId} (rests : reference ∈ ledger.dependents node) :
    ledger.dependencies reference ≠ .none := by
  rcases (mem_dependents indexed).mp rests with inside | inside
  · exact Dependencies.ne_none_of_mem Dependencies.targets rfl inside
  · exact Dependencies.ne_none_of_mem Dependencies.context rfl inside

theorem Ledger.Minds.recorded {ledger : Ledger} {rebinds : Bool} {catalog : Catalog}
    {symbol : Symbol} {reference : ReferenceId} (indexed : ledger.Indexed)
    (minds : ledger.Minds rebinds catalog symbol reference) :
    ledger.dependencies reference ≠ .none := by
  rcases minds with ⟨_, waiting⟩ | looked | ⟨_, rests⟩
  · exact Dependencies.ne_none_of_mem Dependencies.dangling rfl ((mem_waitingOn indexed).mp waiting)
  · exact Dependencies.ne_none_of_mem Dependencies.lookups rfl
      ((mem_lookupDependents indexed).mp looked)
  · exact recorded_of_dependent indexed rests

/-- What has to do with the symbol in the workspace. -/
def Workspace.Minds (workspace : Workspace) (symbol : Symbol) (reference : ReferenceId) : Prop :=
  workspace.ledger.Minds workspace.options.rebindWaiting workspace.catalog symbol reference

theorem Pass.mem_queueDependents_iff {pass : Pass} (indexed : pass.workspace.ledger.Indexed)
    {node id : NodeId} : id ∈ (pass.queueDependents node).queue ↔ id ∈ pass.queue ∨
      ∃ reference : ReferenceId, reference.owner = id ∧
        reference ∈ pass.workspace.ledger.dependents node := by
  rw [mem_queueDependents indexed]
  simp only [Ledger.mem_dependents indexed, and_comm]

theorem mem_queueDependents_foldl (nodes : List NodeId) : ∀ {pass : Pass},
    pass.workspace.ledger.Indexed → ∀ {id : NodeId},
    id ∈ (nodes.foldl Pass.queueDependents pass).queue ↔ id ∈ pass.queue ∨
      ∃ node ∈ nodes, ∃ reference : ReferenceId, reference.owner = id ∧
        reference ∈ pass.workspace.ledger.dependents node := by
  induction nodes with
  | nil => exact fun _ => by simp
  | cons node nodes ih =>
    intro pass indexed id
    rw [List.foldl_cons, @ih (pass.queueDependents node) indexed,
      Pass.mem_queueDependents_iff indexed, or_assoc, List.exists_mem_cons_iff]
    rfl

/-- **Dealing with a symbol** queues the owners of what has to do with it. -/
theorem mem_queueChanged {pass : Pass} (indexed : pass.workspace.ledger.Indexed) {symbol : Symbol}
    {id : NodeId} : id ∈ (pass.queueChanged symbol).queue ↔ id ∈ pass.queue ∨
      ∃ reference : ReferenceId, reference.owner = id ∧ pass.workspace.Minds symbol reference := by
  unfold Pass.queueChanged
  simp only
  rw [mem_queueDependents_foldl _ (by exact indexed), Pass.mem_queueOwners, Pass.mem_queueOwners]
  constructor
  · rintro (((queued | ⟨reference, waiting, owner⟩) | ⟨reference, looked, owner⟩) |
      ⟨node, declares, reference, owner, rests⟩)
    · exact Or.inl queued
    · split at waiting
      · exact Or.inr ⟨reference, owner, .waits ‹_› waiting⟩
      · exact absurd waiting List.not_mem_nil
    · exact Or.inr ⟨reference, owner, .looks looked⟩
    · exact Or.inr ⟨reference, owner, .rests declares rests⟩
  · rintro (queued | ⟨reference, owner, minds⟩)
    · exact Or.inl (Or.inl (Or.inl queued))
    cases minds with
    | waits rebinding waiting =>
      refine Or.inl (Or.inl (Or.inr ⟨reference, ?_, owner⟩))
      rw [if_pos rebinding]
      exact waiting
    | looks looked => exact Or.inl (Or.inr ⟨reference, looked, owner⟩)
    | rests declares rests => exact Or.inr ⟨_, declares, reference, owner, rests⟩

/-- **Dealing with several symbols** queues the owners of what has to do with one of them. -/
theorem mem_queueChanged_foldl (symbols : List Symbol) : ∀ {pass : Pass},
    pass.workspace.ledger.Indexed → ∀ {id : NodeId},
    id ∈ (symbols.foldl Pass.queueChanged pass).queue ↔ id ∈ pass.queue ∨
      ∃ symbol ∈ symbols, ∃ reference : ReferenceId, reference.owner = id ∧
        pass.workspace.Minds symbol reference := by
  induction symbols with
  | nil => exact fun _ => by simp
  | cons symbol symbols ih =>
    intro pass indexed id
    have same := workspace_queueChanged pass symbol
    rw [List.foldl_cons, ih (same ▸ indexed), same, mem_queueChanged indexed, or_assoc,
      List.exists_mem_cons_iff]

/-! ### Nodes read again -/

/-- **Reading queues nothing else** than what rests on the nodes that are read. -/
theorem queued_of_reading {cleared : Pass} (sound : cleared.workspace.Sound) {reread : List NodeId}
    (distinct : reread.Nodup)
    (live : ∀ id ∈ reread, ∃ row ∈ cleared.workspace.catalog.rows, row.id = id)
    {last : Pass × List (NodeId × Option Symbol)}
    (ran : reread.foldlM Pass.reparse (cleared, []) = .ok last) {id : NodeId}
    (queued : id ∈ last.1.queue) : id ∈ cleared.queue ∨ ∃ node ∈ reread,
      ∃ reference : ReferenceId, reference.owner = id ∧
        reference ∈ cleared.workspace.ledger.dependents node := by
  let narrow : List NodeId → Pass × List (NodeId × Option Symbol) → Prop := fun done state =>
    ∀ {id}, id ∈ state.1.queue → id ∈ cleared.queue ∨ ∃ node ∈ done,
      ∃ reference : ReferenceId, reference.owner = id ∧
        reference ∈ cleared.workspace.ledger.dependents node
  have start : Reading cleared [] (cleared, []) ∧ narrow [] (cleared, []) :=
    ⟨reading_start sound, Or.inl⟩
  obtain ⟨state, again, _, narrowed⟩ := @foldlM_ok _ _ _ _
    (fun done state => Reading cleared done state ∧ narrow done state) reread [] _ distinct start
    fun done state item member new holds => by
      obtain ⟨row, inside, rfl⟩ := live item member
      obtain ⟨next, taken, reading⟩ := holds.1.step sound.numbered inside new
      refine ⟨next, taken, reading, fun {id} queued => ?_⟩
      rw [(reparse_eq_ok taken).2.2, Pass.mem_queueDependents_iff holds.1.sound.indexed] at queued
      rcases queued with before | ⟨reference, owner, rests⟩
      · refine (holds.2 before).imp_right fun ⟨node, listed, rest⟩ => ?_
        exact ⟨node, List.mem_append_left _ listed, rest⟩
      · -- the ledger of the turn has lost what the nodes read before depended on
        refine Or.inr ⟨row.id, List.mem_append_right _ (List.mem_singleton_self _), reference, owner,
          ?_⟩
        rw [Ledger.mem_dependents holds.1.sound.indexed, holds.1.dependencies] at rests
        rw [Ledger.mem_dependents sound.indexed]
        split at rests
        · exact rests.elim (fun inside => absurd inside List.not_mem_nil)
            fun inside => absurd inside List.not_mem_nil
        · exact rests
  obtain rfl := Except.ok.inj (ran.symm.trans again)
  exact narrowed queued

/-! ### The whole commit -/

/-- Why the commit looks at a reference again. -/
inductive Course.Concerns (course : Course) (reference : ReferenceId) : Prop where
  /-- It rests on a node that is read again. -/
  | reread {node : NodeId} (again : node ∈ course.reread)
      (rests : reference ∈ course.cleared.workspace.ledger.dependents node)
  /-- It rests on a node with another symbol than before. -/
  | renamed {row : Row} (live : row ∈ course.cleared.workspace.catalog.rows)
      (busy : row.id ∈ course.work) (renames : (course.change row.node).symbol ≠ row.node.symbol)
      (rests : reference ∈ course.cleared.workspace.ledger.dependents row.id)
  /-- It has to do with a symbol that came or went. -/
  | noted {symbol : Symbol} (noted : symbol ∈ course.after.touched)
      (minds : course.cleared.workspace.ledger.Minds
        course.cleared.workspace.options.rebindWaiting course.after.workspace.catalog symbol
        reference)

namespace Course

variable {workspace : Workspace} {transaction : Transaction} {course : Course}

theorem Concerns.recorded (indexed : course.cleared.workspace.ledger.Indexed)
    {reference : ReferenceId} (concerns : course.Concerns reference) :
    course.cleared.workspace.ledger.dependencies reference ≠ .none := by
  cases concerns with
  | reread again rests => exact Ledger.recorded_of_dependent indexed rests
  | renamed live busy renames rests => exact Ledger.recorded_of_dependent indexed rests
  | noted noted minds => exact minds.recorded indexed

namespace Runs

variable (runs : course.Runs workspace.closed transaction)

include runs

/-- What has to do with a symbol can be read off the ledger after the deletions, for an owner that is
not read again. -/
theorem minds_named {reference : ReferenceId} (unread : reference.owner ∉ course.reread)
    {symbol : Symbol} : course.named.workspace.Minds symbol reference ↔
      course.cleared.workspace.ledger.Minds course.cleared.workspace.options.rebindWaiting
        course.after.workspace.catalog symbol reference := by
  have options : course.named.workspace.options = course.cleared.workspace.options :=
    runs.naming.options.trans runs.reading.options
  have lookup : course.named.workspace.catalog.lookup symbol =
      course.after.workspace.catalog.lookup symbol := by
    rw [runs.lookup_after, runs.queueing.workspace]
  have same : course.named.workspace.ledger.dependencies reference =
      course.cleared.workspace.ledger.dependencies reference := by
    rw [runs.ledger_named, runs.dependencies_queued unread]
  have named := runs.naming.sound.indexed
  have cleared := runs.removal.sound.indexed
  unfold Workspace.Minds
  rw [options]
  exact ⟨fun minds => minds.congr named cleared same lookup,
    fun minds => minds.congr cleared named same.symm lookup.symm⟩

end Runs

namespace Loops

variable {renormalized : List NodeId} {resolved : Pass}
  (loops : course.Loops workspace.closed transaction renormalized resolved)
  (runs : course.Runs workspace.closed transaction)

include loops runs

/-- What is queued before the symbols are dealt with rests on a node that is read again or has got
another symbol. -/
theorem concerns_of_named {id : NodeId} (queued : id ∈ course.named.queue) :
    id ∈ course.cleared.queue ∨
      ∃ reference : ReferenceId, reference.owner = id ∧ course.Concerns reference := by
  rcases (loops.narrow runs).queued queued with
    read | ⟨row, member, busy, renames, _, reference, owner, rests⟩
  · have live : ∀ id ∈ course.reread,
        ∃ row ∈ course.cleared.workspace.catalog.rows, row.id = id := by
      intro id member
      obtain ⟨row, inside, same, _⟩ := runs.mem_reread.mp member
      exact ⟨row, inside, same⟩
    rcases queued_of_reading runs.removal.sound loops.nodup_reread live loops.reading read with
      before | ⟨node, again, reference, owner, rests⟩
    · exact Or.inl before
    · exact Or.inr ⟨reference, owner, .reread again rests⟩
  · obtain ⟨earlier, live, rfl⟩ := runs.reworked_reader.mem_rows.mp member
    rw [show (earlier.map course.reader).id = earlier.id from
      course.inPlace_reader.sameId earlier.node] at busy rests
    rw [show course.read.workspace.ledger.dependencies reference = _ from
      runs.reading.dependencies reference] at rests
    split at rests
    · exact rests.elim (fun inside => absurd inside List.not_mem_nil)
        fun inside => absurd inside List.not_mem_nil
    · exact Or.inr ⟨reference, owner, .renamed live busy ((runs.renames_iff live busy).mp renames)
        ((Ledger.mem_dependents runs.removal.sound.indexed).mpr rests)⟩

omit loops in
/-- What rests on a node with another symbol is queued, unless it is dealt with anyway. -/
theorem queued_of_renames {row : Row} (live : row ∈ course.cleared.workspace.catalog.rows)
    (busy : row.id ∈ course.work) (renames : (course.change row.node).symbol ≠ row.node.symbol)
    {reference : ReferenceId} (unread : reference.owner ∉ course.reread)
    (rests : reference ∈ course.cleared.workspace.ledger.dependents row.id) :
    reference.owner ∈ course.queued.queue := by
  rw [Ledger.mem_dependents runs.removal.sound.indexed] at rests
  by_cases again : row.id ∈ course.reread
  · exact (runs.busy_of_dependency again rests).resolve_left unread
  · have found : row.map course.reader ∈ course.read.workspace.catalog.rows :=
      runs.reworked_reader.map_mem live
    have number : (row.map course.reader).id = row.id := course.inPlace_reader.sameId row.node
    have carried : course.earlier.lookup (row.map course.reader).id = none := by
      rw [number, show course.earlier = _ from runs.reading.earlier]
      exact lookup_map_of_not_mem _ again
    refine runs.queueing.queued (runs.naming.dependents _ found (number.symm ▸ busy)
      ((runs.renames_iff live busy).mpr renames) carried ?_)
    rw [number, ← runs.ledger_queued, runs.dependencies_queued unread]
    exact rests

/-- **The queue** holds the owners of the references the commit concerns, those aside that are dealt
with anyway. -/
theorem mem_queued {id : NodeId} (idle : id ∉ course.work) : id ∈ course.queued.queue ↔
    id ∈ course.cleared.queue ∨
      ∃ reference : ReferenceId, reference.owner = id ∧ course.Concerns reference := by
  have queue : id ∈ course.queued.queue ↔ id ∈ course.named.queue ∨
      ∃ symbol ∈ course.named.touched.items, ∃ reference : ReferenceId, reference.owner = id ∧
        course.named.workspace.Minds symbol reference := by
    rw [← loops.noted]
    exact mem_queueChanged_foldl course.named.touched.items runs.naming.sound.indexed
  have unread : ∀ {reference : ReferenceId}, reference.owner = id →
      reference.owner ∉ course.reread := fun owner again =>
    idle (runs.work_of_reread (owner ▸ again))
  constructor
  · intro queued
    rcases queue.mp queued with named | ⟨symbol, noted, reference, owner, minds⟩
    · exact loops.concerns_of_named runs named
    · refine Or.inr ⟨reference, owner, .noted ?_ ((runs.minds_named (unread owner)).mp minds)⟩
      rw [loops.touched_after]
      exact noted
  · rintro (before | ⟨reference, owner, concerns⟩)
    · exact runs.queued_of_cleared before
    cases concerns with
    | reread again rests =>
      rw [Ledger.mem_dependents runs.removal.sound.indexed] at rests
      exact owner ▸ (runs.busy_of_dependency again rests).resolve_left (unread owner)
    | renamed live busy renames rests =>
      exact owner ▸ queued_of_renames runs live busy renames (unread owner) rests
    | noted noted minds =>
      rw [loops.touched_after] at noted
      exact queue.mpr (Or.inr ⟨_, noted, reference, owner,
        (runs.minds_named (unread owner)).mpr minds⟩)

/-- **The nodes that are only resolved again** are the owners of the references the commit concerns,
where the deletions queue nothing and all nodes have got a symbol before. -/
theorem mem_rebound (quiet : ∀ id, id ∉ course.cleared.queue)
    (reached : ∀ row ∈ course.cleared.workspace.catalog.rows, row.id ∉ course.work →
      row.node.stage.reaches .normalized = true) {id : NodeId} :
    id ∈ course.rebound ↔ id ∉ course.work ∧
      ∃ reference : ReferenceId, reference.owner = id ∧ course.Concerns reference := by
  rw [runs.rebound]
  constructor
  · rintro ⟨_, _, _, queued, idle, _⟩
    exact ⟨idle, ((loops.mem_queued runs idle).mp queued).resolve_left (quiet id)⟩
  · rintro ⟨idle, reference, owner, concerns⟩
    obtain ⟨row, live, same⟩ := Catalog.contains_iff.mp
      (runs.removal.sound.contains_owner (concerns.recorded runs.removal.sound.indexed))
    obtain rfl := same.trans owner
    refine ⟨row.map course.prepare, runs.reworked_prepare.map_mem live,
      course.inPlace_prepare.sameId row.node,
      (loops.mem_queued runs idle).mpr (Or.inr ⟨reference, owner, concerns⟩), idle, ?_⟩
    show (course.prepare row.node).stage.reaches .normalized = true
    rw [runs.prepare_of_not_mem (show row.node.id ∉ course.work from idle)]
    exact reached row live idle

end Loops

end Course

end EntityModel
