import EntityModel.Proofs.Commit.Removal
import EntityModel.Proofs.Workspace.Edits

/-
**The second part of a commit: nodes are read again.**

* `foldlM_ok` — a loop over different items runs to its end, if every turn keeps an invariant
  of the items done so far.
* `mem_toReparse` — the nodes read again are those edited and those below new roots.
* `Reading` — the state of the pass after some nodes are read: exactly they are changed, their
  references have no dependencies, and what rested on them is queued.
* `exists_reading` — reading never fails.
-/

namespace EntityModel

open Workspace

/-- A loop over different items runs to its end, if every turn keeps the invariant. -/
theorem foldlM_ok {ε σ α : Type} {turn : σ → α → Except ε σ} {invariant : List α → σ → Prop} :
    ∀ {items earlier : List α} {state : σ}, (earlier ++ items).Nodup → invariant earlier state →
    (∀ done state item, item ∈ items → item ∉ done → invariant done state →
      ∃ next, turn state item = .ok next ∧ invariant (done ++ [item]) next) →
    ∃ last, items.foldlM turn state = .ok last ∧ invariant (earlier ++ items) last := by
  intro items
  induction items with
  | nil =>
    intro earlier state _ holds _
    rw [List.append_nil]
    exact ⟨state, rfl, holds⟩
  | cons item items ih =>
    intro earlier state distinct holds step
    have new : item ∉ earlier := fun member =>
      (List.nodup_append.mp distinct).2.2 item member item List.mem_cons_self rfl
    obtain ⟨next, taken, kept⟩ := step earlier state item List.mem_cons_self new holds
    rw [← List.singleton_append, ← List.append_assoc] at distinct ⊢
    obtain ⟨last, ran, all⟩ := ih distinct kept fun done state other member =>
      step done state other (List.mem_cons_of_mem _ member)
    refine ⟨last, ?_, all⟩
    rw [List.singleton_append, foldlM_cons_eq_ok]
    exact ⟨next, taken, ran⟩

namespace Workspace

/-! ### The nodes to read -/

theorem nodup_toReparse (workspace : Workspace) (transaction : Transaction) :
    (workspace.toReparse transaction).Nodup :=
  Catalog.nodup_sortByDocumentOrder (OrderedSet.ofList _).nodup

/-- **The nodes read again** are those edited and those below new roots. -/
theorem mem_toReparse {workspace : Workspace} (numbered : workspace.catalog.Numbered)
    {transaction : Transaction} {id : NodeId} : id ∈ workspace.toReparse transaction ↔
      ∃ row ∈ workspace.catalog.rows, row.id = id ∧
        (id ∈ transaction.edited ∨ ∃ root ∈ transaction.inserted, root ∈ row.line) := by
  unfold toReparse
  rw [Catalog.mem_sortByDocumentOrder, ← OrderedSet.mem_iff, OrderedSet.mem_ofList,
    List.mem_append, List.mem_filter, List.mem_flatMap, Catalog.contains_iff]
  constructor
  · rintro (⟨edited, row, member, same⟩ | ⟨root, planted, below⟩)
    · exact ⟨row, member, same, Or.inl edited⟩
    · obtain ⟨row, member, same, through⟩ := numbered.mem_subtree.mp below
      exact ⟨row, member, same, Or.inr ⟨root, planted, through⟩⟩
  · rintro ⟨row, member, same, edited | ⟨root, planted, through⟩⟩
    · exact Or.inl ⟨edited, row, member, same⟩
    · exact Or.inr ⟨root, planted, numbered.mem_subtree.mpr ⟨row, member, same, through⟩⟩

end Workspace

/-! ### Reading them -/

/-- The node read where it stands in the catalog. -/
def Catalog.reread (catalog : Catalog) (node : Node) : Node :=
  match catalog.row? node.id with
  | some row => node.read row.source
  | none => node

theorem Catalog.inPlace_reread (catalog : Catalog) : InPlace catalog.reread := by
  refine ⟨fun node => ?_, fun node => ?_, fun node => ?_, fun node => ?_⟩ <;>
    unfold Catalog.reread <;> split <;> rfl

/-- The state of the pass after the nodes `done` are read. The symbols they declared before are
carried along. -/
structure Reading (cleared : Pass) (done : List NodeId)
    (state : Pass × List (NodeId × Option Symbol)) : Prop where
  sound : state.1.workspace.Sound
  reworked : Catalog.Reworked (onlyIn done cleared.workspace.catalog.reread)
    cleared.workspace.catalog state.1.workspace.catalog
  dependencies : ∀ id, state.1.workspace.ledger.dependencies id =
    if id.owner ∈ done then .none else cleared.workspace.ledger.dependencies id
  queued : ∀ {id}, id ∈ cleared.queue → id ∈ state.1.queue
  /-- What rested on a node that is read is queued, unless it is read itself. -/
  dependents : ∀ node ∈ done, ∀ {id : ReferenceId},
    (node ∈ (cleared.workspace.ledger.dependencies id).targets ∨
      node ∈ (cleared.workspace.ledger.dependencies id).context) →
    id.owner ∈ done ∨ id.owner ∈ state.1.queue
  earlier : state.2 =
    done.map fun id => (id, (cleared.workspace.catalog.node? id).bind Node.symbol)
  touched : state.1.touched = cleared.touched
  options : state.1.workspace.options = cleared.workspace.options
  transaction : state.1.workspace.transaction = cleared.workspace.transaction

theorem reading_start {cleared : Pass} (sound : cleared.workspace.Sound) :
    Reading cleared [] (cleared, []) := by
  refine ⟨sound, ?_, ?_, fun queued => queued, ?_, rfl, rfl, rfl, rfl⟩
  · rw [onlyIn_nil]
    exact Catalog.Reworked.refl _
  · exact fun id => (if_neg List.not_mem_nil).symm
  · exact fun node member => absurd member List.not_mem_nil

theorem Pass.mem_queueOwners {pass : Pass} {ids : List ReferenceId} {id : NodeId} :
    id ∈ (pass.queueOwners ids).queue ↔ id ∈ pass.queue ∨ ∃ each ∈ ids, each.owner = id := by
  unfold queueOwners
  rw [OrderedSet.mem_insertAll, List.mem_map]

theorem Pass.mem_queueDependents {pass : Pass} (indexed : pass.workspace.ledger.Indexed)
    {node id : NodeId} : id ∈ (pass.queueDependents node).queue ↔ id ∈ pass.queue ∨
      ∃ each : ReferenceId, (node ∈ (pass.workspace.ledger.dependencies each).targets ∨
        node ∈ (pass.workspace.ledger.dependencies each).context) ∧ each.owner = id := by
  unfold queueDependents
  rw [mem_queueOwners]
  simp only [List.mem_append, Ledger.mem_referencers indexed, Ledger.mem_contextDependents indexed]

theorem Reading.step {cleared : Pass} (numbered : cleared.workspace.catalog.Numbered)
    {done : List NodeId} {state : Pass × List (NodeId × Option Symbol)}
    (reading : Reading cleared done state) {row : Row}
    (member : row ∈ cleared.workspace.catalog.rows) (new : row.id ∉ done) :
    ∃ next, Pass.reparse state row.id = .ok next ∧ Reading cleared (done ++ [row.id]) next := by
  have inPlace : InPlace (onlyIn done cleared.workspace.catalog.reread) :=
    (Catalog.inPlace_reread _).of_cases (onlyIn_cases done _)
  obtain ⟨site, live, located, number, same⟩ :=
    reading.reworked.exists_site inPlace.sameId reading.sound.numbered member
  have node : site.node = row.node := (congrArg Row.node same).trans (if_neg new)
  have sources : source site = row.source := by
    rw [← Site.source_row, same, inPlace.source_row]
  refine ⟨({ state.1.queueDependents row.id with workspace := state.1.workspace.parsed site },
    state.2 ++ [(row.id, site.node.symbol)]), ?_, ?_⟩
  · unfold Pass.reparse Workspace.parseNode
    rw [bind_eq_ok]
    refine ⟨(state.1.workspace.parsed site, site.node.symbol), ?_, rfl⟩
    rw [bind_eq_ok]
    exact ⟨site, site_eq_ok.mpr located, rfl⟩
  have dependencies : ∀ id, (state.1.workspace.parsed site).ledger.dependencies id =
      if id.owner ∈ done ++ [row.id] then .none
      else cleared.workspace.ledger.dependencies id := by
    intro id
    rw [dependencies_parsed reading.sound live, reading.dependencies, number]
    by_cases own : id.owner = row.id
    · rw [if_pos own, if_pos (by simp [own])]
    · rw [if_neg own]
      simp [own]
  have queue : ∀ {id : NodeId}, id ∈ (state.1.queueDependents row.id).queue ↔ _ :=
    Pass.mem_queueDependents reading.sound.indexed
  refine ⟨reading.sound.parsed live, ?_, dependencies, ?_, ?_, ?_, reading.touched, reading.options,
    reading.transaction⟩
  · have reworked := reading.reworked.trans (reworked_parsed state.1.workspace site)
    refine reworked.congr fun other _ => ?_
    rw [← onlyAt_onlyIn (Catalog.inPlace_reread _).sameId new, Function.comp_apply,
      Function.comp_apply, number, sources]
    generalize onlyIn done cleared.workspace.catalog.reread other.node = node
    by_cases own : node.id = row.id
    · rw [onlyAt_of_eq own, onlyAt_of_eq own, Catalog.reread, own, numbered.row?_of_mem member]
    · rw [onlyAt_of_ne own, onlyAt_of_ne own]
  · exact fun queued => queue.mpr (Or.inl (reading.queued queued))
  · intro other listed id depends
    by_cases read : id.owner ∈ done ++ [row.id]
    · exact Or.inl read
    refine Or.inr (queue.mpr ?_)
    rw [List.mem_append, not_or] at read
    rcases List.mem_append.mp listed with earlier | now
    · exact Or.inl ((reading.dependents other earlier depends).resolve_left read.1)
    · obtain rfl := List.mem_singleton.mp now
      refine Or.inr ⟨id, ?_, rfl⟩
      rw [reading.dependencies, if_neg read.1]
      exact depends
  · rw [reading.earlier, List.map_append, List.map_singleton, node, numbered.node?_of_mem member]
    rfl

/-- **Reading never fails**, and leaves the pass as described. -/
theorem exists_reading {cleared : Pass} (sound : cleared.workspace.Sound)
    (transaction : Transaction) :
    ∃ state, (cleared.workspace.toReparse transaction).foldlM Pass.reparse (cleared, []) = .ok state ∧
      Reading cleared (cleared.workspace.toReparse transaction) state := by
  have distinct := nodup_toReparse cleared.workspace transaction
  refine @foldlM_ok _ _ _ _ (Reading cleared) _ [] _ distinct (reading_start sound) ?_
  intro done state item member new reading
  obtain ⟨row, live, rfl, _⟩ := (mem_toReparse sound.numbered).mp member
  exact reading.step sound.numbered live new

end EntityModel
