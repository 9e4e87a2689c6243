import EntityModel.Proofs.Commit.Naming
import EntityModel.Proofs.Workspace.Coherent

/-
**The last part of a commit: references are evaluated.**

* `Resolving` — the state of the pass after some nodes are resolved: exactly they are changed, their
  answers and dependencies are those of the evaluation before the loop. Evaluating a reference
  changes nothing that another evaluation reads.
* `mem_toRebind` — the queued nodes that are resolved again.
* `exists_resolving`, `exists_resolvingAgain` — both loops run to their end.
-/

namespace EntityModel

open Workspace

/-- The node with its references answered as the workspace stands. -/
def Workspace.answer (workspace : Workspace) (node : Node) : Node :=
  node.answered (workspace.evaluate node.id)

theorem Workspace.inPlace_answer (workspace : Workspace) : InPlace workspace.answer :=
  ⟨fun _ => rfl, fun _ => rfl, fun _ => rfl, fun _ => rfl⟩

theorem Workspace.keepsOutline_answer (workspace : Workspace) : KeepsOutline workspace.answer :=
  fun node => keepsOutline_answered (workspace.evaluate node.id) node

theorem symbol_onlyIn {change : Node → Node} (keeps : ∀ node, (change node).symbol = node.symbol)
    (ids : List NodeId) (node : Node) : (onlyIn ids change node).symbol = node.symbol :=
  keeps_of_cases Node.symbol (onlyIn_cases ids change) keeps node

/-- The state of the pass after the nodes `done` are resolved. -/
structure Resolving (named : Pass) (done : List NodeId) (pass : Pass) : Prop where
  sound : pass.workspace.Sound
  reworked : Catalog.Reworked (onlyIn done named.workspace.answer) named.workspace.catalog
    pass.workspace.catalog
  /-- The dependencies are those of the evaluation. -/
  recorded : ∀ row ∈ named.workspace.catalog.rows, row.id ∈ done →
    ∀ reference ∈ row.node.references,
      pass.workspace.ledger.dependencies ⟨row.id, reference.role⟩ =
        (named.workspace.evaluate row.id reference).dependencies
  others : ∀ {id : ReferenceId}, id.owner ∉ done →
    pass.workspace.ledger.dependencies id = named.workspace.ledger.dependencies id
  queue : pass.queue = named.queue
  options : pass.workspace.options = named.workspace.options
  transaction : pass.workspace.transaction = named.workspace.transaction

theorem resolving_start {named : Pass} (sound : named.workspace.Sound) :
    Resolving named [] named := by
  refine ⟨sound, ?_, ?_, fun _ => rfl, rfl, rfl, rfl⟩
  · rw [onlyIn_nil]
    exact Catalog.Reworked.refl _
  · exact fun row _ member => absurd member List.not_mem_nil

/-- The workspace that a node is resolved in: that of the pass, or the same with the node taken back
to another stage. -/
structure Staged (id : NodeId) (f : Node → Node) (before after : Workspace) : Prop where
  sound : after.Sound
  reworked : Catalog.Reworked f before.catalog after.catalog
  keeps : KeepsOutline f
  symbols : ∀ node, (f node).symbol = node.symbol
  references : ∀ node, (f node).references = node.references
  outside : ∀ node, node.id ≠ id → f node = node
  /-- Answering passes over the stage. -/
  answered : ∀ answers node, (f node).answered answers = node.answered answers
  ledger : after.ledger = before.ledger
  options : after.options = before.options
  transaction : after.transaction = before.transaction

theorem staged_refl {workspace : Workspace} (sound : workspace.Sound) (id : NodeId) :
    Staged id (fun node => node) workspace workspace :=
  ⟨sound, Catalog.Reworked.refl _, fun _ => rfl, fun _ => rfl, fun _ => rfl, fun _ _ => rfl,
    fun _ _ => rfl, rfl, rfl, rfl⟩

theorem staged_atStage {workspace : Workspace} (sound : workspace.Sound) (id : NodeId)
    (stage : Stage) : Staged id (onlyAt id (Node.atStage stage)) workspace
      (workspace.modify id (Node.atStage stage)) := by
  have cases := onlyAt_cases id (Node.atStage stage)
  exact ⟨sound.atStage id stage, Catalog.reworked_modify _ (inPlace_atStage stage).sameId id,
    (keepsOutline_atStage stage).of_cases cases, keeps_of_cases Node.symbol cases fun _ => rfl,
    keeps_of_cases Node.references cases fun _ => rfl, fun _ => onlyAt_of_ne,
    fun answers => keeps_of_cases (Node.answered answers) cases fun _ => rfl, rfl, rfl, rfl⟩

section Step

variable {named : Pass} {done : List NodeId} {pass : Pass} (resolving : Resolving named done pass)
  {row : Row} {staged : Workspace} {f : Node → Node} (taken : Staged row.id f pass.workspace staged)

include resolving taken

/-- All that has changed since the loop began. -/
theorem Resolving.reworked_staged : Catalog.Reworked (f ∘ onlyIn done named.workspace.answer)
      named.workspace.catalog staged.catalog ∧
    KeepsOutline (f ∘ onlyIn done named.workspace.answer) ∧
    ∀ node, ((f ∘ onlyIn done named.workspace.answer) node).symbol = node.symbol := by
  refine ⟨resolving.reworked.trans taken.reworked, fun node => ?_, fun node => ?_⟩
  · have own : KeepsOutline (onlyIn done named.workspace.answer) :=
      named.workspace.keepsOutline_answer.of_cases (onlyIn_cases done _)
    exact (taken.keeps _).trans (own node)
  · exact (taken.symbols _).trans (@symbol_onlyIn named.workspace.answer (fun _ => rfl) done node)

theorem Resolving.step (sound : named.workspace.Sound)
    (member : row ∈ named.workspace.catalog.rows) (new : row.id ∉ done)
    (ready : (f row.node).stage.reaches .normalized = true) :
    ∃ next, Pass.resolve { pass with workspace := staged } row.id = .ok next ∧
      Resolving named (done ++ [row.id]) next := by
  obtain ⟨reworked, keeps, symbols⟩ := resolving.reworked_staged taken
  obtain ⟨site, live, located, number, same⟩ :=
    reworked.exists_site keeps.sameId taken.sound.numbered member
  have node : site.node = f row.node :=
    (congrArg Row.node same).trans (congrArg f (if_neg new))
  have evaluates : staged.evaluate site.id = named.workspace.evaluate row.id := by
    funext reference
    rw [number]
    exact evaluate_reworked sound taken.sound reworked keeps symbols
      (taken.options.trans resolving.options) member reference
  refine ⟨{ pass with workspace := staged.resolved site }, ?_, ?_⟩
  · unfold Pass.resolve resolveNode
    rw [bind_eq_ok]
    refine ⟨staged.resolved site, ?_, rfl⟩
    rw [bind_eq_ok]
    refine ⟨site, site_eq_ok.mpr located, ?_⟩
    rw [bind_eq_ok]
    exact ⟨(), if_pos (node ▸ ready), rfl⟩
  refine ⟨taken.sound.resolved live, ?_, ?_, ?_, resolving.queue, ?_, ?_⟩
  · refine (reworked.trans (reworked_resolved taken.sound live)).congr fun other _ => ?_
    rw [← onlyAt_onlyIn named.workspace.inPlace_answer.sameId new, Function.comp_apply,
      Function.comp_apply, Function.comp_apply, number]
    generalize onlyIn done named.workspace.answer other.node = changed
    by_cases own : changed.id = row.id
    · rw [onlyAt_of_eq own, onlyAt_of_eq ((taken.keeps.sameId changed).trans own), taken.answered,
        answer, own]
      exact congrArg (Node.answered · changed) evaluates
    · rw [taken.outside changed own, onlyAt_of_ne own, onlyAt_of_ne own]
  · intro other inside listed reference owned
    rcases List.mem_append.mp listed with before | now
    · have apart : other.id ≠ site.id := fun equal => new (number ▸ equal ▸ before)
      rw [dependencies_resolved_of_ne apart, taken.ledger]
      exact resolving.recorded other inside before reference owned
    · obtain rfl := sound.numbered.eq_of_id inside member (List.mem_singleton.mp now)
      have kept : reference ∈ site.node.references := by
        rw [node, taken.references]
        exact owned
      rw [← number, dependencies_resolved_of_mem taken.sound live kept, evaluates, number]
  · intro id apart
    rw [List.mem_append, not_or] at apart
    have other : id.owner ≠ site.id := fun equal =>
      apart.2 (List.mem_singleton.mpr (equal.trans number))
    rw [dependencies_resolved_of_ne other, taken.ledger]
    exact resolving.others apart.1
  · exact (options_resolved staged site).trans (taken.options.trans resolving.options)
  · exact (transaction_resolved staged site).trans (taken.transaction.trans resolving.transaction)

end Step

/-- **Resolving never fails** where all nodes have been named. -/
theorem exists_resolving {named : Pass} (sound : named.workspace.Sound) {work : List NodeId}
    (distinct : work.Nodup)
    (ready : ∀ id ∈ work, ∃ row ∈ named.workspace.catalog.rows, row.id = id ∧
      row.node.stage.reaches .normalized = true) :
    ∃ resolved, work.foldlM Pass.resolve named = .ok resolved ∧ Resolving named work resolved := by
  refine @foldlM_ok _ _ _ _ (Resolving named) _ [] _ distinct (resolving_start sound) ?_
  intro done pass item member new resolving
  obtain ⟨row, live, rfl, reached⟩ := ready item member
  exact resolving.step (staged_refl resolving.sound row.id) sound live new reached

/-- The nodes resolved again are taken back to the stage before first. -/
theorem exists_resolvingAgain {named resolved : Pass} (sound : named.workspace.Sound)
    {work rebound : List NodeId} (resolving : Resolving named work resolved)
    (distinct : (work ++ rebound).Nodup)
    (live : ∀ id ∈ rebound, ∃ row ∈ named.workspace.catalog.rows, row.id = id) :
    ∃ done, rebound.foldlM Pass.resolveAgain resolved = .ok done ∧
      Resolving named (work ++ rebound) done := by
  refine @foldlM_ok _ _ _ _ (Resolving named) _ _ _ distinct resolving ?_
  intro done pass item member new resolving
  obtain ⟨row, inside, rfl⟩ := live item member
  refine resolving.step (staged_atStage resolving.sound row.id .normalized) sound inside new ?_
  rw [onlyAt_of_eq (show row.node.id = row.id from rfl)]
  rfl

/-! ### The queued nodes -/

theorem mem_toRebind {workspace : Workspace} (numbered : workspace.catalog.Numbered)
    {queue : OrderedSet NodeId} {resolved : List NodeId} {id : NodeId} :
    id ∈ workspace.toRebind queue resolved ↔ ∃ row ∈ workspace.catalog.rows, row.id = id ∧
      id ∈ queue ∧ id ∉ resolved ∧ row.node.stage.reaches .normalized = true := by
  unfold toRebind
  rw [Catalog.mem_sortByDocumentOrder, List.mem_filter, Bool.and_eq_true, Bool.not_eq_true',
    List.contains_eq_mem, decide_eq_false_iff_not]
  constructor
  · rintro ⟨queued, new, ready⟩
    obtain ⟨row, member, same, reached⟩ := numbered.any_node?_iff.mp ready
    exact ⟨row, member, same, queued, new, reached⟩
  · rintro ⟨row, member, same, queued, new, reached⟩
    exact ⟨queued, new, numbered.any_node?_iff.mpr ⟨row, member, same, reached⟩⟩

theorem nodup_toRebind (workspace : Workspace) (queue : OrderedSet NodeId)
    (resolved : List NodeId) : (workspace.toRebind queue resolved).Nodup :=
  Catalog.nodup_sortByDocumentOrder (queue.nodup.sublist List.filter_sublist)

end EntityModel
