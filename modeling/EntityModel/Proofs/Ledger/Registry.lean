import Mathlib.Algebra.GroupWithZero.Nat
import Mathlib.Data.List.AList
import EntityModel.Proofs.Ledger.Dependencies

/-
**The ledger against the plain map.**

What a ledger has to answer is said by a map from references to their dependencies that is never read
from the other side: every question is a scan of all its entries.

* `Ledger.Change`, `Ledger.change` — what can be asked of a ledger to change it.
* `Registry` — the plain map; `Registry.change` — what a change does to it.
* `Ledger.Answers` — everything that can be asked of a ledger, the results of changes included;
  `Answers.ReadOff` — the answers are those of a scan; `answers_congr` — ledgers that hold the same
  dependencies give the same answers.
* `Mirrors` — a ledger whose relations are those of the map. Every change keeps this
  (`Mirrors.change`), and such a ledger answers like the map (`Mirrors.readOff`).
-/

namespace EntityModel

/-- The items under all keys of a map are as many as the pairs they make with their keys. -/
theorem sum_length_entries {κ υ β γ : Type} [DecidableEq κ] (map : AList fun _ : κ => υ)
    {part : υ → List β} (once : ∀ value, (part value).Nodup) {pair : κ → β → γ}
    (parts : ∀ {key item other thing}, pair key item = pair other thing →
      key = other ∧ item = thing)
    {pairs : List γ} (distinct : pairs.Nodup) (only : ∀ each ∈ pairs, ∃ key item, pair key item = each)
    (related : ∀ key item, pair key item ∈ pairs ↔ ∃ value ∈ map.lookup key, item ∈ part value) :
    (map.entries.map fun entry => (part entry.2).length).sum = pairs.length := by
  have listed : (map.entries.flatMap fun entry => (part entry.2).map (pair entry.1)).Nodup := by
    refine List.nodup_flatMap.mpr ⟨fun entry _ => ?_, ?_⟩
    · exact (once entry.2).map fun _ _ same => (parts same).2
    · refine (List.pairwise_map.mp map.nodupKeys).imp fun {first second} apart => ?_
      intro each inFirst inSecond
      obtain ⟨_, _, rfl⟩ := List.mem_map.mp inFirst
      obtain ⟨_, _, same⟩ := List.mem_map.mp inSecond
      exact apart (parts same).1.symm
  have members : ∀ each, (each ∈ map.entries.flatMap fun entry =>
      (part entry.2).map (pair entry.1)) ↔ each ∈ pairs := by
    intro each
    rw [List.mem_flatMap]
    constructor
    · rintro ⟨⟨key, value⟩, entry, inside⟩
      obtain ⟨item, member, rfl⟩ := List.mem_map.mp inside
      exact (related key item).mpr ⟨value, AList.mem_lookup_iff.mpr entry, member⟩
    · intro member
      obtain ⟨key, item, rfl⟩ := only each member
      obtain ⟨value, held, inside⟩ := (related key item).mp member
      exact ⟨⟨key, value⟩, AList.mem_lookup_iff.mp held, List.mem_map_of_mem inside⟩
  rw [← ((List.perm_ext_iff_of_nodup listed distinct).mpr members).length_eq, List.length_flatMap]
  exact congrArg List.sum (List.map_congr_left fun _ _ => (List.length_map _).symm)

namespace Ledger

/-! ### Changes -/

/-- A change of a ledger. -/
inductive Change where
  | record (id : ReferenceId) (dependencies : Dependencies)
  | forget (id : ReferenceId)
  | dropNode (node : NodeId)
  | clear

/-- The ledger after a change. -/
def change (ledger : Ledger) : Change → Ledger
  | .record id dependencies => ledger.record id dependencies
  | .forget id => ledger.forget id
  | .dropNode node => ledger.dropNode node
  | .clear => empty

/-- The ledger after the changes, in order. -/
def after (changes : List Change) : Ledger :=
  changes.foldl change empty

end Ledger

/-- The plain map from references to what their last evaluation rested on. -/
abbrev Registry := AList fun _ : ReferenceId => Dependencies

namespace Registry

/-- The dependencies in the map, none for a reference that is not there. -/
def dependencies (registry : Registry) (id : ReferenceId) : Dependencies :=
  (registry.lookup id).getD .none

/-- The map with a node taken out of the targets and the context of every entry. -/
def withoutNode (registry : Registry) (node : NodeId) : Registry where
  entries := registry.entries.map
    (Sigma.map id fun _ dependencies => dependencies.withoutNode node)
  nodupKeys := by
    unfold List.NodupKeys List.keys
    rw [List.map_map]
    exact registry.nodupKeys

/-- The map after a change. -/
def change (registry : Registry) : Ledger.Change → Registry
  | .record id dependencies => registry.insert id dependencies
  | .forget id => registry.erase id
  | .dropNode node => registry.withoutNode node
  | .clear => ∅

/-- The map after the changes, in order. -/
def after (changes : List Ledger.Change) : Registry :=
  changes.foldl change ∅

/-- The entry of the reference has the item in the part. -/
def Holds {α : Type} (registry : Registry) (part : Dependencies → OrderedSet α) (item : α)
    (id : ReferenceId) : Prop :=
  ∃ dependencies, registry.lookup id = some dependencies ∧ item ∈ part dependencies

theorem holds_iff {α : Type} {registry : Registry} {part : Dependencies → OrderedSet α}
    (none : part .none = .empty) {item : α} {id : ReferenceId} :
    registry.Holds part item id ↔ item ∈ part (registry.dependencies id) := by
  unfold Holds dependencies
  cases registry.lookup id with
  | none =>
    rw [Option.getD_none, none]
    refine ⟨?_, fun member => absurd member List.not_mem_nil⟩
    rintro ⟨_, absent, _⟩
    exact nomatch absent
  | some held =>
    exact ⟨fun ⟨_, same, member⟩ => Option.some.inj same ▸ member,
      fun member => ⟨held, rfl, member⟩⟩

theorem dependencies_insert (registry : Registry) (id : ReferenceId) (dependencies : Dependencies)
    (other : ReferenceId) : Registry.dependencies (registry.insert id dependencies) other =
      if other = id then dependencies else registry.dependencies other := by
  unfold Registry.dependencies
  by_cases same : other = id
  · rw [if_pos same, same, AList.lookup_insert]
    rfl
  · rw [if_neg same, AList.lookup_insert_ne same]

theorem dependencies_erase (registry : Registry) (id other : ReferenceId) :
    Registry.dependencies (registry.erase id) other =
      if other = id then .none else registry.dependencies other := by
  unfold Registry.dependencies
  by_cases same : other = id
  · rw [if_pos same, same, AList.lookup_erase]
    rfl
  · rw [if_neg same, AList.lookup_erase_ne same]

theorem dependencies_withoutNode (registry : Registry) (node : NodeId) (id : ReferenceId) :
    (registry.withoutNode node).dependencies id = (registry.dependencies id).withoutNode node := by
  have found : (registry.withoutNode node).lookup id =
      (registry.lookup id).map fun dependencies => dependencies.withoutNode node :=
    List.dlookup_map₂ id
  unfold Registry.dependencies
  rw [found]
  cases registry.lookup id with
  | none => rfl
  | some _ => rfl

end Registry

/-! ### Answers -/

namespace Ledger

/-- Everything that can be asked of a ledger: the questions, and what a change gives back. -/
structure Answers where
  referencers : NodeId → List ReferenceId
  contextDependents : NodeId → List ReferenceId
  waitingOn : Symbol → List ReferenceId
  lookupDependents : Symbol → List ReferenceId
  targets : ReferenceId → List NodeId
  hasReferencers : NodeId → Bool
  referencedTargets : List NodeId
  edgeCount : Nat
  /-- What recording dependencies for a reference gives back. -/
  recorded : ReferenceId → Dependencies → TargetChange
  /-- What dropping a node gives back. -/
  dropped : NodeId → List ReferenceId

/-- The answers of a ledger. -/
def answers (ledger : Ledger) : Answers where
  referencers := ledger.referencers
  contextDependents := ledger.contextDependents
  waitingOn := ledger.waitingOn
  lookupDependents := ledger.lookupDependents
  targets := ledger.targets
  hasReferencers := ledger.hasReferencers
  referencedTargets := ledger.referencedTargets
  edgeCount := ledger.edgeCount
  recorded := ledger.targetChange
  dropped := ledger.dependents

/-- The list holds the references with the property, ascending and each once. -/
structure Lists (ids : List ReferenceId) (property : ReferenceId → Prop) : Prop where
  ascending : ids.Pairwise fun first second => first.before second = true ∧ first ≠ second
  mem_iff : ∀ id, id ∈ ids ↔ property id

/-- The answers are those of a scan of the plain map. -/
structure Answers.ReadOff (answers : Answers) (registry : Registry) : Prop where
  referencers : ∀ node, Lists (answers.referencers node) (registry.Holds Dependencies.targets node)
  contextDependents : ∀ node,
    Lists (answers.contextDependents node) (registry.Holds Dependencies.context node)
  waitingOn : ∀ symbol, Lists (answers.waitingOn symbol) (registry.Holds Dependencies.dangling symbol)
  lookupDependents : ∀ symbol,
    Lists (answers.lookupDependents symbol) (registry.Holds Dependencies.lookups symbol)
  /-- The targets in the order in which they were recorded. -/
  targets : ∀ id, answers.targets id = (registry.dependencies id).targets.items
  hasReferencers : ∀ node, answers.hasReferencers node = true ↔
    ∃ id, registry.Holds Dependencies.targets node id
  referencedAscending : answers.referencedTargets.Pairwise fun first second =>
    first.number < second.number
  referencedTargets : ∀ node, node ∈ answers.referencedTargets ↔
    ∃ id, registry.Holds Dependencies.targets node id
  edgeCount : answers.edgeCount =
    (registry.entries.map fun entry => entry.2.targets.items.length).sum
  /-- New targets in the new order, lost ones in the old order. -/
  recorded : ∀ id dependencies, answers.recorded id dependencies =
    ⟨dependencies.targets.items.filter fun node => node ∉ (registry.dependencies id).targets.items,
      (registry.dependencies id).targets.items.filter fun node =>
        node ∉ dependencies.targets.items⟩
  dropped : ∀ node, Lists (answers.dropped node) fun id =>
    registry.Holds Dependencies.targets node id ∨ registry.Holds Dependencies.context node id

theorem pairwise_sorted (ids : List ReferenceId) :
    (sorted ids).Pairwise fun first second => first.before second = true := by
  have transitive : ∀ first second third : ReferenceId, first.before second = true →
      second.before third = true → first.before third = true := fun _ _ _ => before_trans
  exact pairwise_sortBy transitive before_total _

theorem lists_sorted {ids : List ReferenceId} {property : ReferenceId → Prop}
    (members : ∀ id, id ∈ ids ↔ property id) : Lists (sorted ids) property :=
  ⟨(pairwise_sorted ids).and (nodup_sorted ids), fun id => mem_sorted.trans (members id)⟩

/-! ### Nodes by number -/

/-- Whether the first number is at most the second. -/
def numberBefore (first second : NodeId) : Bool :=
  first.number ≤ second.number

theorem numberBefore_trans (first second third : NodeId) (lower : numberBefore first second = true)
    (upper : numberBefore second third = true) : numberBefore first third = true :=
  decide_eq_true (Nat.le_trans (of_decide_eq_true lower) (of_decide_eq_true upper))

theorem numberBefore_total (first second : NodeId) :
    (numberBefore first second || numberBefore second first) = true := by
  rw [Bool.or_eq_true]
  exact (le_total first.number second.number).imp decide_eq_true decide_eq_true

theorem numberBefore_antisymm {first second : NodeId} (lower : numberBefore first second = true)
    (upper : numberBefore second first = true) : first = second := by
  rcases first with ⟨first⟩
  rcases second with ⟨second⟩
  rw [show first = second from Nat.le_antisymm (of_decide_eq_true lower) (of_decide_eq_true upper)]

theorem ascending_sortBy {nodes : List NodeId} (distinct : nodes.Nodup) :
    (sortBy numberBefore nodes).Pairwise fun first second => first.number < second.number := by
  have sorted := pairwise_sortBy numberBefore_trans numberBefore_total nodes
  have apart : (sortBy numberBefore nodes).Nodup := (perm_sortBy _ _).nodup_iff.mpr distinct
  refine (sorted.and apart).imp fun {first second} both => ?_
  refine lt_of_le_of_ne (of_decide_eq_true both.1) fun same => both.2 ?_
  rcases first with ⟨number⟩
  rw [show number = second.number from same]

theorem sortBy_numberBefore_congr {nodes others : List NodeId} (same : nodes.Perm others) :
    sortBy numberBefore nodes = sortBy numberBefore others :=
  sortBy_congr numberBefore_trans numberBefore_total (fun _ _ => numberBefore_antisymm) same

/-! ### Ledgers that hold the same -/

/-- **Ledgers that hold the same dependencies give the same answers**, whatever led to them. -/
theorem answers_congr {first second : Ledger} (indexed : first.Indexed) (twin : second.Indexed)
    (same : ∀ id, second.dependencies id = first.dependencies id) :
    second.answers = first.answers := by
  have pairs : ∀ pair : NodeId × ReferenceId, pair ∈ second.byTarget ↔ pair ∈ first.byTarget := by
    rintro ⟨node, id⟩
    rw [twin.byTarget, indexed.byTarget, same]
  have targets : second.byTarget.items.Perm first.byTarget.items :=
    (List.perm_ext_iff_of_nodup second.byTarget.nodup first.byTarget.nodup).mpr pairs
  have images : ∀ node, (second.byTarget.image node).Perm (first.byTarget.image node) := by
    intro node
    exact (targets.filter fun pair => decide (pair.1 = node)).map Prod.snd
  have keys : second.byTarget.keys.items.Perm first.byTarget.keys.items := by
    refine (List.perm_ext_iff_of_nodup (OrderedSet.nodup _) (OrderedSet.nodup _)).mpr fun node => ?_
    rw [← OrderedSet.mem_iff, ← OrderedSet.mem_iff, Relation.mem_keys, Relation.mem_keys]
    exact exists_congr fun id => pairs (node, id)
  have dropped : ∀ node, second.dependents node = first.dependents node := by
    intro node
    refine sorted_congr fun id => ?_
    rw [List.mem_append, List.mem_append, Relation.mem_image, Relation.mem_image, Relation.mem_image,
      Relation.mem_image, pairs, twin.byContext, indexed.byContext, same]
  have recorded : ∀ id dependencies, second.targetChange id dependencies =
      first.targetChange id dependencies := by
    intro id dependencies
    unfold targetChange
    rw [same]
  unfold answers
  rw [Answers.mk.injEq]
  refine ⟨funext (referencers_congr indexed twin same), funext (contextDependents_congr indexed twin same),
    funext (waitingOn_congr indexed twin same), funext (lookupDependents_congr indexed twin same),
    funext fun id => ?_, funext fun node => ?_, sortBy_numberBefore_congr keys, targets.length_eq,
    funext fun id => funext (recorded id), funext dropped⟩
  · unfold Ledger.targets
    rw [same]
  · unfold hasReferencers
    rw [(images node).isEmpty_eq]

/-! ### A ledger that mirrors the map -/

/-- The ledger holds what the map holds, and its relations with it. -/
structure Mirrors (ledger : Ledger) (registry : Registry) : Prop where
  dependencies : ∀ id, ledger.dependencies id = registry.dependencies id
  indexed : ledger.Indexed

theorem mirrors_empty : Mirrors empty ∅ :=
  ⟨fun _ => rfl, indexed_empty⟩

namespace Mirrors

variable {ledger : Ledger} {registry : Registry} (mirrors : Mirrors ledger registry)

include mirrors

/-- **Every change keeps a ledger in step with the map.** -/
theorem change (change : Change) : Mirrors (ledger.change change) (registry.change change) := by
  cases change with
  | record id dependencies =>
    refine ⟨fun other => ?_, mirrors.indexed.record id dependencies⟩
    exact (dependencies_record ledger id dependencies other).trans (by
      rw [mirrors.dependencies]
      exact (Registry.dependencies_insert registry id dependencies other).symm)
  | forget id =>
    refine ⟨fun other => ?_, mirrors.indexed.record id .none⟩
    exact (dependencies_forget ledger id other).trans (by
      rw [mirrors.dependencies]
      exact (Registry.dependencies_erase registry id other).symm)
  | dropNode node =>
    refine ⟨fun other => ?_, mirrors.indexed.dropNode node⟩
    exact (dependencies_dropNode ledger node other).trans (by
      rw [mirrors.dependencies]
      exact (Registry.dependencies_withoutNode registry node other).symm)
  | clear => exact mirrors_empty

theorem after (changes : List Change) :
    Mirrors (changes.foldl Ledger.change ledger) (changes.foldl Registry.change registry) := by
  induction changes generalizing ledger registry with
  | nil => exact mirrors
  | cons change changes ih => exact ih (mirrors.change change)

/-! ### Its answers -/

theorem byTarget_iff {node : NodeId} {id : ReferenceId} :
    (node, id) ∈ ledger.byTarget ↔ registry.Holds Dependencies.targets node id := by
  rw [mirrors.indexed.byTarget, Registry.holds_iff rfl, mirrors.dependencies]

theorem byContext_iff {node : NodeId} {id : ReferenceId} :
    (node, id) ∈ ledger.byContext ↔ registry.Holds Dependencies.context node id := by
  rw [mirrors.indexed.byContext, Registry.holds_iff rfl, mirrors.dependencies]

/-- The pairs of a target and a reference to it are those that a scan counts. -/
theorem edgeCount_eq : ledger.edgeCount =
    (registry.entries.map fun entry => entry.2.targets.items.length).sum :=
  (sum_length_entries registry (fun dependencies => dependencies.targets.nodup)
    (fun same => (Prod.mk.inj same).symm) ledger.byTarget.nodup (fun each _ => ⟨each.2, each.1, rfl⟩)
    fun _ _ => OrderedSet.mem_iff.symm.trans mirrors.byTarget_iff).symm

/-- **A ledger in step with the map answers like it.** -/
theorem readOff : ledger.answers.ReadOff registry := by
  have dangling : ∀ {symbol id}, (symbol, id) ∈ ledger.byDangling ↔
      registry.Holds Dependencies.dangling symbol id := by
    intro symbol id
    rw [mirrors.indexed.byDangling, Registry.holds_iff rfl, mirrors.dependencies]
  have lookups : ∀ {symbol id}, (symbol, id) ∈ ledger.byLookup ↔
      registry.Holds Dependencies.lookups symbol id := by
    intro symbol id
    rw [mirrors.indexed.byLookup, Registry.holds_iff rfl, mirrors.dependencies]
  refine ⟨?_, ?_, ?_, ?_, ?_, ?_, ?_, ?_, mirrors.edgeCount_eq, ?_, ?_⟩
  · exact fun node => lists_sorted fun id => Relation.mem_image.trans mirrors.byTarget_iff
  · exact fun node => lists_sorted fun id => Relation.mem_image.trans mirrors.byContext_iff
  · exact fun symbol => lists_sorted fun id => Relation.mem_image.trans dangling
  · exact fun symbol => lists_sorted fun id => Relation.mem_image.trans lookups
  · exact fun id => congrArg (fun dependencies => dependencies.targets.items)
      (mirrors.dependencies id)
  · intro node
    show (!(ledger.byTarget.image node).isEmpty) = true ↔ _
    rw [Bool.not_eq_true', List.isEmpty_eq_false_iff_exists_mem]
    exact exists_congr fun id => Relation.mem_image.trans mirrors.byTarget_iff
  · exact ascending_sortBy ledger.byTarget.keys.nodup
  · intro node
    show node ∈ sortBy numberBefore ledger.byTarget.keys.items ↔ _
    rw [mem_sortBy, ← OrderedSet.mem_iff, Relation.mem_keys]
    exact exists_congr fun id => mirrors.byTarget_iff
  · intro id dependencies
    show ledger.targetChange id dependencies = _
    unfold targetChange OrderedSet.missingIn
    simp only [mirrors.dependencies, OrderedSet.mem_iff, decide_not]
  · intro node
    refine lists_sorted fun id => ?_
    rw [List.mem_append, Relation.mem_image, Relation.mem_image, mirrors.byTarget_iff,
      mirrors.byContext_iff]

end Mirrors

end Ledger

end EntityModel
