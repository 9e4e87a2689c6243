import EntityModel.Proofs.Ledger.Registry

/-
**The ledger bucket by bucket.**

The relations of a ledger as they are kept for quick answers: for each key the set of references under
it. Buckets change one reference at a time and go when they run empty; a node that is dropped takes its
two buckets along, and only the references found in them are looked at.

* `Buckets` — the sets by key; `put` and `take` change one of them, `Matches` says which relation they
  make up.
* `BucketLedger` — the dependencies of the references next to four families of buckets, with every
  change as it works on them.
* `Unfolds` — the ledger that a bucket ledger stands for. Every change keeps this
  (`Unfolds.change`), and the answers are the same (`Unfolds.answers`).
* `readOff_after` — **after every sequence of changes a ledger, and a bucket ledger with it, answers as
  a scan of the plain map does.**
-/

namespace EntityModel

/-- For each key the references under it. -/
abbrev Buckets (κ : Type) := AList fun _ : κ => OrderedSet ReferenceId

namespace Buckets

variable {κ : Type} [DecidableEq κ]

/-- The references under a key. -/
def under (buckets : Buckets κ) (key : κ) : OrderedSet ReferenceId :=
  (buckets.lookup key).getD .empty

/-- The buckets with the reference under the key. -/
def put (id : ReferenceId) (buckets : Buckets κ) (key : κ) : Buckets κ :=
  buckets.insert key ((buckets.under key).insert id)

/-- The buckets without the reference under the key. A bucket that runs empty goes. -/
def take (id : ReferenceId) (buckets : Buckets κ) (key : κ) : Buckets κ :=
  match buckets.lookup key with
  | none => buckets
  | some ids =>
    if (ids.erase id).items.isEmpty then buckets.erase key else buckets.insert key (ids.erase id)

/-- The buckets with the reference moved from under some keys to under others. -/
def exchange (id : ReferenceId) (earlier later : List κ) (buckets : Buckets κ) : Buckets κ :=
  later.foldl (put id) (earlier.foldl (take id) buckets)

/-- The buckets make up the relation, and none of them is empty. -/
structure Matches (buckets : Buckets κ) (relation : Relation κ ReferenceId) : Prop where
  mem_iff : ∀ key id, id ∈ buckets.under key ↔ (key, id) ∈ relation
  filled : ∀ key ids, buckets.lookup key = some ids → ids.items ≠ []

theorem mem_under {buckets : Buckets κ} {key : κ} {id : ReferenceId} :
    id ∈ buckets.under key ↔ ∃ ids ∈ buckets.lookup key, id ∈ ids := by
  unfold under
  cases buckets.lookup key with
  | none => exact iff_of_false List.not_mem_nil fun ⟨_, held, _⟩ => nomatch held
  | some ids => simp

theorem under_insert (buckets : Buckets κ) (key other : κ) (ids : OrderedSet ReferenceId) :
    Buckets.under (buckets.insert key ids) other = if other = key then ids else buckets.under other := by
  unfold under
  by_cases same : other = key
  · rw [if_pos same, same, AList.lookup_insert]
    rfl
  · rw [if_neg same, AList.lookup_insert_ne same]

theorem under_erase (buckets : Buckets κ) (key other : κ) :
    Buckets.under (buckets.erase key) other = if other = key then .empty else buckets.under other := by
  unfold under
  by_cases same : other = key
  · rw [if_pos same, same, AList.lookup_erase]
    rfl
  · rw [if_neg same, AList.lookup_erase_ne same]

theorem filled_insert {buckets : Buckets κ} {key : κ} {ids : OrderedSet ReferenceId}
    (filled : ∀ key ids, buckets.lookup key = some ids → ids.items ≠ []) (real : ids.items ≠ [])
    (other : κ) (held : OrderedSet ReferenceId)
    (found : (buckets.insert key ids).lookup other = some held) : held.items ≠ [] := by
  by_cases same : other = key
  · subst same
    rw [AList.lookup_insert] at found
    exact Option.some.inj found ▸ real
  · rw [AList.lookup_insert_ne same] at found
    exact filled other held found

theorem filled_erase {buckets : Buckets κ} {key : κ}
    (filled : ∀ key ids, buckets.lookup key = some ids → ids.items ≠ []) (other : κ)
    (held : OrderedSet ReferenceId) (found : (buckets.erase key).lookup other = some held) :
    held.items ≠ [] := by
  by_cases same : other = key
  · subst same
    rw [AList.lookup_erase] at found
    exact nomatch found
  · rw [AList.lookup_erase_ne same] at found
    exact filled other held found

namespace Matches

variable {buckets : Buckets κ} {relation : Relation κ ReferenceId} (is : buckets.Matches relation)

include is

theorem put (id : ReferenceId) (key : κ) :
    (Buckets.put id buckets key).Matches (relation.insert (key, id)) := by
  refine ⟨fun other item => ?_, filled_insert is.filled ?_⟩
  · rw [Buckets.put, under_insert, OrderedSet.mem_insert, ← is.mem_iff, Prod.mk.injEq]
    by_cases same : other = key
    · rw [if_pos same, same, OrderedSet.mem_insert]
      exact or_congr_right (and_iff_right rfl).symm
    · rw [if_neg same]
      exact (or_iff_left fun both => same both.1).symm
  · exact List.ne_nil_of_mem (OrderedSet.mem_insert.mpr (Or.inr rfl) : id ∈ _)

theorem take (id : ReferenceId) (key : κ) :
    (Buckets.take id buckets key).Matches (relation.erase (key, id)) := by
  have erased : ∀ (after : Buckets κ), (∀ other item, item ∈ after.under other ↔
      if other = key then item ∈ (buckets.under key).erase id else item ∈ buckets.under other) →
        ∀ other item, item ∈ after.under other ↔ (other, item) ∈ relation.erase (key, id) := by
    intro after each other item
    rw [each, @OrderedSet.mem_erase _ _ relation, ← is.mem_iff, ne_eq, Prod.mk.injEq]
    by_cases same : other = key
    · rw [if_pos same, same, OrderedSet.mem_erase, and_iff_right (rfl : key = key)]
    · rw [if_neg same]
      exact (and_iff_left fun both => same both.1).symm
  unfold Buckets.take
  cases found : buckets.lookup key with
  | none =>
    have bare : buckets.under key = .empty := by rw [under, found]; rfl
    refine ⟨erased buckets fun other item => ?_, is.filled⟩
    by_cases same : other = key
    · rw [if_pos same, same, bare]
      exact iff_of_false List.not_mem_nil List.not_mem_nil
    · rw [if_neg same]
  | some ids =>
    have held : buckets.under key = ids := by rw [under, found]; rfl
    dsimp only
    split
    · rename_i bare
      refine ⟨erased _ fun other item => ?_, filled_erase is.filled⟩
      rw [under_erase]
      split
      · rw [held, OrderedSet.mem_iff, OrderedSet.mem_iff, List.isEmpty_iff.mp bare]
        rfl
      · rfl
    · rename_i real
      refine ⟨erased _ fun other item => ?_, filled_insert is.filled fun bare => real ?_⟩
      · rw [under_insert, held]
        split <;> rfl
      · rw [bare]
        rfl

theorem putAll (id : ReferenceId) (keys : List κ) :
    (keys.foldl (Buckets.put id) buckets).Matches (Ledger.enter keys id relation) := by
  induction keys generalizing buckets relation with
  | nil => exact is
  | cons key keys ih => exact ih (is.put id key)

theorem takeAll (id : ReferenceId) (keys : List κ) :
    (keys.foldl (Buckets.take id) buckets).Matches (Ledger.withdraw keys id relation) := by
  induction keys generalizing buckets relation with
  | nil => exact is
  | cons key keys ih => exact ih (is.take id key)

theorem exchange (id : ReferenceId) (earlier later : List κ) :
    (buckets.exchange id earlier later).Matches
      (Ledger.enter later id (Ledger.withdraw earlier id relation)) :=
  (is.takeAll id earlier).putAll id later

theorem dropKey (key : κ) : Matches (buckets.erase key) (relation.dropKey key) := by
  refine ⟨fun other id => ?_, filled_erase is.filled⟩
  rw [under_erase, Relation.mem_dropKey, ← is.mem_iff]
  split
  · rename_i same
    exact iff_of_false List.not_mem_nil fun both => both.2 same
  · rename_i other
    exact (and_iff_left other).symm

theorem mem_image {key : κ} {id : ReferenceId} :
    id ∈ relation.image key ↔ id ∈ (buckets.under key).items :=
  Relation.mem_image.trans (is.mem_iff key id).symm

theorem mem_keys {key : κ} : key ∈ relation.keys ↔ key ∈ buckets.keys := by
  rw [Relation.mem_keys, ← AList.mem_keys, ← AList.lookup_isSome]
  constructor
  · rintro ⟨id, related⟩
    obtain ⟨ids, held, _⟩ := mem_under.mp ((is.mem_iff key id).mpr related)
    exact Option.isSome_iff_exists.mpr ⟨ids, held⟩
  · intro found
    obtain ⟨ids, held⟩ := Option.isSome_iff_exists.mp found
    obtain ⟨id, member⟩ := List.exists_mem_of_ne_nil _ (is.filled key ids held)
    exact ⟨id, (is.mem_iff key id).mp (mem_under.mpr ⟨ids, held, member⟩)⟩

/-- The references in all buckets together are as many as there are pairs. -/
theorem length_eq : (buckets.entries.map fun bucket => bucket.2.items.length).sum =
    relation.items.length :=
  sum_length_entries buckets (fun ids => ids.nodup) Prod.mk.inj relation.nodup
    (fun each _ => ⟨each.1, each.2, rfl⟩) fun key id =>
      OrderedSet.mem_iff.symm.trans ((is.mem_iff key id).symm.trans mem_under)

end Matches

end Buckets

/-! ### The ledger in buckets -/

/-- The dependencies of the references, with the references by target, by context, by symbol not found
and by symbol looked up. References that depend on nothing are not kept. -/
structure BucketLedger where
  forward : Registry
  byTarget : Buckets NodeId
  byContext : Buckets NodeId
  byDangling : Buckets Symbol
  byLookup : Buckets Symbol

namespace BucketLedger

/-- No references. -/
def empty : BucketLedger := ⟨∅, ∅, ∅, ∅, ∅⟩

/-- The dependencies are put in the place of those of the reference, and the change of its targets goes
with the result. Targets change by their difference, the rest is taken out and put in again. -/
def record (ledger : BucketLedger) (id : ReferenceId) (dependencies : Dependencies) :
    BucketLedger × TargetChange :=
  let earlier := ledger.forward.dependencies id
  let removed := earlier.targets.missingIn dependencies.targets
  let added := dependencies.targets.missingIn earlier.targets
  ({ forward := if dependencies = .none then ledger.forward.erase id
        else (ledger.forward.erase id).insert id dependencies
     byTarget := ledger.byTarget.exchange id removed added
     byContext := ledger.byContext.exchange id earlier.context.items dependencies.context.items
     byDangling := ledger.byDangling.exchange id earlier.dangling.items dependencies.dangling.items
     byLookup := ledger.byLookup.exchange id earlier.lookups.items dependencies.lookups.items },
    ⟨added, removed⟩)

/-- The dependencies of a reference change where they are kept. -/
def adjustOne (change : Dependencies → Dependencies) (forward : Registry) (id : ReferenceId) :
    Registry :=
  match forward.lookup id with
  | none => forward
  | some dependencies => forward.insert id (change dependencies)

/-- The dependencies of some references change where they are kept. -/
def adjust (change : Dependencies → Dependencies) (forward : Registry) (ids : List ReferenceId) :
    Registry :=
  ids.foldl (adjustOne change) forward

/-- The buckets of a node go, and the node goes from the dependencies of the references in them, which
go with the result. -/
def dropNode (ledger : BucketLedger) (node : NodeId) : BucketLedger × List ReferenceId :=
  let targeting := (ledger.byTarget.under node).items
  let reading := (ledger.byContext.under node).items
  let untargeted := adjust (fun dependencies =>
    { dependencies with targets := dependencies.targets.erase node }) ledger.forward targeting
  ({ ledger with
      forward := adjust (fun dependencies =>
        { dependencies with context := dependencies.context.erase node }) untargeted reading
      byTarget := ledger.byTarget.erase node
      byContext := ledger.byContext.erase node },
    Ledger.sorted (targeting ++ reading))

/-- The ledger after a change. -/
def change (ledger : BucketLedger) : Ledger.Change → BucketLedger
  | .record id dependencies => (ledger.record id dependencies).1
  | .forget id => (ledger.record id .none).1
  | .dropNode node => (ledger.dropNode node).1
  | .clear => empty

/-- The ledger after the changes, in order. -/
def after (changes : List Ledger.Change) : BucketLedger :=
  changes.foldl change empty

/-- The answers of a bucket ledger. -/
def answers (ledger : BucketLedger) : Ledger.Answers where
  referencers node := Ledger.sorted (ledger.byTarget.under node).items
  contextDependents node := Ledger.sorted (ledger.byContext.under node).items
  waitingOn symbol := Ledger.sorted (ledger.byDangling.under symbol).items
  lookupDependents symbol := Ledger.sorted (ledger.byLookup.under symbol).items
  targets id := (ledger.forward.dependencies id).targets.items
  hasReferencers node := (ledger.byTarget.lookup node).any fun ids => !ids.items.isEmpty
  referencedTargets := sortBy Ledger.numberBefore ledger.byTarget.keys
  edgeCount := (ledger.byTarget.entries.map fun bucket => bucket.2.items.length).sum
  recorded id dependencies := (ledger.record id dependencies).2
  dropped node := (ledger.dropNode node).2

/-- The bucket ledger stands for the ledger. -/
structure Unfolds (buckets : BucketLedger) (ledger : Ledger) : Prop where
  forward : ∀ id, buckets.forward.dependencies id = ledger.dependencies id
  byTarget : buckets.byTarget.Matches ledger.byTarget
  byContext : buckets.byContext.Matches ledger.byContext
  byDangling : buckets.byDangling.Matches ledger.byDangling
  byLookup : buckets.byLookup.Matches ledger.byLookup

theorem unfolds_empty : empty.Unfolds .empty := by
  have bare : ∀ {κ : Type} [DecidableEq κ], (∅ : Buckets κ).Matches .empty := by
    intro κ _
    exact ⟨fun _ _ => iff_of_false List.not_mem_nil List.not_mem_nil,
      fun _ _ found => nomatch found⟩
  exact ⟨fun _ => rfl, bare, bare, bare, bare⟩

theorem dependencies_adjustOne {change : Dependencies → Dependencies}
    (keeps : change .none = .none) (forward : Registry) (id other : ReferenceId) :
    (adjustOne change forward id).dependencies other =
      if other = id then change (forward.dependencies id) else forward.dependencies other := by
  unfold adjustOne
  cases found : forward.lookup id with
  | none =>
    have bare : forward.dependencies id = .none := by rw [Registry.dependencies, found]; rfl
    by_cases same : other = id
    · rw [if_pos same, same, bare, keeps]
    · rw [if_neg same]
  | some dependencies =>
    have held : forward.dependencies id = dependencies := by rw [Registry.dependencies, found]; rfl
    rw [held]
    exact Registry.dependencies_insert forward id (change dependencies) other

/-- Adjusting changes the references that are listed. -/
theorem dependencies_adjust {change : Dependencies → Dependencies} (keeps : change .none = .none)
    (id : ReferenceId) {ids : List ReferenceId} (distinct : ids.Nodup) : ∀ forward : Registry,
    (adjust change forward ids).dependencies id =
      if id ∈ ids then change (forward.dependencies id) else forward.dependencies id := by
  induction ids with
  | nil => exact fun _ => rfl
  | cons first ids ih =>
    intro forward
    obtain ⟨new, others⟩ := List.nodup_cons.mp distinct
    rw [adjust, List.foldl_cons, ← adjust, ih others, dependencies_adjustOne keeps]
    by_cases same : id = first
    · rw [same, if_neg new, if_pos rfl, if_pos List.mem_cons_self]
    · rw [if_neg same]
      exact if_congr (by rw [List.mem_cons, or_iff_right same]) rfl rfl

namespace Unfolds

variable {buckets : BucketLedger} {ledger : Ledger} (unfolds : buckets.Unfolds ledger)

include unfolds

theorem record (id : ReferenceId) (dependencies : Dependencies) :
    (buckets.record id dependencies).1.Unfolds (ledger.record id dependencies) := by
  have earlier := unfolds.forward id
  unfold BucketLedger.record Ledger.record Ledger.targetChange
  simp only [earlier]
  refine ⟨fun other => ?_, ?_, ?_, ?_, ?_⟩
  · refine Eq.trans ?_ (Ledger.dependencies_record ledger id dependencies other).symm
    dsimp only
    by_cases trivial : dependencies = .none
    · rw [if_pos trivial, Registry.dependencies_erase, unfolds.forward, trivial]
    · rw [if_neg trivial, Registry.dependencies_insert, Registry.dependencies_erase,
        unfolds.forward]
      split <;> rfl
  · exact unfolds.byTarget.exchange id _ _
  · exact unfolds.byContext.exchange id _ _
  · exact unfolds.byDangling.exchange id _ _
  · exact unfolds.byLookup.exchange id _ _

/-- The references that name the node are those in its buckets, so the others need not change. -/
theorem dropNode (indexed : ledger.Indexed) (node : NodeId) :
    (buckets.dropNode node).1.Unfolds (ledger.dropNode node) := by
  refine ⟨fun id => ?_, unfolds.byTarget.dropKey node, unfolds.byContext.dropKey node,
    unfolds.byDangling, unfolds.byLookup⟩
  have targeting : id ∈ (buckets.byTarget.under node).items ↔
      node ∈ (ledger.dependencies id).targets :=
    (unfolds.byTarget.mem_iff node id).trans indexed.byTarget
  have reading : id ∈ (buckets.byContext.under node).items ↔
      node ∈ (ledger.dependencies id).context :=
    (unfolds.byContext.mem_iff node id).trans indexed.byContext
  have absent : ∀ {set : OrderedSet NodeId}, node ∉ set → set.erase node = set := by
    intro set outside
    refine OrderedSet.ext_items (List.filter_eq_self.mpr fun item member => ?_)
    exact decide_eq_true fun same => outside (same ▸ member)
  rw [Ledger.dependencies_dropNode]
  unfold BucketLedger.dropNode
  dsimp only
  rw [dependencies_adjust rfl id (buckets.byContext.under node).nodup,
    dependencies_adjust rfl id (buckets.byTarget.under node).nodup, unfolds.forward]
  simp only [targeting, reading]
  unfold Dependencies.withoutNode
  by_cases target : node ∈ (ledger.dependencies id).targets
  · by_cases read : node ∈ (ledger.dependencies id).context
    · rw [if_pos target, if_pos read]
    · rw [if_pos target, if_neg read, absent read]
  · by_cases read : node ∈ (ledger.dependencies id).context
    · rw [if_neg target, if_pos read, absent target]
    · rw [if_neg target, if_neg read, absent target, absent read]

/-- **Every change keeps the bucket ledger in step.** -/
theorem change (indexed : ledger.Indexed) (change : Ledger.Change) :
    (buckets.change change).Unfolds (ledger.change change) := by
  cases change with
  | record id dependencies => exact unfolds.record id dependencies
  | forget id => exact unfolds.record id .none
  | dropNode node => exact unfolds.dropNode indexed node
  | clear => exact unfolds_empty

theorem hasReferencers (node : NodeId) :
    ((buckets.byTarget.lookup node).any fun ids => !ids.items.isEmpty) =
      ledger.hasReferencers node := by
  rw [Bool.eq_iff_iff]
  unfold Ledger.hasReferencers
  rw [Bool.not_eq_true', List.isEmpty_eq_false_iff_exists_mem]
  simp only [unfolds.byTarget.mem_image, Buckets.under]
  cases buckets.byTarget.lookup node with
  | none => exact iff_of_false Bool.false_ne_true fun ⟨_, member⟩ => absurd member List.not_mem_nil
  | some ids =>
    rw [Option.any_some, Bool.not_eq_true', List.isEmpty_eq_false_iff_exists_mem]
    rfl

/-- **The answers are those of the ledger.** -/
theorem answers : buckets.answers = ledger.answers := by
  have related : ∀ {κ : Type} [DecidableEq κ] {sets : Buckets κ} {relation : Relation κ ReferenceId},
      sets.Matches relation → ∀ key,
        Ledger.sorted (sets.under key).items = Ledger.sorted (relation.image key) :=
    fun is key => Ledger.sorted_congr fun _ => is.mem_image.symm
  have referenced : sortBy Ledger.numberBefore buckets.byTarget.keys = ledger.referencedTargets := by
    have members : (sortBy Ledger.numberBefore buckets.byTarget.keys).Perm
        ledger.referencedTargets := by
      refine (perm_sortBy _ _).trans (.trans ?_ (perm_sortBy _ _).symm)
      refine (List.perm_ext_iff_of_nodup buckets.byTarget.keys_nodup ledger.byTarget.keys.nodup).mpr
        fun node => ?_
      exact unfolds.byTarget.mem_keys.symm
    exact members.eq_of_pairwise (fun _ _ _ _ => Ledger.numberBefore_antisymm)
      (pairwise_sortBy Ledger.numberBefore_trans Ledger.numberBefore_total _)
      (pairwise_sortBy Ledger.numberBefore_trans Ledger.numberBefore_total _)
  unfold BucketLedger.answers Ledger.answers
  rw [Ledger.Answers.mk.injEq]
  refine ⟨funext (related unfolds.byTarget), funext (related unfolds.byContext),
    funext (related unfolds.byDangling), funext (related unfolds.byLookup), ?_,
    funext unfolds.hasReferencers, referenced, unfolds.byTarget.length_eq, ?_, ?_⟩
  · exact funext fun id => congrArg (fun dependencies => dependencies.targets.items)
      (unfolds.forward id)
  · funext id dependencies
    unfold BucketLedger.record Ledger.targetChange
    rw [unfolds.forward]
  · funext node
    refine Ledger.sorted_congr fun id => ?_
    rw [List.mem_append, List.mem_append, unfolds.byTarget.mem_image, unfolds.byContext.mem_image]

end Unfolds

end BucketLedger

/-- **After every sequence of changes a ledger answers as a scan of the plain map does**, and so does
one that is kept bucket by bucket. -/
theorem readOff_after (changes : List Ledger.Change) :
    (Ledger.after changes).answers.ReadOff (Registry.after changes) ∧
      (BucketLedger.after changes).answers.ReadOff (Registry.after changes) := by
  have inStep : ∀ {buckets : BucketLedger} {ledger : Ledger} {registry : Registry},
      buckets.Unfolds ledger → ledger.Mirrors registry →
        (changes.foldl BucketLedger.change buckets).Unfolds (changes.foldl Ledger.change ledger) := by
    induction changes with
    | nil => exact fun unfolds _ => unfolds
    | cons change changes ih =>
      exact fun unfolds mirrors => ih (unfolds.change mirrors.indexed change) (mirrors.change change)
  have mirrors := Ledger.mirrors_empty.after changes
  refine ⟨mirrors.readOff, ?_⟩
  have same := (inStep BucketLedger.unfolds_empty Ledger.mirrors_empty).answers
  exact same ▸ mirrors.readOff

end EntityModel
