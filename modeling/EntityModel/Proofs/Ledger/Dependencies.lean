import Mathlib.Data.List.Basic
import EntityModel.Ledger

/-
**The ledger as a map from references to their dependencies.**

Every change of the ledger is described by what it does to `dependencies`; the four relations follow.

* `dependencies_record`, `dependencies_dropNode`, `dependencies_forgetAll` — the map after a change.
* `Ledger.Indexed` — the relations hold exactly the pairs that the map gives. Every change keeps it.
* `mem_referencers` and its likes — a question is answered from the map.
* `referencers_congr` and its likes — ledgers with the same map answer alike.
-/

namespace EntityModel

namespace OrderedSet

variable {α : Type} [DecidableEq α]

/-- Inserting many items appends those that are new, each at its first place. -/
theorem items_insertAll (items : List α) : ∀ set : OrderedSet α,
    (set.insertAll items).items =
      set.items ++ (items.filter fun item => decide (item ∉ set.items)).eraseDups := by
  induction items with
  | nil => intro set; simp [insertAll]
  | cons item items ih =>
    intro set
    rw [insertAll, List.foldl_cons, ← insertAll, ih]
    unfold insert
    by_cases present : item ∈ set.items
    · rw [dif_pos present, List.filter_cons_of_neg (by simp [present])]
    · rw [dif_neg present, List.filter_cons_of_pos (by simp [present]),
        List.eraseDups_cons, List.append_assoc, List.singleton_append, List.filter_filter]
      congr 3
      refine List.filter_congr fun other _ => ?_
      by_cases same : other = item
      · simp [same]
      · simp [same]

/-- The set of a list holds its items, each at its first place. -/
theorem items_ofList (items : List α) : (ofList items).items = items.eraseDups := by
  rw [ofList, items_insertAll]
  simp [empty]

end OrderedSet

/-- Where some part of the dependencies has an item, something is recorded. -/
theorem Dependencies.ne_none_of_mem {α : Type} (part : Dependencies → OrderedSet α)
    (bare : part .none = .empty) {dependencies : Dependencies} {item : α}
    (inside : item ∈ part dependencies) : dependencies ≠ .none := by
  rintro rfl
  rw [bare] at inside
  exact absurd inside List.not_mem_nil

namespace Ledger

/-! ### The map -/

theorem lookup_filter_ne (entries : List (ReferenceId × Dependencies)) (id other : ReferenceId) :
    (entries.filter fun entry => decide (entry.1 ≠ id)).lookup other =
      if other = id then none else entries.lookup other := by
  induction entries with
  | nil => simp
  | cons entry entries ih =>
    rcases entry with ⟨key, value⟩
    by_cases dropped : key = id
    · rw [List.filter_cons_of_neg (by simp [dropped]), ih, dropped]
      by_cases same : other = id
      · rw [if_pos same, if_pos same]
      · rw [if_neg same, if_neg same, List.lookup_cons, beq_eq_false_iff_ne.mpr same]
    · rw [List.filter_cons_of_pos (by simp [dropped]), List.lookup_cons, List.lookup_cons, ih]
      by_cases same : other = id
      · subst same
        rw [if_pos rfl, if_pos rfl, beq_eq_false_iff_ne.mpr (Ne.symm dropped)]
      · rw [if_neg same, if_neg same]

/-- Recording changes the dependencies of one reference. -/
theorem dependencies_record (ledger : Ledger) (id : ReferenceId) (dependencies : Dependencies)
    (other : ReferenceId) : (ledger.record id dependencies).dependencies other =
      if other = id then dependencies else ledger.dependencies other := by
  unfold record Ledger.dependencies
  simp only
  rw [List.lookup_append, lookup_filter_ne]
  by_cases same : other = id
  · rw [if_pos same, if_pos same, Option.none_or]
    by_cases trivial : dependencies = .none
    · rw [if_pos trivial, trivial]
      rfl
    · rw [if_neg trivial, same, List.lookup_cons_self]
      rfl
  · rw [if_neg same, if_neg same]
    by_cases trivial : dependencies = .none
    · rw [if_pos trivial, List.lookup_nil, Option.or_none]
    · rw [if_neg trivial, List.lookup_cons, beq_eq_false_iff_ne.mpr same, List.lookup_nil,
        Option.or_none]

theorem dependencies_forget (ledger : Ledger) (id other : ReferenceId) :
    (ledger.forget id).dependencies other =
      if other = id then .none else ledger.dependencies other :=
  dependencies_record ledger id .none other

/-- Forgetting several references leaves the others as they are. -/
theorem dependencies_forgetAll (ids : List ReferenceId) : ∀ (ledger : Ledger)
    (other : ReferenceId), (ids.foldl forget ledger).dependencies other =
      if other ∈ ids then .none else ledger.dependencies other := by
  induction ids with
  | nil => intro ledger other; simp
  | cons id ids ih =>
    intro ledger other
    rw [List.foldl_cons, ih, dependencies_forget]
    by_cases later : other ∈ ids
    · rw [if_pos later, if_pos (List.mem_cons_of_mem _ later)]
    · rw [if_neg later]
      by_cases same : other = id
      · rw [if_pos same, if_pos (same ▸ List.mem_cons_self)]
      · rw [if_neg same, if_neg (by simp [same, later])]

theorem dependencies_dropNode (ledger : Ledger) (node : NodeId) (id : ReferenceId) :
    (ledger.dropNode node).dependencies id = (ledger.dependencies id).withoutNode node := by
  unfold dropNode Ledger.dependencies
  simp only
  induction ledger.entries with
  | nil => rfl
  | cons entry entries ih =>
    rw [List.map_cons, List.lookup_cons, List.lookup_cons]
    cases id == entry.1 with
    | true => rfl
    | false => exact ih

/-! ### The relations -/

/-- The relations hold the pairs that the dependencies of the references give. -/
structure Indexed (ledger : Ledger) : Prop where
  byTarget : ∀ {node id}, (node, id) ∈ ledger.byTarget ↔ node ∈ (ledger.dependencies id).targets
  byContext : ∀ {node id}, (node, id) ∈ ledger.byContext ↔ node ∈ (ledger.dependencies id).context
  byDangling : ∀ {symbol id},
    (symbol, id) ∈ ledger.byDangling ↔ symbol ∈ (ledger.dependencies id).dangling
  byLookup : ∀ {symbol id},
    (symbol, id) ∈ ledger.byLookup ↔ symbol ∈ (ledger.dependencies id).lookups

theorem indexed_empty : empty.Indexed :=
  ⟨iff_of_false List.not_mem_nil List.not_mem_nil, iff_of_false List.not_mem_nil List.not_mem_nil,
    iff_of_false List.not_mem_nil List.not_mem_nil, iff_of_false List.not_mem_nil List.not_mem_nil⟩

section Relations

variable {κ : Type} [DecidableEq κ]

theorem mem_withdraw {keys : List κ} {id other : ReferenceId} {key : κ} :
    ∀ {relation : Relation κ ReferenceId}, (key, other) ∈ withdraw keys id relation ↔
      (key, other) ∈ relation ∧ ¬(other = id ∧ key ∈ keys) := by
  unfold withdraw
  induction keys with
  | nil => intro relation; simp
  | cons first keys ih =>
    intro relation
    rw [List.foldl_cons, ih, OrderedSet.mem_erase, ne_eq, Prod.mk.injEq, and_assoc]
    refine and_congr_right fun _ => ?_
    rw [List.mem_cons]
    tauto

theorem mem_enter {keys : List κ} {id other : ReferenceId} {key : κ}
    {relation : Relation κ ReferenceId} : (key, other) ∈ enter keys id relation ↔
      (key, other) ∈ relation ∨ (other = id ∧ key ∈ keys) := by
  rw [enter, OrderedSet.mem_insertAll, List.mem_map]
  refine or_congr_right ?_
  constructor
  · rintro ⟨found, member, same⟩
    obtain ⟨rfl, rfl⟩ := Prod.mk.inj same
    exact ⟨rfl, member⟩
  · rintro ⟨rfl, member⟩
    exact ⟨key, member, rfl⟩

/-- A relation in which the keys of one reference are exchanged. -/
theorem mem_exchange {relation : Relation κ ReferenceId} {earlier later : OrderedSet κ}
    {id other : ReferenceId} {key : κ} (was : other = id → ((key, other) ∈ relation ↔ key ∈ earlier)) :
    (key, other) ∈ enter later.items id (withdraw earlier.items id relation) ↔
      if other = id then key ∈ later else (key, other) ∈ relation := by
  rw [mem_enter, mem_withdraw]
  by_cases same : other = id
  · rw [if_pos same, was same, OrderedSet.mem_iff, OrderedSet.mem_iff]
    tauto
  · rw [if_neg same]
    tauto

/-- The same when only the differences are exchanged. -/
theorem mem_exchangeDifference {relation : Relation κ ReferenceId} {earlier later : OrderedSet κ}
    {id other : ReferenceId} {key : κ} (was : other = id → ((key, other) ∈ relation ↔ key ∈ earlier)) :
    (key, other) ∈
        enter (later.missingIn earlier) id (withdraw (earlier.missingIn later) id relation) ↔
      if other = id then key ∈ later else (key, other) ∈ relation := by
  rw [mem_enter, mem_withdraw]
  simp only [OrderedSet.missingIn, List.mem_filter, Bool.not_eq_true', decide_eq_false_iff_not]
  by_cases same : other = id
  · rw [if_pos same, was same]
    simp only [OrderedSet.mem_iff, same, true_and]
    tauto
  · rw [if_neg same]
    tauto

end Relations

namespace Indexed

variable {ledger : Ledger}

/-- **Recording keeps the relations true.** -/
theorem record (indexed : ledger.Indexed) (id : ReferenceId) (dependencies : Dependencies) :
    (ledger.record id dependencies).Indexed := by
  refine ⟨?_, ?_, ?_, ?_⟩
  · intro node other
    rw [dependencies_record]
    refine (mem_exchangeDifference fun same => same ▸ indexed.byTarget).trans ?_
    split
    · rfl
    · exact indexed.byTarget
  · intro node other
    rw [dependencies_record]
    refine (mem_exchange fun same => same ▸ indexed.byContext).trans ?_
    split
    · rfl
    · exact indexed.byContext
  · intro symbol other
    rw [dependencies_record]
    refine (mem_exchange fun same => same ▸ indexed.byDangling).trans ?_
    split
    · rfl
    · exact indexed.byDangling
  · intro symbol other
    rw [dependencies_record]
    refine (mem_exchange fun same => same ▸ indexed.byLookup).trans ?_
    split
    · rfl
    · exact indexed.byLookup

theorem forgetAll (ids : List ReferenceId) : ∀ {ledger : Ledger}, ledger.Indexed →
    (ids.foldl forget ledger).Indexed := by
  induction ids with
  | nil => exact fun indexed => indexed
  | cons id ids ih => exact fun indexed => ih (indexed.record id .none)

theorem dropNode (indexed : ledger.Indexed) (node : NodeId) : (ledger.dropNode node).Indexed := by
  refine ⟨?_, ?_, ?_, ?_⟩
  · intro other id
    rw [dependencies_dropNode]
    show (other, id) ∈ ledger.byTarget.dropKey node ↔ other ∈ (ledger.dependencies id).targets.erase node
    rw [Relation.mem_dropKey, OrderedSet.mem_erase, indexed.byTarget]
  · intro other id
    rw [dependencies_dropNode]
    show (other, id) ∈ ledger.byContext.dropKey node ↔ other ∈ (ledger.dependencies id).context.erase node
    rw [Relation.mem_dropKey, OrderedSet.mem_erase, indexed.byContext]
  · intro symbol id
    rw [dependencies_dropNode]
    exact indexed.byDangling
  · intro symbol id
    rw [dependencies_dropNode]
    exact indexed.byLookup

end Indexed

/-! ### Sorted references -/

instance : Std.TransOrd ReferenceId :=
  inferInstanceAs (Std.TransCmp (compareLex (compareOn fun id : ReferenceId => id.owner.number)
    (compareOn ReferenceId.role)))

theorem before_total (first second : ReferenceId) :
    (first.before second || second.before first) = true := by
  unfold ReferenceId.before
  have swapped : compare second first = (compare first second).swap := Std.OrientedCmp.eq_swap
  rw [swapped]
  cases compare first second with
  | lt => rfl
  | eq => rfl
  | gt => rfl

theorem before_trans {first second third : ReferenceId} (lower : first.before second = true)
    (upper : second.before third = true) : first.before third = true :=
  Std.TransCmp.isLE_trans lower upper

theorem before_antisymm {first second : ReferenceId} (lower : first.before second = true)
    (upper : second.before first = true) : first = second := by
  obtain ⟨owners, roles⟩ := compareLex_eq_eq.mp (Std.OrientedCmp.isLE_antisymm lower upper)
  rcases first with ⟨⟨number⟩, role⟩
  rcases second with ⟨⟨other⟩, otherRole⟩
  obtain rfl : number = other := Nat.compare_eq_eq.mp owners
  obtain rfl : role = otherRole := Std.LawfulEqCmp.eq_of_compare roles
  rfl

theorem mem_sorted {ids : List ReferenceId} {id : ReferenceId} : id ∈ sorted ids ↔ id ∈ ids := by
  rw [sorted, mem_sortBy]
  exact OrderedSet.mem_ofList

theorem nodup_sorted (ids : List ReferenceId) : (sorted ids).Nodup :=
  (perm_sortBy _ _).nodup_iff.mpr (OrderedSet.ofList ids).nodup

/-- References sort by what they are alone: lists with the same members are sorted alike. -/
theorem sorted_congr {first second : List ReferenceId} (same : ∀ id, id ∈ first ↔ id ∈ second) :
    sorted first = sorted second := by
  have transitive : ∀ one other third : ReferenceId, one.before other = true →
      other.before third = true → one.before third = true :=
    fun _ _ _ => before_trans
  refine sortBy_congr transitive before_total (fun _ _ => before_antisymm) ?_
  refine (List.perm_ext_iff_of_nodup (OrderedSet.nodup _) (OrderedSet.nodup _)).mpr fun id => ?_
  exact OrderedSet.mem_ofList.trans ((same id).trans OrderedSet.mem_ofList.symm)

/-! ### Questions -/

section Questions

variable {ledger : Ledger} (indexed : ledger.Indexed)

include indexed

theorem mem_referencers {node : NodeId} {id : ReferenceId} :
    id ∈ ledger.referencers node ↔ node ∈ (ledger.dependencies id).targets := by
  rw [referencers, mem_sorted, Relation.mem_image, indexed.byTarget]

theorem mem_contextDependents {node : NodeId} {id : ReferenceId} :
    id ∈ ledger.contextDependents node ↔ node ∈ (ledger.dependencies id).context := by
  rw [contextDependents, mem_sorted, Relation.mem_image, indexed.byContext]

theorem mem_waitingOn {symbol : Symbol} {id : ReferenceId} :
    id ∈ ledger.waitingOn symbol ↔ symbol ∈ (ledger.dependencies id).dangling := by
  rw [waitingOn, mem_sorted, Relation.mem_image, indexed.byDangling]

theorem mem_lookupDependents {symbol : Symbol} {id : ReferenceId} :
    id ∈ ledger.lookupDependents symbol ↔ symbol ∈ (ledger.dependencies id).lookups := by
  rw [lookupDependents, mem_sorted, Relation.mem_image, indexed.byLookup]

theorem mem_dependents {node : NodeId} {id : ReferenceId} : id ∈ ledger.dependents node ↔
    node ∈ (ledger.dependencies id).targets ∨ node ∈ (ledger.dependencies id).context := by
  rw [dependents, mem_sorted, List.mem_append, Relation.mem_image, Relation.mem_image,
    indexed.byTarget, indexed.byContext]

end Questions

section Alike

variable {first second : Ledger} (indexed : first.Indexed) (twin : second.Indexed)
  (same : ∀ id, second.dependencies id = first.dependencies id)

include indexed twin same

theorem referencers_congr (node : NodeId) : second.referencers node = first.referencers node := by
  refine sorted_congr fun id => ?_
  rw [Relation.mem_image, Relation.mem_image, twin.byTarget, indexed.byTarget, same]

theorem contextDependents_congr (node : NodeId) :
    second.contextDependents node = first.contextDependents node := by
  refine sorted_congr fun id => ?_
  rw [Relation.mem_image, Relation.mem_image, twin.byContext, indexed.byContext, same]

theorem waitingOn_congr (symbol : Symbol) : second.waitingOn symbol = first.waitingOn symbol := by
  refine sorted_congr fun id => ?_
  rw [Relation.mem_image, Relation.mem_image, twin.byDangling, indexed.byDangling, same]

theorem lookupDependents_congr (symbol : Symbol) :
    second.lookupDependents symbol = first.lookupDependents symbol := by
  refine sorted_congr fun id => ?_
  rw [Relation.mem_image, Relation.mem_image, twin.byLookup, indexed.byLookup, same]

end Alike

end Ledger

end EntityModel
