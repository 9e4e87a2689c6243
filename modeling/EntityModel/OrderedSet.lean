/-
**Sets that remember the order of insertion, and relations between two types.**

* `OrderedSet` — a list without repeats. Inserting a member again changes nothing (`mem_insert`,
  `mem_erase` say what an operation does to membership), so the first insertion decides the place.
* `Relation` — a set of pairs: an index from keys to values that can be read from both sides.
  `image` is what a key is related to; `mem_image` ties it to the pairs.
-/

namespace EntityModel

/-- A list without repeats. -/
structure OrderedSet (α : Type) where
  items : List α
  nodup : items.Nodup

namespace OrderedSet

variable {α : Type}

/-- Members are those of the list. -/
instance : Membership α (OrderedSet α) where
  mem set item := item ∈ set.items

theorem mem_iff {set : OrderedSet α} {item : α} : item ∈ set ↔ item ∈ set.items :=
  Iff.rfl

theorem ext_items {first second : OrderedSet α} (same : first.items = second.items) :
    first = second := by
  cases first
  cases second
  cases same
  rfl

/-- The set without members. -/
def empty : OrderedSet α := ⟨[], List.nodup_nil⟩

instance : Inhabited (OrderedSet α) := ⟨empty⟩

variable [DecidableEq α]

instance (item : α) (set : OrderedSet α) : Decidable (item ∈ set) :=
  inferInstanceAs (Decidable (item ∈ set.items))

instance : DecidableEq (OrderedSet α) := fun first second =>
  decidable_of_iff (first.items = second.items)
    ⟨ext_items, fun same => same ▸ rfl⟩

/-- The set with the item, at the end if it is new. -/
def insert (set : OrderedSet α) (item : α) : OrderedSet α :=
  if present : item ∈ set.items then set
  else
    { items := set.items ++ [item]
      nodup := by
        rw [List.nodup_append]
        refine ⟨set.nodup, by simp, ?_⟩
        intro first firstMem second secondMem same
        obtain rfl : second = item := by simpa using secondMem
        exact present (same ▸ firstMem) }

/-- The set with all the items, one after the other. -/
def insertAll (set : OrderedSet α) (items : List α) : OrderedSet α :=
  items.foldl insert set

/-- The items, each at its first place. -/
def ofList (items : List α) : OrderedSet α :=
  empty.insertAll items

/-- The set without the item. -/
def erase (set : OrderedSet α) (item : α) : OrderedSet α where
  items := set.items.filter fun member => member ≠ item
  nodup := set.nodup.sublist List.filter_sublist

/-- The members of the set that the other one lacks, in order. -/
def missingIn (set other : OrderedSet α) : List α :=
  set.items.filter fun member => !decide (member ∈ other)

theorem mem_insert {set : OrderedSet α} {added item : α} :
    item ∈ set.insert added ↔ item ∈ set ∨ item = added := by
  unfold insert
  split
  · rename_i present
    exact ⟨Or.inl, fun either => either.elim id fun same => same ▸ present⟩
  · simp [mem_iff]

theorem mem_insertAll {items : List α} : ∀ {set : OrderedSet α} {item : α},
    item ∈ set.insertAll items ↔ item ∈ set ∨ item ∈ items := by
  induction items with
  | nil => simp [insertAll]
  | cons added rest ih =>
    intro set item
    rw [insertAll, List.foldl_cons, ← insertAll, ih, mem_insert, List.mem_cons, or_assoc]

theorem mem_ofList {items : List α} {item : α} : item ∈ ofList items ↔ item ∈ items := by
  rw [ofList, mem_insertAll]
  simp [mem_iff, empty]

theorem mem_erase {set : OrderedSet α} {erased item : α} :
    item ∈ set.erase erased ↔ item ∈ set ∧ item ≠ erased := by
  simp [mem_iff, erase]

end OrderedSet

/-! ### Relations -/

/-- A set of pairs of a key and a value. -/
abbrev Relation (κ β : Type) := OrderedSet (κ × β)

namespace Relation

variable {κ β : Type} [DecidableEq κ]

/-- The values that the key is related to, in the order of insertion. -/
def image (relation : Relation κ β) (key : κ) : List β :=
  (relation.items.filter fun pair => pair.1 = key).map Prod.snd

/-- The relation without the pairs of the key. -/
def dropKey (relation : Relation κ β) (key : κ) : Relation κ β where
  items := relation.items.filter fun pair => pair.1 ≠ key
  nodup := relation.nodup.sublist List.filter_sublist

/-- The keys of the pairs, each once. -/
def keys (relation : Relation κ β) : OrderedSet κ :=
  .ofList (relation.items.map Prod.fst)

theorem mem_image {relation : Relation κ β} {key : κ} {value : β} :
    value ∈ relation.image key ↔ (key, value) ∈ relation := by
  constructor
  · intro member
    obtain ⟨pair, pairMem, rfl⟩ := List.mem_map.mp member
    obtain ⟨inside, same⟩ := List.mem_filter.mp pairMem
    obtain rfl : pair.1 = key := by simpa using same
    exact inside
  · intro member
    exact List.mem_map.mpr ⟨(key, value), List.mem_filter.mpr ⟨member, by simp⟩, rfl⟩

theorem nodup_image (relation : Relation κ β) (key : κ) : (relation.image key).Nodup := by
  refine List.pairwise_map.mpr
    (List.Pairwise.imp_of_mem ?_ (relation.nodup.sublist List.filter_sublist))
  intro first second firstMem secondMem different same
  have firstKey := (List.mem_filter.mp firstMem).2
  have secondKey := (List.mem_filter.mp secondMem).2
  simp only [decide_eq_true_eq] at firstKey secondKey
  exact different (Prod.ext (firstKey.trans secondKey.symm) same)

theorem mem_dropKey {relation : Relation κ β} {dropped key : κ} {value : β} :
    (key, value) ∈ relation.dropKey dropped ↔ (key, value) ∈ relation ∧ key ≠ dropped := by
  simp [OrderedSet.mem_iff, dropKey]

theorem mem_keys {relation : Relation κ β} {key : κ} :
    key ∈ relation.keys ↔ ∃ value, (key, value) ∈ relation := by
  rw [keys, OrderedSet.mem_ofList]
  constructor
  · intro member
    obtain ⟨pair, pairMem, rfl⟩ := List.mem_map.mp member
    exact ⟨pair.2, pairMem⟩
  · rintro ⟨value, member⟩
    exact List.mem_map.mpr ⟨(key, value), member, rfl⟩

end Relation

end EntityModel
