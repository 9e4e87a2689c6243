/-
**Sorting by a given order.**

* `insertBy`, `sortBy` — a list sorted by inserting one item after the other; items of which either
  may stand first keep their order.
* `perm_sortBy`, `mem_sortBy` — nothing is lost or added.
* `pairwise_sortBy` — the result is sorted when the order is total and transitive; `sortBy_congr` —
  it depends on the items alone when no two of them may stand either way round.
-/

namespace EntityModel

variable {α : Type}

/-- The list with the item in front of the first one that it may stand before. -/
def insertBy (before : α → α → Bool) (item : α) : List α → List α
  | [] => [item]
  | first :: rest =>
    if before item first then item :: first :: rest else first :: insertBy before item rest

/-- The items in order. -/
def sortBy (before : α → α → Bool) : List α → List α
  | [] => []
  | first :: rest => insertBy before first (sortBy before rest)

theorem perm_insertBy (before : α → α → Bool) (item : α) (items : List α) :
    (insertBy before item items).Perm (item :: items) := by
  induction items with
  | nil => exact .refl _
  | cons first rest ih =>
    unfold insertBy
    split
    · exact .refl _
    · exact (ih.cons first).trans (.swap item first rest)

theorem perm_sortBy (before : α → α → Bool) (items : List α) :
    (sortBy before items).Perm items := by
  induction items with
  | nil => exact .refl _
  | cons first rest ih => exact (perm_insertBy before first _).trans (ih.cons first)

theorem mem_sortBy {before : α → α → Bool} {items : List α} {item : α} :
    item ∈ sortBy before items ↔ item ∈ items :=
  (perm_sortBy before items).mem_iff

section Sorted

variable {before : α → α → Bool}
  (transitive : ∀ first second third, before first second = true → before second third = true →
    before first third = true)
  (total : ∀ first second, (before first second || before second first) = true)

include transitive total

theorem pairwise_insertBy (item : α) {items : List α}
    (sorted : items.Pairwise fun first second => before first second = true) :
    (insertBy before item items).Pairwise fun first second => before first second = true := by
  induction items with
  | nil => exact List.pairwise_singleton _ _
  | cons first rest ih =>
    obtain ⟨lower, ordered⟩ := List.pairwise_cons.mp sorted
    unfold insertBy
    split
    · rename_i front
      refine List.pairwise_cons.mpr ⟨fun other member => ?_, sorted⟩
      rcases List.mem_cons.mp member with rfl | later
      · exact front
      · exact transitive _ _ _ front (lower other later)
    · rename_i behind
      refine List.pairwise_cons.mpr ⟨fun other member => ?_, ih ordered⟩
      rcases List.mem_cons.mp ((perm_insertBy before item rest).mem_iff.mp member) with rfl | later
      · have either := total other first
        rw [Bool.eq_false_iff.mpr behind] at either
        exact either
      · exact lower other later

theorem pairwise_sortBy (items : List α) :
    (sortBy before items).Pairwise fun first second => before first second = true := by
  induction items with
  | nil => exact List.Pairwise.nil
  | cons first rest ih => exact pairwise_insertBy transitive total first ih

theorem sortBy_congr
    (antisymmetric : ∀ first second, before first second = true → before second first = true →
      first = second)
    {items others : List α} (same : items.Perm others) :
    sortBy before items = sortBy before others :=
  List.Perm.eq_of_pairwise (fun first second _ _ => antisymmetric first second)
    (pairwise_sortBy transitive total items) (pairwise_sortBy transitive total others)
    ((perm_sortBy before items).trans (same.trans (perm_sortBy before others).symm))

end Sorted

end EntityModel
