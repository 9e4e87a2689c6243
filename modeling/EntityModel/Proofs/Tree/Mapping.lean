import EntityModel.Proofs.Tree.Lines
import EntityModel.Proofs.Tree.Numbering

/-
**Trees with other labels.**

Changing the labels of a tree changes neither its shape nor its paths.

* `map_congr` — functions that agree on the labels of a tree give the same tree.
* `spots_map` — the places of the changed tree, path by path.
* `map_insertAt`, `insertAt_map` — a changed tree takes a changed child where the tree takes the
  child.
-/

namespace EntityModel

namespace Tree

variable {α β : Type}

theorem label_map (f : α → β) (tree : Tree α) : (tree.map f).label = f tree.label := by
  rcases tree with ⟨label, children⟩
  rw [map_node]
  rfl

theorem map_congr {f g : α → β} (tree : Tree α) :
    (∀ label ∈ tree.labels, f label = g label) → tree.map f = tree.map g := by
  induction tree using induct with
  | step label children ih =>
    intro same
    rw [map_node, map_node, same label (labels_node label children ▸ List.mem_cons_self)]
    congr 1
    exact List.map_congr_left fun child member => ih child member fun below inside =>
      same below (@mem_labels_of_child _ (.node label children) child member below inside)

theorem map_id (tree : Tree α) : tree.map id = tree := by
  induction tree using induct with
  | step label children ih =>
    rw [map_node]
    congr 1
    conv_rhs => rw [← List.map_id children]
    exact List.map_congr_left ih

/-! ### Places -/

/-- The place with other labels. -/
def Spot.map (f : α → β) (spot : Spot α) : Spot β :=
  ⟨spot.above.map f, spot.path, spot.tree.map f⟩

theorem spotsFrom_map (f : α → β) (tree : Tree α) : ∀ (above : List α) (path : List Nat),
    spotsFrom (above.map f) path (tree.map f) = (spotsFrom above path tree).map (Spot.map f) := by
  induction tree using induct with
  | step label children ih =>
    intro above path
    have siblings : ∀ (trees : List (Tree α)) (position : Nat),
        (∀ child ∈ trees, child ∈ children) →
        spotsFromAll ((label :: above).map f) path position (trees.map (Tree.map f)) =
          (spotsFromAll (label :: above) path position trees).map (Spot.map f) := by
      intro trees
      induction trees with
      | nil => intro position _; rfl
      | cons tree trees later =>
        intro position each
        show spotsFromAll ((label :: above).map f) path position
          (tree.map f :: trees.map (Tree.map f)) = _
        rw [spotsFromAll, ih tree (each tree List.mem_cons_self),
          later (position + 1) fun child member => each child (List.mem_cons_of_mem _ member),
          spotsFromAll, List.map_append]
    rw [map_node, spotsFrom, ← List.map_cons, siblings children 0 fun _ member => member, spotsFrom,
      List.map_cons, Spot.map, map_node]

theorem spots_map (f : α → β) (tree : Tree α) :
    (tree.map f).spots = tree.spots.map (Spot.map f) :=
  spotsFrom_map f tree [] []

/-! ### Adding a child -/

theorem insertInto_map (f : α → β) (index : Option Nat) (item : α) (items : List α) :
    (insertInto index item items).map f = insertInto index (f item) (items.map f) := by
  unfold insertInto
  simp only [List.map_append, List.map_cons, List.map_take, List.map_drop, List.length_map]

theorem filter_insertInto_of_neg {keeps : α → Bool} {item : α} (dropped : keeps item = false)
    (index : Option Nat) (items : List α) :
    (insertInto index item items).filter keeps = items.filter keeps := by
  unfold insertInto
  rw [List.filter_append, List.filter_cons_of_neg (by rw [dropped]; decide), ← List.filter_append,
    List.take_append_drop]

/-- The tree with the child in it, changed, as one fold. -/
theorem map_insertAt (f : α → β) (parents : α → Bool) (index : Option Nat) (child tree : Tree α) :
    (insertAt parents index child tree).map f = tree.fold fun label below =>
      .node (f label) (if parents label then insertInto index (child.map f) below else below) := by
  induction tree using induct with
  | step label children ih =>
    have below : (children.map (insertAt parents index child)).map (Tree.map f) =
        children.map (fold fun label below =>
          .node (f label) (if parents label then insertInto index (child.map f) below else below)) := by
      rw [List.map_map]
      exact List.map_congr_left ih
    rw [insertAt_node, map_node, fold_node, ← below]
    cases parents label with
    | false => rfl
    | true => rw [if_pos rfl, if_pos rfl, insertInto_map]

/-- The child is added below the same labels, before and after they are changed. -/
theorem insertAt_map {f : α → β} {parents : α → Bool} {others : β → Bool}
    (same : ∀ label, others (f label) = parents label) (index : Option Nat) (child tree : Tree α) :
    (insertAt parents index child tree).map f =
      insertAt others index (child.map f) (tree.map f) := by
  induction tree using induct with
  | step label children ih =>
    have below : (children.map (insertAt parents index child)).map (Tree.map f) =
        (children.map (Tree.map f)).map (insertAt others index (child.map f)) := by
      rw [List.map_map, List.map_map]
      exact List.map_congr_left ih
    rw [insertAt_node, map_node, map_node, insertAt_node, same, ← below]
    cases parents label with
    | false => rfl
    | true =>
      rw [if_pos rfl, if_pos rfl, insertInto_map]

end Tree

end EntityModel
