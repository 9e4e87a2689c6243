/-
**Trees with any number of children.**

Documents come in as trees of elements and are kept as trees of nodes; both are `Tree`s.

* `fold` — the one recursion: a label and the results for the children give the result for the
  tree. `size`, `labels`, `map`, `insertAt` and `prune` below are folds.
* `spots` — every place of a tree with the labels above it and its path of child positions, in
  document order; `map_label_spots` says that this is the order of `labels`.
* `number` — consecutive numbers in document order.
* `insertAt`, `prune` — a child added under some labels, the subtrees at some labels left out.
-/

namespace EntityModel

/-- A label over an ordered list of trees. -/
inductive Tree (α : Type) where
  | node (label : α) (children : List (Tree α))

namespace Tree

variable {α β : Type}

/-- The label at the top. -/
def label : Tree α → α
  | .node label _ => label

/-- The trees below the label, in order. -/
def children : Tree α → List (Tree α)
  | .node _ children => children

/-! ### The fold -/

mutual

/-- The result for a tree from its label and the results for its children. -/
def fold (combine : α → List β → β) : Tree α → β
  | .node label children => combine label (foldAll combine children)

/-- The results for several trees. -/
def foldAll (combine : α → List β → β) : List (Tree α) → List β
  | [] => []
  | tree :: trees => fold combine tree :: foldAll combine trees

end

theorem foldAll_eq_map (combine : α → List β → β) (trees : List (Tree α)) :
    foldAll combine trees = trees.map (fold combine) := by
  induction trees with
  | nil => rfl
  | cons tree trees ih => simp [foldAll, ih]

theorem fold_node (combine : α → List β → β) (label : α) (children : List (Tree α)) :
    fold combine (.node label children) = combine label (children.map (fold combine)) := by
  rw [fold, foldAll_eq_map]

/-- What holds of a tree whenever it holds of its children holds of every tree. -/
theorem induct {motive : Tree α → Prop}
    (step : ∀ label children, (∀ child ∈ children, motive child) → motive (.node label children)) :
    ∀ tree, motive tree := by
  refine Tree.rec (motive_1 := motive) (motive_2 := fun trees => ∀ child ∈ trees, motive child)
    step ?_ ?_
  · intro child member
    exact absurd member List.not_mem_nil
  · intro tree trees first others child member
    rcases List.mem_cons.mp member with rfl | later
    · exact first
    · exact others child later

/-- The number of labels. -/
def size : Tree α → Nat :=
  fold fun _ sizes => sizes.foldr (· + ·) 1

/-- The labels in document order: a label before those below it. -/
def labels : Tree α → List α :=
  fold fun label below => label :: below.flatten

/-- The tree of the same shape with other labels. -/
def map (f : α → β) : Tree α → Tree β :=
  fold fun label children => .node (f label) children

theorem size_node (label : α) (children : List (Tree α)) :
    (Tree.node label children).size = (children.map size).foldr (· + ·) 1 := by
  rw [size, fold_node]

theorem labels_node (label : α) (children : List (Tree α)) :
    (Tree.node label children).labels = label :: (children.map labels).flatten := by
  rw [labels, fold_node]

theorem map_node (f : α → β) (label : α) (children : List (Tree α)) :
    (Tree.node label children).map f = .node (f label) (children.map (map f)) := by
  rw [map, fold_node]

theorem length_labels (tree : Tree α) : tree.labels.length = tree.size := by
  induction tree using induct with
  | step label children ih =>
    rw [labels_node, size_node, List.length_cons]
    induction children with
    | nil => rfl
    | cons first others onOthers =>
      have here := ih first List.mem_cons_self
      have there := onOthers fun child member => ih child (List.mem_cons_of_mem first member)
      rw [List.map_cons, List.map_cons, List.flatten_cons, List.foldr_cons, List.length_append,
        ← there, here, Nat.add_assoc]

theorem labels_map (f : α → β) (tree : Tree α) : (tree.map f).labels = tree.labels.map f := by
  induction tree using induct with
  | step label children ih =>
    rw [map_node, labels_node, labels_node, List.map_cons, List.map_flatten, List.map_map,
      List.map_map]
    congr 2
    exact List.map_congr_left fun child member => ih child member

/-! ### Places -/

/-- A place in a tree: the labels above it, the nearest first, the child positions that lead to it
from the top, and what stands there. -/
structure Spot (α : Type) where
  above : List α
  path : List Nat
  tree : Tree α

/-- The label at the place. -/
def Spot.label (spot : Spot α) : α := spot.tree.label

mutual

/-- The places of a tree that stands below the labels `above` at `path`. -/
def spotsFrom (above : List α) (path : List Nat) : Tree α → List (Spot α)
  | .node label children =>
    ⟨above, path, .node label children⟩ :: spotsFromAll (label :: above) path 0 children

/-- The places of sibling trees, the first of them at child position `position`. -/
def spotsFromAll (above : List α) (path : List Nat) (position : Nat) :
    List (Tree α) → List (Spot α)
  | [] => []
  | tree :: trees =>
    spotsFrom above (path ++ [position]) tree ++ spotsFromAll above path (position + 1) trees

end

/-- Every place of a tree, in document order. -/
def spots (tree : Tree α) : List (Spot α) :=
  spotsFrom [] [] tree

/-- The places of siblings are those of each of them, its position at the end of the path. -/
theorem mem_spotsFromAll {above : List α} {path : List Nat} {spot : Spot α} :
    ∀ {trees : List (Tree α)} {position : Nat}, spot ∈ spotsFromAll above path position trees ↔
      ∃ index child, trees[index]? = some child ∧
        spot ∈ spotsFrom above (path ++ [position + index]) child := by
  intro trees
  induction trees with
  | nil => intro position; simp [spotsFromAll]
  | cons tree trees later =>
    intro position
    rw [spotsFromAll, List.mem_append, later]
    constructor
    · rintro (here | ⟨index, child, listed, inside⟩)
      · exact ⟨0, tree, rfl, here⟩
      · refine ⟨index + 1, child, listed, ?_⟩
        rwa [← Nat.add_assoc, Nat.add_right_comm]
    · rintro ⟨index, child, listed, inside⟩
      cases index with
      | zero =>
        obtain rfl := Option.some.inj listed
        exact Or.inl inside
      | succ index =>
        refine Or.inr ⟨index, child, listed, ?_⟩
        rwa [Nat.add_right_comm, Nat.add_assoc]

/-- What is read off the places of siblings is what is read off each of them. -/
theorem map_spotsFromAll {read : Spot α → β} {result : Tree α → List β} {above : List α}
    {path : List Nat} {trees : List (Tree α)}
    (each : ∀ child ∈ trees, ∀ path, (spotsFrom above path child).map read = result child)
    (position : Nat) :
    (spotsFromAll above path position trees).map read = trees.flatMap result := by
  induction trees generalizing position with
  | nil => rfl
  | cons tree trees later =>
    rw [spotsFromAll, List.map_append, each tree List.mem_cons_self,
      later (fun child member => each child (List.mem_cons_of_mem _ member)), List.flatMap_cons]

theorem map_label_spotsFrom (tree : Tree α) : ∀ (above : List α) (path : List Nat),
    (spotsFrom above path tree).map Spot.label = tree.labels := by
  induction tree using induct with
  | step label children ih =>
    intro above path
    rw [spotsFrom, List.map_cons, map_spotsFromAll fun child member => ih child member _,
      labels_node, List.flatMap_def]
    rfl

theorem map_label_spots (tree : Tree α) : tree.spots.map Spot.label = tree.labels :=
  map_label_spotsFrom tree [] []

/-! ### Numbers in document order -/

mutual

/-- The tree with its labels numbered in document order from `next` on, and the number after the
last. -/
def numberFrom (next : Nat) : Tree α → Tree (Nat × α) × Nat
  | .node label children =>
    let below := numberFromAll (next + 1) children
    (.node (next, label) below.1, below.2)

/-- Sibling trees numbered one after the other. -/
def numberFromAll (next : Nat) : List (Tree α) → List (Tree (Nat × α)) × Nat
  | [] => ([], next)
  | tree :: trees =>
    let first := numberFrom next tree
    let others := numberFromAll first.2 trees
    (first.1 :: others.1, others.2)

end

/-- The tree with its labels numbered in document order from `next` on. -/
def number (next : Nat) (tree : Tree α) : Tree (Nat × α) :=
  (numberFrom next tree).1

/-! ### Adding and leaving out -/

/-- The list with the item at the given index, at the end when the index is missing or past it. -/
def insertInto (index : Option Nat) (item : β) (items : List β) : List β :=
  let place := min (index.getD items.length) items.length
  items.take place ++ item :: items.drop place

/-- The tree with `child` added to the children of every label that `parents` holds of. -/
def insertAt (parents : α → Bool) (index : Option Nat) (child : Tree α) : Tree α → Tree α :=
  fold fun label children =>
    .node label (if parents label then insertInto index child children else children)

/-- The tree without the subtrees whose label `drops` holds of; nothing when that is its own. -/
def prune (drops : α → Bool) : Tree α → Option (Tree α) :=
  fold fun label children =>
    if drops label then none else some (.node label (children.filterMap id))

end Tree

end EntityModel
