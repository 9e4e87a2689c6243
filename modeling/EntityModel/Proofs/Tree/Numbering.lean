import Mathlib.Data.List.Basic
import EntityModel.Proofs.Tree.Lines

/-
**Numbers in document order.**

* `numberFrom_snd` — as many numbers are given out as there are labels.
* `fst_labels_number`, `map_snd_number` — the numbers are consecutive, the labels stay.
* `number_map_of_labels` — numbering is the only way to give out consecutive numbers: a tree whose
  labels carry them already is the numbering of its labels.
-/

namespace EntityModel

namespace Tree

variable {α β : Type}

/-- The number of labels of several trees. -/
def sizeAll (trees : List (Tree α)) : Nat :=
  (trees.map size).foldr (· + ·) 0

theorem size_node_eq (label : α) (children : List (Tree α)) :
    (Tree.node label children).size = sizeAll children + 1 := by
  rw [size_node, sizeAll]
  induction children with
  | nil => rfl
  | cons first others ih =>
    rw [List.map_cons, List.foldr_cons, ih, List.foldr_cons, Nat.add_assoc]

theorem sizeAll_cons (tree : Tree α) (trees : List (Tree α)) :
    sizeAll (tree :: trees) = tree.size + sizeAll trees := by
  unfold sizeAll
  rw [List.map_cons, List.foldr_cons]

theorem sizeAll_append (trees others : List (Tree α)) :
    sizeAll (trees ++ others) = sizeAll trees + sizeAll others := by
  unfold sizeAll
  induction trees with
  | nil => exact (Nat.zero_add _).symm
  | cons first trees ih =>
    rw [List.cons_append, List.map_cons, List.foldr_cons, ih, List.map_cons, List.foldr_cons,
      Nat.add_assoc]

theorem numberFromAll_snd {trees : List (Tree α)}
    (each : ∀ tree ∈ trees, ∀ next, (numberFrom next tree).2 = next + tree.size) :
    ∀ next, (numberFromAll next trees).2 = next + sizeAll trees := by
  induction trees with
  | nil => exact fun next => rfl
  | cons first others ih =>
    intro next
    rw [numberFromAll]
    simp only
    rw [ih fun tree member => each tree (List.mem_cons_of_mem _ member),
      each first List.mem_cons_self, sizeAll, sizeAll, List.map_cons, List.foldr_cons, Nat.add_assoc]

theorem numberFrom_snd (tree : Tree α) : ∀ next, (numberFrom next tree).2 = next + tree.size := by
  induction tree using induct with
  | step label children ih =>
    intro next
    rw [numberFrom]
    simp only
    rw [numberFromAll_snd ih, size_node_eq, Nat.add_assoc, Nat.add_comm 1]

theorem fst_labels_numberFromAll {trees : List (Tree α)}
    (each : ∀ tree ∈ trees, ∀ next,
      (numberFrom next tree).1.labels.map Prod.fst = List.range' next tree.size) :
    ∀ next, ((numberFromAll next trees).1.flatMap labels).map Prod.fst =
      List.range' next (sizeAll trees) := by
  induction trees with
  | nil => exact fun next => rfl
  | cons first others ih =>
    intro next
    rw [numberFromAll]
    simp only
    rw [List.flatMap_cons, List.map_append, each first List.mem_cons_self,
      ih fun tree member => each tree (List.mem_cons_of_mem _ member), numberFrom_snd, sizeAll,
      sizeAll, List.map_cons, List.foldr_cons, List.range'_append_1]

/-- The numbers are consecutive, in document order. -/
theorem fst_labels_number (next : Nat) (tree : Tree α) :
    (tree.number next).labels.map Prod.fst = List.range' next tree.size := by
  unfold number
  induction tree using induct generalizing next with
  | step label children ih =>
    rw [numberFrom]
    simp only
    rw [labels_node, ← List.flatMap_def, List.map_cons,
      fst_labels_numberFromAll fun tree member next => ih tree member next, size_node_eq,
      List.range'_succ]

/-- The labels stay. -/
theorem map_snd_number (next : Nat) (tree : Tree α) : (tree.number next).map Prod.snd = tree := by
  unfold number
  induction tree using induct generalizing next with
  | step label children ih =>
    rw [numberFrom]
    simp only
    rw [map_node]
    congr 1
    generalize next + 1 = start
    induction children generalizing start with
    | nil => rfl
    | cons first others later =>
      rw [numberFromAll]
      simp only
      rw [List.map_cons, ih first List.mem_cons_self,
        later fun child member => ih child (List.mem_cons_of_mem _ member)]

theorem map_map {γ : Type} (f : α → β) (g : β → γ) (tree : Tree α) :
    (tree.map f).map g = tree.map (g ∘ f) := by
  induction tree using induct with
  | step label children ih =>
    rw [map_node, map_node, map_node, List.map_map]
    congr 1
    exact List.map_congr_left ih

/-- A tree whose labels carry consecutive numbers in document order is a numbering. -/
theorem number_map_of_labels {f : α → Nat} {g : α → β} (tree : Tree α) : ∀ {next : Nat},
    tree.labels.map f = List.range' next tree.size →
      (tree.map g).number next = tree.map fun label => (f label, g label) := by
  unfold number
  induction tree using induct with
  | step label children ih =>
    intro next consecutive
    rw [labels_node, size_node_eq, List.map_cons, List.range'_succ] at consecutive
    obtain ⟨own, below⟩ := List.cons.inj consecutive
    rw [map_node, map_node, numberFrom]
    simp only
    rw [own]
    congr 1
    clear own consecutive
    rw [← List.flatMap_def] at below
    generalize next + 1 = start at below
    induction children generalizing start with
    | nil => rfl
    | cons first others later =>
      rw [List.flatMap_cons, List.map_append, sizeAll, List.map_cons, List.foldr_cons,
        ← List.range'_append_1] at below
      have lengths : (first.labels.map f).length = (List.range' start first.size).length := by
        rw [List.length_map, length_labels, List.length_range']
      obtain ⟨here, there⟩ := List.append_inj below lengths
      have sizes : (first.map g).size = first.size := by
        rw [← length_labels, labels_map, List.length_map, length_labels]
      rw [List.map_cons, List.map_cons, numberFromAll]
      simp only
      rw [ih first List.mem_cons_self here, numberFrom_snd, sizes,
        later (fun child member => ih child (List.mem_cons_of_mem _ member)) _ there]

end Tree

end EntityModel
