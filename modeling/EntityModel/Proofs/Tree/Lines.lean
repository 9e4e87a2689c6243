import Mathlib.Data.List.Basic
import Mathlib.Data.List.Flatten
import Mathlib.Data.List.Perm.Basic
import EntityModel.Tree

/-
**Trees as lists of lines.**

A line is a label with the labels above it. What the changes of a tree do is said on its list of
lines, so that no later proof has to go through a tree again.

* `lines` — the lines of a tree in document order; `map_line_spots` ties it to the places.
* `lines_map`, `lines_prune` — a change of the labels maps the lines, leaving subtrees out filters
  them.
* `lines_insertAt_perm`, `lines_sublist_insertAt` — adding a child keeps all lines and their order,
  and adds those of the child below each of its new parents.
* `labels_spot` — the labels at and below a place are those of the lines through it.
* `forall_lines_child` — what holds along the lines of a tree holds along those of its children.
-/

namespace EntityModel

namespace Tree

variable {α β : Type}

/-- A label of a tree with the labels above it, the nearest first. -/
structure Line (α : Type) where
  above : List α
  label : α

namespace Line

/-- The label and those above it. -/
def whole (line : Line α) : List α :=
  line.label :: line.above

/-- The line with other labels. -/
def map (f : α → β) (line : Line α) : Line β :=
  ⟨line.above.map f, f line.label⟩

/-- The line of the same label when the tree stands below further labels. -/
def below (upper : List α) (line : Line α) : Line α :=
  ⟨line.above ++ upper, line.label⟩

theorem below_nil (line : Line α) : line.below [] = line := by
  rw [below, List.append_nil]

theorem below_below (lower upper : List α) (line : Line α) :
    (line.below lower).below upper = line.below (lower ++ upper) := by
  rw [below, below, below, List.append_assoc]

theorem map_below (f : α → β) (upper : List α) (line : Line α) :
    (line.below upper).map f = (line.map f).below (upper.map f) := by
  simp only [map, below, List.map_append]

theorem whole_below (upper : List α) (line : Line α) :
    (line.below upper).whole = line.whole ++ upper := rfl

end Line

/-- The lines of a tree, in document order. -/
def lines : Tree α → List (Line α) :=
  fold fun label below => ⟨[], label⟩ :: below.flatten.map (Line.below [label])

theorem lines_node (label : α) (children : List (Tree α)) :
    (Tree.node label children).lines =
      ⟨[], label⟩ :: (children.flatMap lines).map (Line.below [label]) := by
  rw [lines, fold_node, List.flatMap]

theorem map_label_lines (tree : Tree α) : tree.lines.map Line.label = tree.labels := by
  induction tree using induct with
  | step label children ih =>
    rw [lines_node, labels_node, List.map_cons, List.map_map]
    congr 1
    show (children.flatMap lines).map Line.label = _
    rw [List.map_flatMap, List.flatMap]
    congr 1
    exact List.map_congr_left ih

/-- The line through the top comes first. -/
theorem lines_eq_cons (tree : Tree α) : ∃ rest, tree.lines = ⟨[], tree.label⟩ :: rest := by
  cases tree with
  | node label children => exact ⟨_, lines_node label children⟩

theorem label_mem_whole {tree : Tree α} {line : Line α} (member : line ∈ tree.lines) :
    tree.label ∈ line.whole := by
  cases tree with
  | node label children =>
    rw [lines_node] at member
    rcases List.mem_cons.mp member with rfl | below
    · exact List.mem_cons_self
    · obtain ⟨inner, _, rfl⟩ := List.mem_map.mp below
      rw [Line.whole_below]
      exact List.mem_append_right _ List.mem_cons_self

/-- The labels above a label have lines of their own. -/
theorem line_of_above {tree : Tree α} {line : Line α} (member : line ∈ tree.lines)
    {parent : α} {upper : List α} (above : line.above = parent :: upper) :
    ⟨upper, parent⟩ ∈ tree.lines := by
  induction tree using induct generalizing line upper with
  | step label children ih =>
    rw [lines_node] at member ⊢
    rcases List.mem_cons.mp member with rfl | later
    · exact absurd above (by simp)
    · obtain ⟨inner, innerMem, rfl⟩ := List.mem_map.mp later
      obtain ⟨child, childMem, inChild⟩ := List.mem_flatMap.mp innerMem
      rcases inner with ⟨innerAbove, innerLabel⟩
      cases innerAbove with
      | nil =>
        obtain ⟨rfl, rfl⟩ : label = parent ∧ [] = upper := by simpa [Line.below] using above
        exact List.mem_cons_self
      | cons nearest others =>
        obtain ⟨rfl, rfl⟩ : nearest = parent ∧ others ++ [label] = upper := by
          simpa [Line.below] using above
        refine List.mem_cons_of_mem _ (List.mem_map.mpr ⟨⟨others, nearest⟩, ?_, rfl⟩)
        exact List.mem_flatMap.mpr ⟨child, childMem, ih child childMem inChild rfl⟩

/-- What holds all over a tree below some keys holds all over its children below one key more. -/
theorem forall_lines_child (holds : List β → α → Prop) {key : α → β} {upper : List β} {label : α}
    {children : List (Tree α)}
    (all : ∀ line ∈ (Tree.node label children).lines,
      holds (line.above.map key ++ upper) line.label)
    {child : Tree α} (listed : child ∈ children) :
    ∀ line ∈ child.lines, holds (line.above.map key ++ key label :: upper) line.label := by
  intro line inside
  have found := all (line.below [label]) (by
    rw [lines_node]
    exact List.mem_cons_of_mem _
      (List.mem_map_of_mem (List.mem_flatMap.mpr ⟨child, listed, inside⟩)))
  rw [show (line.below [label]).above = line.above ++ [label] from rfl, List.map_append,
    List.append_assoc] at found
  exact found

theorem mem_labels_of_child {tree child : Tree α} (member : child ∈ tree.children) {label : α}
    (inside : label ∈ child.labels) : label ∈ tree.labels := by
  rcases tree with ⟨top, children⟩
  rw [labels_node]
  exact List.mem_cons_of_mem _ (List.mem_flatten.mpr
    ⟨child.labels, List.mem_map_of_mem member, inside⟩)

/-! ### Places and lines -/

/-- The line of a place. -/
def Spot.line (spot : Spot α) : Line α :=
  ⟨spot.above, spot.label⟩

theorem map_line_spotsFrom (tree : Tree α) : ∀ (above : List α) (path : List Nat),
    (spotsFrom above path tree).map Spot.line = tree.lines.map (Line.below above) := by
  induction tree using induct with
  | step label children ih =>
    intro above path
    rw [spotsFrom, List.map_cons, map_spotsFromAll fun child member => ih child member _, lines_node,
      List.map_cons, ← List.map_flatMap, List.map_map]
    congr 1
    refine List.map_congr_left fun line _ => ?_
    exact (Line.below_below [label] above line).symm

theorem map_line_spots (tree : Tree α) : tree.spots.map Spot.line = tree.lines := by
  rw [spots, map_line_spotsFrom]
  conv_rhs => rw [← List.map_id tree.lines]
  exact List.map_congr_left fun line _ => Line.below_nil line

theorem mem_labels_of_mem_whole {tree : Tree α} {line : Line α} (member : line ∈ tree.lines)
    {label : α} (inside : label ∈ line.whole) : label ∈ tree.labels := by
  induction tree using induct generalizing line with
  | step top children ih =>
    rw [lines_node] at member
    rw [labels_node]
    rcases List.mem_cons.mp member with rfl | later
    · exact List.mem_cons.mpr (Or.inl (by simpa [Line.whole] using inside))
    · obtain ⟨inner, innerMem, rfl⟩ := List.mem_map.mp later
      obtain ⟨child, childMem, inChild⟩ := List.mem_flatMap.mp innerMem
      rw [Line.whole_below] at inside
      rcases List.mem_append.mp inside with deep | isTop
      · refine List.mem_cons_of_mem _ (List.mem_flatten.mpr ⟨child.labels, ?_, ?_⟩)
        · exact List.mem_map.mpr ⟨child, childMem, rfl⟩
        · exact ih child childMem inChild deep
      · exact List.mem_cons.mpr (Or.inl (by simpa using isTop))

section Subtrees

variable {κ : Type} [DecidableEq κ]

/-- Whether a line leads to or through a label with the key. -/
def Line.passes (key : α → κ) (sought : κ) (line : Line α) : Bool :=
  decide (sought ∈ line.whole.map key)

theorem filter_passes_eq_nil {key : α → κ} {sought : κ} {tree : Tree α}
    (absent : sought ∉ tree.labels.map key) : tree.lines.filter (Line.passes key sought) = [] := by
  refine List.filter_eq_nil_iff.mpr fun line member through => absent ?_
  obtain ⟨label, inside, same⟩ := List.mem_map.mp (of_decide_eq_true through)
  exact List.mem_map.mpr ⟨label, mem_labels_of_mem_whole member inside, same⟩

theorem label_mem_of_mem_spotsFrom {tree : Tree α} {above : List α} {path : List Nat}
    {spot : Spot α} (member : spot ∈ spotsFrom above path tree) : spot.label ∈ tree.labels := by
  rw [← map_label_spotsFrom tree above path]
  exact List.mem_map.mpr ⟨spot, member, rfl⟩

theorem labels_spotFrom (key : α → κ) (tree : Tree α) (unique : (tree.labels.map key).Nodup)
    {above : List α} {path : List Nat} {spot : Spot α} (member : spot ∈ spotsFrom above path tree) :
    spot.tree.labels =
      (tree.lines.filter (Line.passes key (key spot.label))).map Line.label := by
  induction tree using induct generalizing above path with
  | step label children ih =>
    rw [labels_node, List.map_cons, List.nodup_cons, List.map_flatten, List.map_map] at unique
    obtain ⟨topApart, siblingsUnique⟩ := unique
    rcases List.mem_cons.mp member with rfl | below
    · have everything : (Tree.node label children).lines.filter (Line.passes key (key label)) =
          (Tree.node label children).lines := by
        refine List.filter_eq_self.mpr fun line inside => decide_eq_true ?_
        exact List.mem_map_of_mem (label_mem_whole inside)
      show (Tree.node label children).labels = _
      rw [← map_label_lines]
      exact congrArg _ everything.symm
    · obtain ⟨_, child, listed, inChild⟩ := mem_spotsFromAll.mp below
      have childMem := List.mem_of_getElem? listed
      have inLabels := label_mem_of_mem_spotsFrom inChild
      have notTop : key spot.label ≠ key label := by
        intro same
        refine topApart (same ▸ List.mem_flatten.mpr ⟨child.labels.map key, ?_, ?_⟩)
        · exact List.mem_map.mpr ⟨child, childMem, rfl⟩
        · exact List.mem_map_of_mem inLabels
      obtain ⟨earlier, later, rfl⟩ := List.append_of_mem childMem
      rw [List.map_append, List.map_cons, List.flatten_append, List.flatten_cons] at siblingsUnique
      obtain ⟨_, restUnique, apartEarlier⟩ := List.nodup_append.mp siblingsUnique
      obtain ⟨childUnique, _, apartLater⟩ := List.nodup_append.mp restUnique
      -- the label stands in this child alone, so the lines of its siblings do not pass it
      have elsewhere : ∀ trees : List (Tree α),
          key spot.label ∉ (trees.map (List.map key ∘ labels)).flatten →
          (trees.flatMap lines).filter (Line.passes key (key spot.label)) = [] := by
        intro trees absent
        rw [List.filter_flatMap, List.flatMap_eq_nil_iff]
        intro each eachMem
        refine filter_passes_eq_nil fun inside => absent ?_
        exact List.mem_flatten.mpr ⟨_, List.mem_map.mpr ⟨each, eachMem, rfl⟩, inside⟩
      have here : key spot.label ∈ child.labels.map key := List.mem_map_of_mem inLabels
      have before := elsewhere earlier fun inside =>
        apartEarlier _ inside _ (List.mem_append_left _ here) rfl
      have after := elsewhere later fun inside => apartLater _ here _ inside rfl
      have lowered : Line.passes key (key spot.label) ∘ Line.below [label] =
          Line.passes key (key spot.label) := by
        funext line
        simp [Line.passes, Line.whole_below, notTop]
      rw [ih child childMem childUnique inChild, lines_node, List.filter_cons,
        if_neg (by simp [Line.passes, Line.whole, notTop]), List.filter_map, lowered,
        List.flatMap_append, List.flatMap_cons, List.filter_append, List.filter_append, before,
        after, List.nil_append, List.append_nil, List.map_map]
      rfl

/-- **The labels at and below a place are those of the lines through it**, when no two labels have
the same key. -/
theorem labels_spot (key : α → κ) {tree : Tree α} (unique : (tree.labels.map key).Nodup)
    {spot : Spot α} (member : spot ∈ tree.spots) :
    spot.tree.labels =
      (tree.lines.filter (Line.passes key (key spot.label))).map Line.label :=
  labels_spotFrom key tree unique member

end Subtrees

/-! ### Other labels -/

theorem lines_map (f : α → β) (tree : Tree α) : (tree.map f).lines = tree.lines.map (Line.map f) := by
  induction tree using induct with
  | step label children ih =>
    rw [map_node, lines_node, lines_node, List.map_cons, List.map_map]
    congr 1
    have each : (children.map (map f)).flatMap lines =
        (children.flatMap lines).map (Line.map f) := by
      rw [List.flatMap_map, List.map_flatMap]
      exact List.flatMap_congr ih
    rw [each, List.map_map]
    exact List.map_congr_left fun line _ => (Line.map_below f [label] line).symm

/-! ### Leaving subtrees out -/

/-- The lines of a tree that may be gone. -/
def linesOf (tree : Option (Tree α)) : List (Line α) :=
  tree.elim [] lines

theorem prune_node (drops : α → Bool) (label : α) (children : List (Tree α)) :
    prune drops (.node label children) =
      if drops label then none else some (.node label (children.filterMap (prune drops))) := by
  rw [prune, fold_node, List.filterMap_map]
  rfl

theorem lines_prune (drops : α → Bool) (tree : Tree α) :
    linesOf (prune drops tree) = tree.lines.filter fun line => !line.whole.any drops := by
  induction tree using induct with
  | step label children ih =>
    rw [prune_node, lines_node, List.filter_cons]
    by_cases dropped : drops label
    · have below : ((children.flatMap lines).map (Line.below [label])).filter
          (fun line => !line.whole.any drops) = [] := by
        refine List.filter_eq_nil_iff.mpr fun line member => ?_
        obtain ⟨inner, _, rfl⟩ := List.mem_map.mp member
        simp [Line.whole_below, dropped]
      rw [if_pos dropped, below]
      simp [linesOf, Line.whole, dropped]
    · rw [if_neg dropped]
      have kept : (!(Line.whole ⟨[], label⟩).any drops) = true := by
        simp [Line.whole, dropped]
      rw [if_pos kept, linesOf, Option.elim_some, lines_node, List.filter_map]
      congr 2
      have same : (fun line : Line α => !line.whole.any drops) ∘ Line.below [label] =
          fun line => !line.whole.any drops := by
        funext line
        simp [Line.whole_below, dropped]
      rw [same, List.filter_flatMap]
      clear same
      induction children with
      | nil => rfl
      | cons child children later =>
        rw [List.flatMap_cons, ← ih child List.mem_cons_self,
          ← later fun each member => ih each (List.mem_cons_of_mem _ member), List.filterMap_cons]
        cases prune drops child with
        | none => rfl
        | some left => rfl

/-! ### Adding a child -/

theorem insertAt_node (parents : α → Bool) (index : Option Nat) (child : Tree α) (label : α)
    (children : List (Tree α)) :
    insertAt parents index child (.node label children) =
      .node label (if parents label then
          insertInto index child (children.map (insertAt parents index child))
        else children.map (insertAt parents index child)) := by
  rw [insertAt, fold_node]

/-- The lines of a tree below the label of a line. -/
def graft (child : Tree α) (parent : Line α) : List (Line α) :=
  child.lines.map (Line.below parent.whole)

theorem insertInto_perm (index : Option Nat) (item : β) (items : List β) :
    (insertInto index item items).Perm (item :: items) := by
  unfold insertInto
  refine List.perm_middle.trans ?_
  rw [List.take_append_drop]

theorem sublist_insertInto (index : Option Nat) (item : β) (items : List β) :
    items.Sublist (insertInto index item items) := by
  unfold insertInto
  conv_lhs => rw [← List.take_append_drop (min (index.getD items.length) items.length) items]
  exact (List.Sublist.refl _).append (List.sublist_cons_self _ _)

theorem graft_below (child : Tree α) (upper : List α) (parent : Line α) :
    (graft child parent).map (Line.below upper) = graft child (parent.below upper) := by
  rw [graft, graft, List.map_map]
  exact List.map_congr_left fun line _ => Line.below_below _ _ _

/-- **Adding a child adds its lines below every parent**, and nothing else. -/
theorem lines_insertAt_perm (parents : α → Bool) (index : Option Nat) (child tree : Tree α) :
    (insertAt parents index child tree).lines.Perm
      (tree.lines ++ (tree.lines.filter fun line => parents line.label).flatMap (graft child)) := by
  induction tree using induct with
  | step label children ih =>
    have siblings : ((children.map (insertAt parents index child)).flatMap lines).Perm
        (children.flatMap lines ++
          ((children.flatMap lines).filter fun line => parents line.label).flatMap
            (graft child)) := by
      rw [List.flatMap_map]
      clear label
      induction children with
      | nil => exact List.Perm.refl _
      | cons first others later =>
        rw [List.flatMap_cons, List.flatMap_cons, List.filter_append, List.flatMap_append]
        have here := ih first List.mem_cons_self
        have there := later fun each member => ih each (List.mem_cons_of_mem _ member)
        refine (here.append there).trans ?_
        rw [List.append_assoc, List.append_assoc]
        refine List.Perm.append_left _ ?_
        rw [← List.append_assoc, ← List.append_assoc]
        exact List.Perm.append_right _ List.perm_append_comm
    have lowered : ((children.map (insertAt parents index child)).flatMap lines).map
          (Line.below [label]) |>.Perm
        ((children.flatMap lines).map (Line.below [label]) ++
          (((children.flatMap lines).map (Line.below [label])).filter fun line =>
            parents line.label).flatMap (graft child)) := by
      refine (siblings.map _).trans ?_
      rw [List.map_append, List.filter_map, List.flatMap_map]
      refine List.Perm.append_left _ (List.Perm.of_eq ?_)
      rw [List.map_flatMap]
      exact List.flatMap_congr fun line _ => graft_below child [label] line
    rw [insertAt_node, lines_node, lines_node, List.filter_cons]
    by_cases parent : parents label
    · rw [if_pos parent, if_pos parent, List.flatMap_cons, List.cons_append]
      refine List.Perm.cons _ ?_
      have opened := (insertInto_perm index child
        (children.map (insertAt parents index child))).flatMap_right lines
      refine (opened.map _).trans ?_
      rw [List.flatMap_cons, List.map_append]
      refine (List.Perm.append_left _ lowered).trans ?_
      rw [← List.append_assoc, ← List.append_assoc]
      exact List.Perm.append_right _ List.perm_append_comm
    · rw [if_neg parent, if_neg (show ¬ parents (Line.label ⟨[], label⟩) = true from parent),
        List.cons_append]
      exact List.Perm.cons _ lowered

/-- Adding a child keeps the lines and their order. -/
theorem lines_sublist_insertAt (parents : α → Bool) (index : Option Nat) (child tree : Tree α) :
    tree.lines.Sublist (insertAt parents index child tree).lines := by
  induction tree using induct with
  | step label children ih =>
    rw [insertAt_node, lines_node, lines_node]
    refine List.Sublist.cons_cons _ (List.Sublist.map _ ?_)
    have siblings : (children.flatMap lines).Sublist
        ((children.map (insertAt parents index child)).flatMap lines) := by
      rw [List.flatMap_map]
      clear label
      induction children with
      | nil => exact List.Sublist.refl _
      | cons first others later =>
        rw [List.flatMap_cons, List.flatMap_cons]
        exact (ih first List.mem_cons_self).append
          (later fun each member => ih each (List.mem_cons_of_mem _ member))
    by_cases parent : parents label
    · rw [if_pos parent]
      exact siblings.trans ((sublist_insertInto index child _).flatMap lines)
    · rw [if_neg parent]
      exact siblings

end Tree

end EntityModel
