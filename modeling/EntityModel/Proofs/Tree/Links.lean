import EntityModel.Proofs.Tree.Lines
import EntityModel.Proofs.Tree.Mapping

/-
**Trees as lists of links.**

A link is a line with the labels right below its end, so a tree is told by its links the way it is
told by nodes that know their parent and their children.

* `links` — the links of a tree in document order; `map_link_spots` and `map_line_links` tie them to
  the places and to the lines.
* `link_of_child`, `link_of_above` — who is listed as a child has its parent above it, and the other
  way round; `children_sublist` — each once.
* `links_map`, `links_prune`, `mem_links_insertAt` — what the changes of a tree do to its links.
-/

namespace EntityModel

namespace Tree

variable {α β : Type}

/-- A label of a tree with the labels above it, the nearest first, and those right below it. -/
structure Link (α : Type) extends Line α where
  children : List α

namespace Link

/-- The link of the same label when the tree stands below further labels. -/
def below (upper : List α) (link : Link α) : Link α :=
  ⟨link.toLine.below upper, link.children⟩

/-- The link with other labels. -/
def map (f : α → β) (link : Link α) : Link β :=
  ⟨link.toLine.map f, link.children.map f⟩

/-- The link without the children that `drops` holds of. -/
def without (drops : α → Bool) (link : Link α) : Link α :=
  { link with children := link.children.filter fun child => !drops child }

/-- The link with one more child if `parents` holds of its label. -/
def grown (parents : α → Bool) (index : Option Nat) (child : α) (link : Link α) : Link α :=
  { link with
    children := if parents link.label then insertInto index child link.children else link.children }

theorem below_nil : below ([] : List α) = id := by
  funext link
  unfold below
  rw [Line.below_nil]
  rfl

theorem below_below (lower upper : List α) (link : Link α) :
    (link.below lower).below upper = link.below (lower ++ upper) := by
  unfold below
  rw [Line.below_below]

end Link

mutual

/-- The links of a tree, in document order. -/
def links : Tree α → List (Link α)
  | .node label children =>
    ⟨⟨[], label⟩, children.map Tree.label⟩ :: (linksAll children).map (Link.below [label])

/-- The links of sibling trees. -/
def linksAll : List (Tree α) → List (Link α)
  | [] => []
  | tree :: trees => links tree ++ linksAll trees

end

theorem linksAll_eq (trees : List (Tree α)) : linksAll trees = trees.flatMap links := by
  induction trees with
  | nil => rfl
  | cons tree trees ih => rw [linksAll, ih, List.flatMap_cons]

theorem links_node (label : α) (children : List (Tree α)) :
    (Tree.node label children).links = ⟨⟨[], label⟩, children.map Tree.label⟩ ::
      (children.flatMap links).map (Link.below [label]) := by
  rw [links, linksAll_eq]

/-- The links of a tree below its top. -/
theorem mem_links_below {label : α} {children : List (Tree α)} {link : Link α} :
    link ∈ (children.flatMap links).map (Link.below [label]) ↔
      ∃ child ∈ children, ∃ lower ∈ child.links, link = lower.below [label] := by
  rw [List.mem_map]
  constructor
  · rintro ⟨lower, inside, rfl⟩
    obtain ⟨child, listed, within⟩ := List.mem_flatMap.mp inside
    exact ⟨child, listed, lower, within, rfl⟩
  · rintro ⟨child, listed, lower, within, rfl⟩
    exact ⟨lower, List.mem_flatMap.mpr ⟨child, listed, within⟩, rfl⟩

/-- What is said of labels and of those right below them holds all over a tree when it holds at its
top and all over the trees below. -/
theorem forall_links_node {holds : α → List α → Prop} {label : α} {children : List (Tree α)} :
    (∀ link ∈ (Tree.node label children).links, holds link.label link.children) ↔
      holds label (children.map Tree.label) ∧
        ∀ child ∈ children, ∀ link ∈ child.links, holds link.label link.children := by
  rw [links_node, List.forall_mem_cons]
  refine and_congr_right fun _ => ⟨fun below child listed lower within => ?_,
    fun each link member => ?_⟩
  · exact below (lower.below [label]) (mem_links_below.mpr ⟨child, listed, lower, within, rfl⟩)
  · obtain ⟨child, listed, lower, within, rfl⟩ := mem_links_below.mp member
    exact each child listed lower within

/-- The link of the top. -/
def topLink (tree : Tree α) : Link α :=
  ⟨⟨[], tree.label⟩, tree.children.map Tree.label⟩

theorem topLink_mem (tree : Tree α) : tree.topLink ∈ tree.links := by
  rcases tree with ⟨label, children⟩
  rw [links_node]
  exact List.mem_cons_self

/-- Only the top has nothing above it. -/
theorem eq_topLink {tree : Tree α} {link : Link α} (member : link ∈ tree.links)
    (top : link.above = []) : link = tree.topLink := by
  rcases tree with ⟨label, children⟩
  rw [links_node] at member
  rcases List.mem_cons.mp member with same | lower
  · exact same
  · obtain ⟨_, _, lower, _, rfl⟩ := mem_links_below.mp lower
    exact absurd (List.append_eq_nil_iff.mp top).2 (List.cons_ne_nil _ _)

/-! ### Places and lines -/

/-- The links of what stands at a place are links of the tree, below what stands above the place. -/
theorem link_of_spotFrom (tree : Tree α) : ∀ {above : List α} {path : List Nat} {spot : Spot α},
    spot ∈ spotsFrom above path tree → ∀ {lower : Link α}, lower ∈ spot.tree.links →
      lower.below spot.above ∈ tree.links.map (Link.below above) := by
  induction tree using induct with
  | step label children ih =>
    intro above path spot member lower inside
    rcases List.mem_cons.mp member with rfl | deeper
    · exact List.mem_map_of_mem inside
    · obtain ⟨_, child, here, within⟩ := mem_spotsFromAll.mp deeper
      have listed := List.mem_of_getElem? here
      obtain ⟨link, found, same⟩ := List.mem_map.mp (ih child listed within inside)
      refine List.mem_map.mpr ⟨link.below [label], ?_, ?_⟩
      · rw [links_node]
        exact List.mem_cons_of_mem _ (mem_links_below.mpr ⟨child, listed, link, found, rfl⟩)
      · rw [Link.below_below]
        exact same

/-- The link of a place. -/
def Spot.link (spot : Spot α) : Link α :=
  ⟨spot.line, spot.tree.children.map Tree.label⟩

theorem map_link_spotsFrom (tree : Tree α) : ∀ (above : List α) (path : List Nat),
    (spotsFrom above path tree).map Spot.link = tree.links.map (Link.below above) := by
  induction tree using induct with
  | step label children ih =>
    intro above path
    rw [spotsFrom, List.map_cons, map_spotsFromAll fun child member => ih child member _, links_node,
      List.map_cons, ← List.map_flatMap, List.map_map]
    congr 1
    refine List.map_congr_left fun link _ => ?_
    exact (Link.below_below [label] above link).symm

theorem map_link_spots (tree : Tree α) : tree.spots.map Spot.link = tree.links := by
  rw [spots, map_link_spotsFrom, Link.below_nil, List.map_id]

theorem link_of_spot {tree : Tree α} {spot : Spot α} (member : spot ∈ tree.spots) {lower : Link α}
    (inside : lower ∈ spot.tree.links) : lower.below spot.above ∈ tree.links := by
  have found := link_of_spotFrom tree member inside
  rwa [Link.below_nil, List.map_id] at found

theorem map_line_links (tree : Tree α) : tree.links.map Link.toLine = tree.lines := by
  rw [← map_link_spots, List.map_map, ← map_line_spots]
  rfl

theorem map_label_links (tree : Tree α) : (tree.links.map fun link => link.label) = tree.labels := by
  rw [← map_label_lines, ← map_line_links, List.map_map]
  rfl

/-! ### Parents and children -/

/-- Who is listed as a child has a link of its own, with the parent above it. -/
theorem link_of_child {tree : Tree α} {link : Link α} (member : link ∈ tree.links) {child : α}
    (listed : child ∈ link.children) :
    ∃ lower ∈ tree.links, lower.label = child ∧ lower.above = link.label :: link.above := by
  induction tree using induct generalizing link with
  | step label children ih =>
    rw [links_node] at member ⊢
    rcases List.mem_cons.mp member with rfl | later
    · obtain ⟨tree, inside, rfl⟩ := List.mem_map.mp listed
      refine ⟨tree.topLink.below [label], List.mem_cons_of_mem _ ?_, rfl, rfl⟩
      exact mem_links_below.mpr ⟨tree, inside, tree.topLink, tree.topLink_mem, rfl⟩
    · obtain ⟨tree, inside, link, within, rfl⟩ := mem_links_below.mp later
      obtain ⟨lower, found, same, above⟩ := ih tree inside within listed
      refine ⟨lower.below [label], List.mem_cons_of_mem _ ?_, same, ?_⟩
      · exact mem_links_below.mpr ⟨tree, inside, lower, found, rfl⟩
      · show lower.above ++ [label] = _
        rw [above]
        rfl

/-- The label right above another has a link that lists the other as a child. -/
theorem link_of_above {tree : Tree α} {link : Link α} (member : link ∈ tree.links) {parent : α}
    {upper : List α} (above : link.above = parent :: upper) :
    ∃ higher ∈ tree.links, higher.label = parent ∧ higher.above = upper ∧
      link.label ∈ higher.children := by
  induction tree using induct generalizing link upper with
  | step label children ih =>
    rw [links_node] at member ⊢
    rcases List.mem_cons.mp member with rfl | later
    · exact nomatch above
    · obtain ⟨tree, inside, link, within, rfl⟩ := mem_links_below.mp later
      have whole : link.above ++ [label] = parent :: upper := above
      cases higher : link.above with
      | nil =>
        rw [higher] at whole
        obtain ⟨rfl, rfl⟩ := List.cons.inj whole
        obtain rfl := eq_topLink within higher
        exact ⟨_, List.mem_cons_self, rfl, rfl, List.mem_map_of_mem inside⟩
      | cons nearest others =>
        rw [higher] at whole
        obtain ⟨rfl, rfl⟩ := List.cons.inj whole
        obtain ⟨found, listed, same, rest, child⟩ := ih tree inside within higher
        refine ⟨found.below [label], List.mem_cons_of_mem _ ?_, same, ?_, child⟩
        · exact mem_links_below.mpr ⟨tree, inside, found, listed, rfl⟩
        · show found.above ++ [label] = _
          rw [rest]
          rfl

/-- No label is a child more often than it stands in the tree. -/
theorem children_sublist {tree : Tree α} {link : Link α} (member : link ∈ tree.links) :
    link.children.Sublist tree.labels := by
  induction tree using induct generalizing link with
  | step label children ih =>
    rw [links_node] at member
    rw [labels_node]
    refine List.Sublist.cons _ ?_
    rcases List.mem_cons.mp member with rfl | later
    · clear ih member
      show (children.map Tree.label).Sublist _
      induction children with
      | nil => exact List.nil_sublist _
      | cons child children ih =>
        rcases child with ⟨top, below⟩
        rw [List.map_cons, List.map_cons, List.flatten_cons, labels_node]
        exact (ih.trans (List.sublist_append_right _ _)).cons_cons top
    · obtain ⟨tree, inside, link, within, rfl⟩ := mem_links_below.mp later
      exact (ih tree inside within).trans
        (List.sublist_flatten_of_mem (List.mem_map_of_mem inside))

/-! ### Other labels -/

theorem links_map (f : α → β) (tree : Tree α) : (tree.map f).links = tree.links.map (Link.map f) := by
  rw [← map_link_spots, ← map_link_spots, spots_map, List.map_map, List.map_map]
  refine List.map_congr_left fun spot _ => ?_
  rcases spot with ⟨above, path, ⟨label, children⟩⟩
  show Link.mk ⟨above.map f, (Tree.map f (.node label children)).label⟩
    ((Tree.map f (.node label children)).children.map Tree.label) = _
  rw [map_node]
  unfold Link.map Spot.link
  rw [Link.mk.injEq]
  refine ⟨rfl, ?_⟩
  show (children.map (Tree.map f)).map Tree.label = (children.map Tree.label).map f
  rw [List.map_map, List.map_map]
  exact List.map_congr_left fun child _ => label_map f child

/-! ### Leaving subtrees out -/

/-- The links of a tree that may be gone. -/
def linksOf (tree : Option (Tree α)) : List (Link α) :=
  tree.elim [] links

theorem label_prune {drops : α → Bool} {tree left : Tree α} (kept : prune drops tree = some left) :
    left.label = tree.label := by
  rcases tree with ⟨label, children⟩
  rw [prune_node] at kept
  split at kept
  · exact nomatch kept
  · rw [← Option.some.inj kept]
    rfl

theorem prune_eq_none_iff {drops : α → Bool} {tree : Tree α} :
    prune drops tree = none ↔ drops tree.label = true := by
  rcases tree with ⟨label, children⟩
  rw [prune_node]
  show _ ↔ drops label = true
  cases drops label with
  | false => simp
  | true => simp

/-- The tops of the siblings that are left. -/
theorem labels_prunes (drops : α → Bool) (trees : List (Tree α)) :
    (trees.filterMap (prune drops)).map Tree.label =
      (trees.map Tree.label).filter fun label => !drops label := by
  induction trees with
  | nil => rfl
  | cons tree trees ih =>
    rw [List.filterMap_cons, List.map_cons, List.filter_cons]
    cases kept : prune drops tree with
    | none =>
      rw [prune_eq_none_iff.mp kept]
      exact ih
    | some left =>
      have stays : drops tree.label = false := by
        rw [Bool.eq_false_iff]
        intro dropped
        rw [prune_eq_none_iff.mpr dropped] at kept
        exact nomatch kept
      rw [stays, ← label_prune kept]
      exact congrArg (left.label :: ·) ih

/-- **Leaving subtrees out** takes the links through their tops and takes these out of the children. -/
theorem links_prune (drops : α → Bool) (tree : Tree α) : linksOf (prune drops tree) =
    (tree.links.filter fun link => !link.toLine.whole.any drops).map (Link.without drops) := by
  induction tree using induct with
  | step label children ih =>
    rw [prune_node, links_node, List.filter_cons]
    by_cases dropped : drops label
    · have below : ((children.flatMap links).map (Link.below [label])).filter
          (fun link => !link.toLine.whole.any drops) = [] := by
        refine List.filter_eq_nil_iff.mpr fun link member => ?_
        obtain ⟨_, _, lower, _, rfl⟩ := mem_links_below.mp member
        simp [Link.below, Line.whole_below, dropped]
      rw [if_pos dropped, below]
      simp [linksOf, Line.whole, dropped]
    · rw [if_neg dropped]
      have kept : (!(Line.whole ⟨[], label⟩).any drops) = true := by
        simp [Line.whole, dropped]
      have lowered : (fun link : Link α => !link.toLine.whole.any drops) ∘ Link.below [label] =
          fun link => !link.toLine.whole.any drops := by
        funext link
        simp [Link.below, Line.whole_below, dropped]
      have commutes : Link.without drops ∘ Link.below [label] =
          Link.below [label] ∘ Link.without drops := rfl
      have siblings : (children.filterMap (prune drops)).flatMap links =
          ((children.flatMap links).filter fun link => !link.toLine.whole.any drops).map
            (Link.without drops) := by
        clear kept lowered
        induction children with
        | nil => rfl
        | cons child children later =>
          rw [List.flatMap_cons, List.filter_append, List.map_append, ← ih child List.mem_cons_self,
            ← later fun each member => ih each (List.mem_cons_of_mem _ member), List.filterMap_cons]
          cases prune drops child with
          | none => rfl
          | some left => rfl
      rw [if_pos kept, List.map_cons, linksOf, Option.elim_some, links_node, siblings, labels_prunes,
        @List.filter_map _ _ (Link.below [label]), lowered, List.map_map, List.map_map, commutes]
      rfl

/-! ### Adding a child -/

theorem label_insertAt (parents : α → Bool) (index : Option Nat) (child tree : Tree α) :
    (insertAt parents index child tree).label = tree.label := by
  rcases tree with ⟨label, children⟩
  rw [insertAt_node]
  rfl

theorem mem_insertInto {index : Option Nat} {item other : β} {items : List β} :
    other ∈ insertInto index item items ↔ other = item ∨ other ∈ items := by
  rw [(insertInto_perm index item items).mem_iff, List.mem_cons]

theorem mem_links_node {label : α} {children : List (Tree α)} {link : Link α} :
    link ∈ (Tree.node label children).links ↔ link = (Tree.node label children).topLink ∨
      ∃ child ∈ children, ∃ lower ∈ child.links, link = lower.below [label] := by
  rw [links_node, List.mem_cons, mem_links_below]
  rfl

theorem topLink_insertAt (parents : α → Bool) (index : Option Nat) (child tree : Tree α) :
    (insertAt parents index child tree).topLink =
      tree.topLink.grown parents index child.label := by
  rcases tree with ⟨label, children⟩
  have tops : (children.map (insertAt parents index child)).map Tree.label =
      children.map Tree.label := by
    rw [List.map_map]
    exact List.map_congr_left fun tree _ => label_insertAt parents index child tree
  rw [insertAt_node]
  show Link.mk ⟨[], label⟩ (List.map Tree.label (if parents label = true then _ else _)) =
    Link.mk ⟨[], label⟩ (if parents label = true then _ else _)
  cases parents label with
  | false => rw [if_neg Bool.false_ne_true, if_neg Bool.false_ne_true, tops]; rfl
  | true => rw [if_pos rfl, if_pos rfl, insertInto_map, tops]; rfl

/-- **Adding a child** adds its links below every parent, and lists it among the children there. -/
theorem mem_links_insertAt (parents : α → Bool) (index : Option Nat) (child tree : Tree α)
    {link : Link α} : link ∈ (insertAt parents index child tree).links ↔
      (∃ old ∈ tree.links, link = old.grown parents index child.label) ∨
        ∃ parent ∈ tree.lines, parents parent.label = true ∧
          ∃ lower ∈ child.links, link = lower.below parent.whole := by
  induction tree using induct generalizing link with
  | step label children ih =>
    have kids : ∀ tree, tree ∈ (if parents label = true then
          insertInto index child (children.map (insertAt parents index child))
        else children.map (insertAt parents index child)) ↔
        (parents label = true ∧ tree = child) ∨
          ∃ old ∈ children, tree = insertAt parents index child old := by
      intro tree
      have mapped : tree ∈ children.map (insertAt parents index child) ↔
          ∃ old ∈ children, tree = insertAt parents index child old := by
        rw [List.mem_map]
        exact exists_congr fun old => and_congr_right fun _ => eq_comm
      cases parents label with
      | false => simp [mapped]
      | true => rw [if_pos rfl, mem_insertInto, mapped]; simp
    have top := topLink_insertAt parents index child (.node label children)
    rw [insertAt_node] at top ⊢
    rw [mem_links_node, top, lines_node]
    constructor
    · rintro (rfl | ⟨kid, listed, lower, within, rfl⟩)
      · exact Or.inl ⟨_, mem_links_node.mpr (Or.inl rfl), rfl⟩
      · rcases (kids kid).mp listed with ⟨parent, rfl⟩ | ⟨old, inside, rfl⟩
        · exact Or.inr ⟨⟨[], label⟩, List.mem_cons_self, parent, lower, within, rfl⟩
        · rcases (ih old inside).mp within with ⟨link, here, rfl⟩ | ⟨parent, here, own, link, new, rfl⟩
          · exact Or.inl ⟨link.below [label],
              mem_links_node.mpr (Or.inr ⟨old, inside, link, here, rfl⟩), rfl⟩
          · refine Or.inr ⟨parent.below [label], List.mem_cons_of_mem _ (List.mem_map_of_mem
              (List.mem_flatMap.mpr ⟨old, inside, here⟩)), own, link, new, ?_⟩
            rw [Link.below_below, Line.whole_below]
    · rintro (⟨link, here, rfl⟩ | ⟨parent, here, own, lower, new, rfl⟩)
      · rcases mem_links_node.mp here with rfl | ⟨old, inside, link, within, rfl⟩
        · exact Or.inl rfl
        · exact Or.inr ⟨_, (kids _).mpr (Or.inr ⟨old, inside, rfl⟩),
            link.grown parents index child.label, (ih old inside).mpr (Or.inl ⟨link, within, rfl⟩),
            rfl⟩
      · rcases List.mem_cons.mp here with rfl | deeper
        · exact Or.inr ⟨child, (kids child).mpr (Or.inl ⟨own, rfl⟩), lower, new, rfl⟩
        · obtain ⟨line, within, rfl⟩ := List.mem_map.mp deeper
          obtain ⟨old, inside, found⟩ := List.mem_flatMap.mp within
          refine Or.inr ⟨_, (kids _).mpr (Or.inr ⟨old, inside, rfl⟩), lower.below line.whole,
            (ih old inside).mpr (Or.inr ⟨line, found, own, lower, new, rfl⟩), ?_⟩
          rw [Link.below_below, Line.whole_below]

end Tree

end EntityModel
