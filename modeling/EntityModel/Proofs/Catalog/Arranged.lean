import EntityModel.Proofs.Catalog.Classified

/-
**Elements with absorbed children first.**

Some kinds keep certain children as part of the node, and write them before those that are nodes of
their own. Nothing else about an element is lost on the way through the model.

* `Element.arranged` — the element with the absorbed children moved to the front, at every depth
  where children become nodes; `Element.absorbed` — the elements that are kept as parts of nodes.
* `AbsorbedFirst` — they stand in front already; `arranged_eq_self_iff` — **just then nothing moves**,
  and `arranged_arranged` — never a second time.
* `labels_arranged_perm` — no element is lost or made up.
* `toElement_of_drafted` — **what drafting makes of an element is written out as the element
  arranged**; `size_draft_add` — the nodes and the elements kept inside them are all there are.
-/

namespace EntityModel

namespace Element

mutual

/-- The element of the kind with the children that it absorbs before the others, in the order they
had, and so on below; `outer` is the kind of its parent. -/
def arranged (outer : Option Kind) (kind : Kind) : Element → Element
  | .node head children =>
    .node head ((children.filter fun child => kind.absorbs child.label.tag) ++
      arrangedAll outer kind children)

/-- The children that are not absorbed, arranged. -/
def arrangedAll (outer : Option Kind) (kind : Kind) : List Element → List Element
  | [] => []
  | child :: children =>
    if kind.absorbs child.label.tag then arrangedAll outer kind children
    else arranged (some kind) (kind.ofNested outer child.label.tag) child ::
      arrangedAll outer kind children

end

mutual

/-- The elements that are kept as parts of others, those of the element itself first. -/
def absorbed (outer : Option Kind) (kind : Kind) : Element → List Element
  | .node _ children =>
    (children.filter fun child => kind.absorbs child.label.tag) ++ absorbedAll outer kind children

/-- Those kept as parts of the children that are not absorbed. -/
def absorbedAll (outer : Option Kind) (kind : Kind) : List Element → List Element
  | [] => []
  | child :: children =>
    if kind.absorbs child.label.tag then absorbedAll outer kind children
    else absorbed (some kind) (kind.ofNested outer child.label.tag) child ++
      absorbedAll outer kind children

end

/-- At the element and at those below it that are not absorbed, the absorbed children come first. -/
inductive AbsorbedFirst : Option Kind → Kind → Element → Prop where
  | node {outer : Option Kind} {kind : Kind} {head : Head} {inline elements : List Element}
      (absorbed : ∀ child ∈ inline, kind.absorbs child.label.tag = true)
      (apart : ∀ child ∈ elements, kind.absorbs child.label.tag = false)
      (below : ∀ child ∈ elements,
        AbsorbedFirst (some kind) (kind.ofNested outer child.label.tag) child) :
      AbsorbedFirst outer kind (.node head (inline ++ elements))

section Lists

variable (outer : Option Kind) (kind : Kind)

theorem arrangedAll_eq (children : List Element) : arrangedAll outer kind children =
    (children.filter fun child => !kind.absorbs child.label.tag).map fun child =>
      arranged (some kind) (kind.ofNested outer child.label.tag) child := by
  induction children with
  | nil => rfl
  | cons child children ih =>
    rw [arrangedAll, ih]
    by_cases kept : kind.absorbs child.label.tag = true
    · simp [kept]
    · simp [kept]

theorem absorbedAll_eq (children : List Element) : absorbedAll outer kind children =
    (children.filter fun child => !kind.absorbs child.label.tag).flatMap fun child =>
      absorbed (some kind) (kind.ofNested outer child.label.tag) child := by
  induction children with
  | nil => rfl
  | cons child children ih =>
    rw [absorbedAll, ih]
    by_cases kept : kind.absorbs child.label.tag = true
    · simp [kept]
    · simp [kept]

/-- **One level**: the absorbed children as they were, then the others arranged. -/
theorem arranged_node (head : Head) (children : List Element) :
    arranged outer kind (.node head children) = .node head
      ((children.filter fun child => kind.absorbs child.label.tag) ++
        (children.filter fun child => !kind.absorbs child.label.tag).map fun child =>
          arranged (some kind) (kind.ofNested outer child.label.tag) child) := by
  rw [arranged, arrangedAll_eq]

theorem absorbed_node (head : Head) (children : List Element) :
    absorbed outer kind (.node head children) =
      (children.filter fun child => kind.absorbs child.label.tag) ++
        (children.filter fun child => !kind.absorbs child.label.tag).flatMap fun child =>
          absorbed (some kind) (kind.ofNested outer child.label.tag) child := by
  rw [absorbed, absorbedAll_eq]

end Lists

/-- The element itself stays as it is. -/
@[simp]
theorem label_arranged (outer : Option Kind) (kind : Kind) (element : Element) :
    (arranged outer kind element).label = element.label := by
  rcases element with ⟨head, children⟩
  rfl

/-! ### Nothing moves twice -/

theorem absorbedFirst_arranged (element : Element) : ∀ (outer : Option Kind) (kind : Kind),
    AbsorbedFirst outer kind (arranged outer kind element) := by
  induction element using Tree.induct with
  | step head children ih =>
    intro outer kind
    rw [arranged_node]
    refine .node (fun child kept => (List.mem_filter.mp kept).2) (fun child other => ?_)
      fun child other => ?_
    · obtain ⟨original, listed, rfl⟩ := List.mem_map.mp other
      simpa using (List.mem_filter.mp listed).2
    · obtain ⟨original, listed, rfl⟩ := List.mem_map.mp other
      rw [label_arranged]
      exact ih original (List.mem_of_mem_filter listed) _ _

theorem arranged_of_absorbedFirst {outer : Option Kind} {kind : Kind} {element : Element}
    (first : AbsorbedFirst outer kind element) : arranged outer kind element = element := by
  induction first with
  | @node outer kind head inline elements absorbed apart below ih =>
    have kept : (inline ++ elements).filter (fun child => kind.absorbs child.label.tag) = inline := by
      rw [List.filter_append, List.filter_eq_self.mpr absorbed, filter_absorbs_of_apart apart,
        List.append_nil]
    have others : (inline ++ elements).filter (fun child => !kind.absorbs child.label.tag) =
        elements := by
      rw [List.filter_append, filter_not_absorbs_of_apart apart, List.filter_eq_nil_iff.mpr]
      · rfl
      · intro child inside
        simp [absorbed child inside]
    rw [arranged_node, kept, others, List.map_congr_left ih, List.map_id']

/-- **An element is its own arrangement** exactly when absorbed children come first in it. -/
theorem arranged_eq_self_iff {outer : Option Kind} {kind : Kind} {element : Element} :
    arranged outer kind element = element ↔ AbsorbedFirst outer kind element :=
  ⟨fun same => same ▸ absorbedFirst_arranged element outer kind, arranged_of_absorbedFirst⟩

theorem arranged_arranged (outer : Option Kind) (kind : Kind) (element : Element) :
    arranged outer kind (arranged outer kind element) = arranged outer kind element :=
  arranged_of_absorbedFirst (absorbedFirst_arranged element outer kind)

/-- **No element is lost** and none is made up: the heads are the same, in another order. -/
theorem labels_arranged_perm (element : Element) : ∀ (outer : Option Kind) (kind : Kind),
    (arranged outer kind element).labels.Perm element.labels := by
  induction element using Tree.induct with
  | step head children ih =>
    intro outer kind
    rw [arranged_node, Tree.labels_node, Tree.labels_node, ← List.flatMap_def, ← List.flatMap_def,
      List.flatMap_append, List.flatMap_map]
    refine List.Perm.cons head (List.Perm.trans ?_ ((List.filter_append_perm
      (fun child => kind.absorbs child.label.tag) children).flatMap_right Tree.labels))
    rw [List.flatMap_append]
    refine List.Perm.append_left _ (List.Perm.flatMap_left _ fun child other => ?_)
    exact ih child (List.mem_of_mem_filter other) _ _

end Element

/-! ### Nodes written out -/

/-- What a tree of nodes is written out as depends on the drafts that its nodes come from. -/
theorem Tree.toElement_eq (tree : Tree Node) : tree.toElement =
    (tree.map Node.toDraft).fold fun form elements => .node form.head (form.inline ++ elements) := by
  induction tree using Tree.induct with
  | step node children ih =>
    rw [toElement, fold_node, map_node, fold_node, List.map_map]
    congr 2
    exact List.map_congr_left ih

theorem fold_draft (element : Element) : ∀ (outer : Option Kind) (kind : Kind),
    ((draft outer kind element).fold fun form elements =>
      .node form.head (form.inline ++ elements)) = element.arranged outer kind := by
  induction element using Tree.induct with
  | step head children ih =>
    intro outer kind
    rw [draft, drafts_eq, Tree.fold_node, Element.arranged_node, List.map_map]
    congr 2
    refine List.map_congr_left fun child other => ?_
    exact ih child (List.mem_of_mem_filter other) _ _

/-- **Nodes that come from an element** are written out as the element arranged. -/
theorem toElement_of_drafted {tree : Tree Node} {outer : Option Kind} {kind : Kind}
    {element : Element} (drafted : tree.map Node.toDraft = draft outer kind element) :
    tree.toElement = element.arranged outer kind := by
  rw [Tree.toElement_eq, drafted, fold_draft]

/-- What the nodes of an element keep inside. -/
theorem flatMap_inline_draft (element : Element) : ∀ (outer : Option Kind) (kind : Kind),
    (draft outer kind element).labels.flatMap Draft.inline = element.absorbed outer kind := by
  induction element using Tree.induct with
  | step head children ih =>
    intro outer kind
    rw [draft, drafts_eq, Tree.labels_node, Element.absorbed_node, List.flatMap_cons,
      ← List.flatMap_def, List.flatMap_map, List.flatMap_assoc]
    congr 1
    exact List.flatMap_congr fun child other => ih child (List.mem_of_mem_filter other) _ _

/-- **The nodes and what they keep inside** are all elements there are. -/
theorem size_draft_add (element : Element) : ∀ (outer : Option Kind) (kind : Kind),
    (draft outer kind element).size + Tree.sizeAll (element.absorbed outer kind) = element.size := by
  induction element using Tree.induct with
  | step head children ih =>
    intro outer kind
    have parts : ∀ children : List Element, (∀ child ∈ children, ∀ outer kind,
        (draft outer kind child).size + Tree.sizeAll (child.absorbed outer kind) = child.size) →
        Tree.sizeAll (drafts outer kind children) +
          Tree.sizeAll (children.filter fun child => kind.absorbs child.label.tag) +
          Tree.sizeAll (Element.absorbedAll outer kind children) = Tree.sizeAll children := by
      intro children
      induction children with
      | nil => exact fun _ => rfl
      | cons child children later =>
        intro each
        have others := later fun other member => each other (List.mem_cons_of_mem _ member)
        rw [drafts, Element.absorbedAll, List.filter_cons]
        by_cases kept : kind.absorbs child.label.tag = true
        · simp only [if_pos kept, Tree.sizeAll_cons]
          omega
        · have own := each child List.mem_cons_self (some kind)
            (kind.ofNested outer child.label.tag)
          simp only [if_neg kept, Tree.sizeAll_cons, Tree.sizeAll_append]
          omega
    rw [draft, Element.absorbed, Tree.size_node_eq, Tree.size_node_eq, Tree.sizeAll_append,
      ← parts children ih]
    omega

end EntityModel
