import EntityModel.Proofs.Catalog.Growth

/-
**Kinds by place.**

The kind of a node follows from its tag and the kinds above it, and what it keeps of its own element
from its kind. So the elements that trees are written out as are classified in the same way again.

* `Classified` — a draft has the kind of its place and keeps the children that its kind absorbs. What
  may stand below what is a parameter: `Kind.SetsApart` where no element is planted that the node
  above would absorb, anything at all otherwise.
* `classified_of_mem_draft` — the drafts of an element are classified.
* `draft_fold` — what a tree of classified nodes is drafted as when it is written out with more below
  some of its nodes; `draft_toElement_root` — **with nothing more it comes back**;
  `classified_of_drafted` — what has been drafted is classified.
* `Catalog.Classified` — all nodes of the catalog are classified; changes that leave kinds, tags and
  inline children keep it, and so does planting an element where it is not absorbed.
-/

namespace EntityModel

/-- A child with the tag is a node of its own below a node of the kind. -/
def Kind.SetsApart (kind : Kind) (tag : String) : Prop :=
  kind.absorbs tag = false

/-- The kind is that of a child with the tag below nodes of these kinds, the nearest first, and such
a child is admitted there. -/
def Placed (admits : Kind → String → Prop) (layer : Layer) (above : List Kind) (kind : Kind)
    (tag : String) : Prop :=
  match above with
  | [] => kind = .ofRoot layer tag
  | parent :: upper => admits parent tag ∧ kind = parent.ofNested upper.head? tag

/-- The draft has the kind of its place and keeps what its kind absorbs. -/
structure Classified (admits : Kind → String → Prop) (layer : Layer) (above : List Kind)
    (draft : Draft) : Prop where
  inline : ∀ element ∈ draft.inline, draft.kind.absorbs element.label.tag = true
  placed : Placed admits layer above draft.kind draft.head.tag

/-- The draft that a node comes from, as it is written now. -/
def Node.toDraft (node : Node) : Draft :=
  ⟨node.kind, node.head, node.inline⟩

/-- Planting a draft and looking at where the nodes come from. -/
theorem Catalog.toDraft_plant (catalog : Catalog) (form : Tree Draft) :
    (catalog.plant form).map Node.toDraft = form := by
  unfold plant
  rw [Tree.map_map]
  exact Tree.map_snd_number catalog.nextNode form

theorem Tree.label_toElement (tree : Tree Node) : tree.toElement.label = tree.label.head := by
  rcases tree with ⟨node, children⟩
  rw [toElement, fold_node]
  rfl

theorem drafts_eq (outer : Option Kind) (kind : Kind) (children : List Element) :
    drafts outer kind children =
      (children.filter fun child => !kind.absorbs child.label.tag).map fun child =>
        draft (some kind) (kind.ofNested outer child.label.tag) child := by
  induction children with
  | nil => rfl
  | cons child children ih =>
    rw [drafts]
    cases absorbed : kind.absorbs child.label.tag with
    | true => rw [if_pos rfl, List.filter_cons_of_neg (by rw [absorbed]; decide), ih]
    | false =>
      rw [if_neg Bool.false_ne_true, List.filter_cons_of_pos (by rw [absorbed]; decide), ih,
        List.map_cons]

/-- The drafts of an element are classified, if its own kind is that of its place and children that
are nodes of their own are admitted. -/
theorem classified_of_mem_draft {admits : Kind → String → Prop} {layer : Layer}
    (apart : ∀ kind tag, Kind.SetsApart kind tag → admits kind tag) (element : Element) :
    ∀ {above : List Kind} {kind : Kind} {line : Tree.Line Draft},
      Placed admits layer above kind element.label.tag →
      line ∈ (draft above.head? kind element).lines →
      Classified admits layer (line.above.map Draft.kind ++ above) line.label := by
  induction element using Tree.induct with
  | step head children ih =>
    intro above kind line placed member
    rw [draft, Tree.lines_node, drafts_eq] at member
    rcases List.mem_cons.mp member with rfl | below
    · refine ⟨?_, placed⟩
      intro element inside
      exact (List.mem_filter.mp inside).2
    · obtain ⟨lower, inside, rfl⟩ := List.mem_map.mp below
      obtain ⟨tree, drafted, within⟩ := List.mem_flatMap.mp inside
      obtain ⟨child, kept, rfl⟩ := List.mem_map.mp drafted
      obtain ⟨listed, own⟩ := List.mem_filter.mp kept
      have found := @ih child listed (kind :: above) (kind.ofNested above.head? child.label.tag) lower
        ⟨apart kind child.label.tag ((Bool.not_eq_true' _).mp own), rfl⟩ within
      show Classified admits layer ((lower.above ++ [_]).map Draft.kind ++ above) lower.label
      rw [List.map_append, List.append_assoc]
      exact found

/-- What is appended to the absorbed children of an element is drafted by its own tags. -/
theorem draft_node_append {kind : Kind} {inline : List Element}
    (absorbed : ∀ element ∈ inline, kind.absorbs element.label.tag = true) (outer : Option Kind)
    (head : Head) (elements : List Element) :
    draft outer kind (.node head (inline ++ elements)) =
      .node ⟨kind, head, inline ++ elements.filter fun element => kind.absorbs element.label.tag⟩
        ((elements.filter fun element => !kind.absorbs element.label.tag).map fun element =>
          draft (some kind) (kind.ofNested outer element.label.tag) element) := by
  have nothing : inline.filter (fun element => !kind.absorbs element.label.tag) = [] := by
    refine List.filter_eq_nil_iff.mpr fun element member apart => ?_
    rw [absorbed element member] at apart
    exact nomatch apart
  rw [draft, drafts_eq, List.filter_append, List.filter_append, List.filter_eq_self.mpr absorbed,
    nothing, List.nil_append]

theorem filter_absorbs_of_apart {kind : Kind} {elements : List Element}
    (apart : ∀ element ∈ elements, kind.SetsApart element.label.tag) :
    elements.filter (fun element => kind.absorbs element.label.tag) = [] := by
  refine List.filter_eq_nil_iff.mpr fun element member absorbed => ?_
  exact Bool.false_ne_true ((apart element member).symm.trans absorbed)

theorem filter_not_absorbs_of_apart {kind : Kind} {elements : List Element}
    (apart : ∀ element ∈ elements, kind.SetsApart element.label.tag) :
    elements.filter (fun element => !kind.absorbs element.label.tag) = elements := by
  refine List.filter_eq_self.mpr fun element member => ?_
  rw [apart element member]
  rfl

theorem draft_node_of_apart {kind : Kind} {inline elements : List Element}
    (absorbed : ∀ element ∈ inline, kind.absorbs element.label.tag = true)
    (apart : ∀ element ∈ elements, kind.SetsApart element.label.tag) (outer : Option Kind)
    (head : Head) :
    draft outer kind (.node head (inline ++ elements)) =
      .node ⟨kind, head, inline⟩ (elements.map fun element =>
        draft (some kind) (kind.ofNested outer element.label.tag) element) := by
  rw [draft_node_append absorbed, filter_absorbs_of_apart apart, filter_not_absorbs_of_apart apart,
    List.append_nil]

/-- **Writing a tree of classified nodes and drafting it**, where `more` says what is written of the
children of each node: the whole is drafted node by node. -/
theorem draft_fold {layer : Layer} {more : Node → List Element → List Element}
    {made : Node → List (Tree Draft) → Tree Draft} (tree : Tree Node) : ∀ {above : List Kind},
    (∀ line ∈ tree.lines,
      Classified Kind.SetsApart layer (line.above.map Node.kind ++ above) line.label.toDraft) →
    (∀ line ∈ tree.lines, ∀ elements : List Element,
      (∀ element ∈ elements, line.label.kind.SetsApart element.label.tag) →
      draft (line.above.map Node.kind ++ above).head? line.label.kind
          (.node line.label.head (line.label.inline ++ more line.label elements)) =
        made line.label (elements.map fun element => draft (some line.label.kind)
          (line.label.kind.ofNested (line.above.map Node.kind ++ above).head? element.label.tag)
          element)) →
    draft above.head? tree.label.kind
        (tree.fold fun node elements => .node node.head (node.inline ++ more node elements)) =
      tree.fold made := by
  induction tree using Tree.induct with
  | step node children ih =>
    intro above classified each
    let write : Tree Node → Element :=
      Tree.fold fun node elements => .node node.head (node.inline ++ more node elements)
    have tag : ∀ child : Tree Node, (write child).label = child.label.head := by
      rintro ⟨label, below⟩
      exact congrArg Tree.label (Tree.fold_node _ label below)
    -- The kinds above a child are its parent's and those above that.
    have below : ∀ child ∈ children, ∀ line ∈ child.lines,
        Classified Kind.SetsApart layer (line.above.map Node.kind ++ node.kind :: above)
          line.label.toDraft := fun child listed =>
      Tree.forall_lines_child (fun above node => Classified Kind.SetsApart layer above node.toDraft)
        classified listed
    have placed : ∀ child ∈ children, node.kind.SetsApart (write child).label.tag ∧
        child.label.kind = node.kind.ofNested above.head? (write child).label.tag := by
      intro child listed
      obtain ⟨rest, top⟩ := Tree.lines_eq_cons child
      rw [tag]
      exact (below child listed ⟨[], child.label⟩ (top ▸ List.mem_cons_self)).placed
    rw [Tree.fold_node, Tree.fold_node]
    refine (each ⟨[], node⟩ (Tree.lines_node node children ▸ List.mem_cons_self)
      (children.map write) ?_).trans ?_
    · intro element written
      obtain ⟨child, listed, rfl⟩ := List.mem_map.mp written
      exact (placed child listed).1
    · rw [List.map_map]
      congr 1
      refine List.map_congr_left fun child listed => ?_
      show draft (some node.kind) (node.kind.ofNested above.head? (write child).label.tag) _ = _
      rw [← (placed child listed).2]
      exact @ih child listed (node.kind :: above) (below child listed) (Tree.forall_lines_child
        (fun above node => ∀ elements : List Element,
          (∀ element ∈ elements, node.kind.SetsApart element.label.tag) →
          draft above.head? node.kind (.node node.head (node.inline ++ more node elements)) =
            made node (elements.map fun element =>
              draft (some node.kind) (node.kind.ofNested above.head? element.label.tag) element))
        each listed)

section Root

variable {layer : Layer} {root : Tree Node}

/-- The same for the tree of a whole document. -/
theorem draft_fold_root {more : Node → List Element → List Element}
    {made : Node → List (Tree Draft) → Tree Draft} {element : Element}
    (written : element = root.fold fun node elements =>
      .node node.head (node.inline ++ more node elements))
    (classified : ∀ line ∈ root.lines,
      Classified Kind.SetsApart layer (line.above.map Node.kind) line.label.toDraft)
    (each : ∀ line ∈ root.lines, ∀ elements : List Element,
      (∀ element ∈ elements, line.label.kind.SetsApart element.label.tag) →
      draft (line.above.map Node.kind).head? line.label.kind
          (.node line.label.head (line.label.inline ++ more line.label elements)) =
        made line.label (elements.map fun element => draft (some line.label.kind)
          (line.label.kind.ofNested (line.above.map Node.kind).head? element.label.tag) element)) :
    draft none (.ofRoot layer element.label.tag) element = root.fold made := by
  have kind : root.label.kind = .ofRoot layer element.label.tag := by
    have tag : element.label = root.label.head := by
      rcases root with ⟨label, below⟩
      rw [written, Tree.fold_node]
      rfl
    obtain ⟨rest, top⟩ := Tree.lines_eq_cons root
    rw [tag]
    exact (classified ⟨[], root.label⟩ (top ▸ List.mem_cons_self)).placed
  rw [← kind, written]
  refine @draft_fold layer more made root [] (fun line inside => ?_) fun line inside => ?_
  · rw [List.append_nil]
    exact classified line inside
  · rw [List.append_nil]
    exact each line inside

/-- **A tree of classified nodes comes back** when it is written out and drafted. -/
theorem draft_toElement_root
    (classified : ∀ line ∈ root.lines,
      Classified Kind.SetsApart layer (line.above.map Node.kind) line.label.toDraft) :
    draft none (.ofRoot layer root.toElement.label.tag) root.toElement = root.map Node.toDraft :=
  @draft_fold_root layer root (fun _ elements => elements) (fun node => .node node.toDraft) _ rfl
    classified fun line inside _ apart =>
      draft_node_of_apart (classified line inside).inline apart _ _

/-- Nodes that come from an element are classified. -/
theorem classified_of_drafted {element : Element}
    (drafted : root.map Node.toDraft = draft none (.ofRoot layer element.label.tag) element) :
    ∀ line ∈ root.lines,
      Classified Kind.SetsApart layer (line.above.map Node.kind) line.label.toDraft := by
  intro line inside
  have listed : line.map Node.toDraft ∈
      (draft none (.ofRoot layer element.label.tag) element).lines := by
    rw [← drafted, Tree.lines_map]
    exact List.mem_map_of_mem inside
  have found := @classified_of_mem_draft Kind.SetsApart layer (fun _ _ apart => apart) element
    [] _ _ rfl listed
  rw [List.append_nil, Tree.Line.map, List.map_map] at found
  exact found

end Root

namespace Catalog

variable {admits : Kind → String → Prop}

/-- All nodes have the kinds of their places. -/
def Classified (admits : Kind → String → Prop) (catalog : Catalog) : Prop :=
  ∀ row ∈ catalog.rows,
    EntityModel.Classified admits row.layer (row.above.map Node.kind) row.node.toDraft

theorem classified_empty : empty.Classified admits :=
  fun _ member => absurd member List.not_mem_nil

namespace Classified

variable {before after : Catalog} (classified : before.Classified admits)

include classified

theorem of_subset (fewer : after.rows ⊆ before.rows) : after.Classified admits :=
  fun row member => classified row (fewer member)

/-- Kinds, tags and inline children are all that counts. -/
theorem reworked {f : Node → Node} (reworked : Reworked f before after)
    (kinds : ∀ node, (f node).kind = node.kind) (tags : ∀ node, (f node).head.tag = node.head.tag)
    (inlines : ∀ node, (f node).inline = node.inline) : after.Classified admits := by
  intro row member
  obtain ⟨earlier, inside, rfl⟩ := reworked.mem_rows.mp member
  obtain ⟨inline, placed⟩ := classified earlier inside
  have above : (earlier.map f).above.map Node.kind = earlier.above.map Node.kind := by
    show (earlier.above.map f).map Node.kind = _
    rw [List.map_map]
    exact List.map_congr_left fun node _ => kinds node
  rw [above]
  refine ⟨?_, ?_⟩
  · intro element kept
    show (f earlier.node).kind.absorbs _ = true
    rw [kinds]
    exact inline element (show element ∈ earlier.node.inline from inlines earlier.node ▸ kept)
  · show Placed admits earlier.layer _ (f earlier.node).kind (f earlier.node).head.tag
    rw [kinds, tags]
    exact placed

theorem inPlace {f : Node → Node} (reworked : Reworked f before after) (inPlace : InPlace f) :
    after.Classified admits :=
  classified.reworked reworked inPlace.sameKind
    (fun node => congrArg Head.tag (inPlace.sameHead node)) inPlace.sameInline

/-- An element that is planted where its kind belongs. -/
theorem grown (apart : ∀ kind tag, Kind.SetsApart kind tag → admits kind tag) {layer : Layer}
    {upper : List Node} {kind : Kind} {element : Element}
    (placed : Placed admits layer (upper.map Node.kind) kind element.label.tag)
    (grown : Grown (draft (upper.map Node.kind).head? kind element) layer upper before after) :
    after.Classified admits := by
  intro row member
  rcases grown.mem_rows.mp member with old | new
  · exact classified row old
  · obtain ⟨line, planted, rfl⟩ := List.mem_map.mp new
    rw [plant, Tree.lines_map] at planted
    obtain ⟨numbered, inside, rfl⟩ := List.mem_map.mp planted
    have drafted : numbered.map Prod.snd ∈ (draft (upper.map Node.kind).head? kind element).lines := by
      rw [← Tree.map_snd_number before.nextNode (draft _ kind element), Tree.lines_map]
      exact List.mem_map_of_mem inside
    have found := classified_of_mem_draft apart element placed drafted
    have above : ((numbered.above.map fun pair => Node.ofDraft pair.1 pair.2) ++ upper).map Node.kind =
        (numbered.above.map Prod.snd).map Draft.kind ++ upper.map Node.kind := by
      rw [List.map_append, List.map_map, List.map_map]
      rfl
    show EntityModel.Classified admits layer
      (((numbered.above.map fun pair => Node.ofDraft pair.1 pair.2) ++ upper).map Node.kind)
      numbered.label.2
    rw [above]
    exact found

end Classified

end Catalog

end EntityModel
