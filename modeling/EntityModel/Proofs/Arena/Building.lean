import EntityModel.Proofs.Arena.Basic
import EntityModel.Proofs.Catalog.Growth

/-
**Building a tree in the arena, slot by slot.**

The nodes of a new tree get consecutive slots in document order, the kinds that drafting gives them,
and links that are those of the tree.

* `Tree.planted` — a draft with numbers, as a catalog plants it.
* `Cell.ofLink` — the slot of a link of a tree; `slotsBelow` — the slots of a whole tree.
* `build_eq` — **building adds the slots of the planted tree at the end**, and nothing else.
-/

namespace EntityModel

/-! ### Planted trees -/

namespace Tree

/-- The nodes of a draft, numbered in document order from `next` on. -/
def planted (next : Nat) (draft : Tree Draft) : Tree Node :=
  (draft.number next).map fun (number, draft) => .ofDraft number draft

/-- The nodes of several drafts, numbered one after the other. -/
def plantedAll (next : Nat) (drafts : List (Tree Draft)) : List (Tree Node) :=
  (numberFromAll next drafts).1.map (Tree.map fun (number, draft) => .ofDraft number draft)

theorem planted_node (next : Nat) (draft : Draft) (drafts : List (Tree Draft)) :
    planted next (.node draft drafts) =
      .node (.ofDraft next draft) (plantedAll (next + 1) drafts) := by
  unfold planted number
  rw [numberFrom]
  simp only
  rw [map_node]
  rfl

theorem plantedAll_cons (next : Nat) (draft : Tree Draft) (drafts : List (Tree Draft)) :
    plantedAll next (draft :: drafts) =
      planted next draft :: plantedAll (next + draft.size) drafts := by
  unfold plantedAll
  rw [numberFromAll]
  simp only
  rw [List.map_cons, numberFrom_snd]
  rfl

theorem mem_plantedAll {tree : Tree Node} {drafts : List (Tree Draft)} : ∀ {next : Nat},
    tree ∈ plantedAll next drafts → ∃ draft ∈ drafts, ∃ later, next ≤ later ∧
      tree = planted later draft := by
  induction drafts with
  | nil => exact fun member => absurd member List.not_mem_nil
  | cons draft drafts ih =>
    intro next member
    rw [plantedAll_cons] at member
    rcases List.mem_cons.mp member with rfl | others
    · exact ⟨draft, List.mem_cons_self, next, Nat.le_refl _, rfl⟩
    · obtain ⟨other, listed, later, behind, same⟩ := ih others
      exact ⟨other, List.mem_cons_of_mem _ listed, later, Nat.le_of_add_right_le behind, same⟩

theorem id_label_planted (next : Nat) (draft : Tree Draft) : (planted next draft).label.id = ⟨next⟩ := by
  rcases draft with ⟨draft, drafts⟩
  rw [planted_node]
  rfl

theorem ids_planted (next : Nat) (draft : Tree Draft) :
    (planted next draft).labels.map Node.id = (List.range' next draft.size).map NodeId.mk := by
  rw [planted, labels_map, List.map_map, ← fst_labels_number, List.map_map]
  rfl

end Tree

/-! ### Slots of a tree -/

/-- The slot of a link of a tree that stands below `upper`. -/
def Cell.ofLink (document : DocumentId) (upper : Option NodeId) (link : Tree.Link Node) : Cell :=
  ⟨link.label, document, (link.above.head?.map Node.id).or upper, link.children.map Node.id⟩

/-- A link below the labels of a line has the end of the line above it, or what it had. -/
theorem Cell.ofLink_below (document : DocumentId) (upper : Option NodeId) (line : Tree.Line Node)
    (link : Tree.Link Node) : ofLink document upper (link.below line.whole) =
      ofLink document (some line.label.id) link := by
  have nearest : ((link.above ++ line.label :: line.above).head?.map Node.id).or upper =
      (link.above.head?.map Node.id).or (some line.label.id) := by
    cases link.above with
    | nil => rfl
    | cons parent above => rfl
  show (⟨link.label, document, ((link.above ++ line.label :: line.above).head?.map Node.id).or upper,
    _⟩ : Cell) = _
  rw [nearest]
  rfl

/-- The slots of a tree that stands below `upper`, in document order. -/
def Tree.slotsBelow (document : DocumentId) (upper : Option NodeId) (tree : Tree Node) : List Cell :=
  tree.links.map (Cell.ofLink document upper)

theorem Tree.slotsBelow_node (document : DocumentId) (upper : Option NodeId) (node : Node)
    (children : List (Tree Node)) : (Tree.node node children).slotsBelow document upper =
      ⟨node, document, upper, children.map fun child => child.label.id⟩ ::
        children.flatMap (slotsBelow document (some node.id)) := by
  unfold slotsBelow
  rw [links_node, List.map_cons, List.map_map, List.map_flatMap]
  congr 1
  · unfold Cell.ofLink
    simp only [List.map_map, List.head?_nil, Option.map_none, Option.none_or]
    rfl
  · refine List.flatMap_congr fun child _ => List.map_congr_left fun link _ => ?_
    exact Cell.ofLink_below document upper ⟨[], node⟩ link

/-- The new slots have consecutive numbers. -/
theorem Tree.ids_slotsBelow (document : DocumentId) (upper : Option NodeId) (next : Nat)
    (draft : Tree Draft) : (((planted next draft).slotsBelow document upper).map fun cell =>
      cell.node.id) = (List.range' next draft.size).map NodeId.mk := by
  rw [← ids_planted, ← map_label_links, slotsBelow, List.map_map, List.map_map]
  rfl

theorem Tree.length_slotsBelow (document : DocumentId) (upper : Option NodeId) (next : Nat)
    (draft : Tree Draft) : ((planted next draft).slotsBelow document upper).length = draft.size := by
  have lengths := congrArg List.length (ids_slotsBelow document upper next draft)
  rw [List.length_map, List.length_map, List.length_range'] at lengths
  exact lengths

/-- A new slot is where its number says. -/
theorem Tree.getElem?_slotsBelow {document : DocumentId} {upper : Option NodeId} {next : Nat}
    {draft : Tree Draft} {index : Nat} {cell : Cell} :
    ((planted next draft).slotsBelow document upper)[index]? = some cell ↔
      cell ∈ (planted next draft).slotsBelow document upper ∧ cell.node.id = ⟨next + index⟩ := by
  have numbers := ids_slotsBelow document upper next draft
  have number : ∀ {place : Nat} {held : Cell},
      ((planted next draft).slotsBelow document upper)[place]? = some held →
        held.node.id = ⟨next + place⟩ := by
    intro place held found
    have same := congrArg (·[place]?) numbers
    simp only [List.getElem?_map, found, Option.map_some] at same
    obtain ⟨given, listed, named⟩ := Option.map_eq_some_iff.mp same.symm
    obtain ⟨low, rfl⟩ := List.getElem?_eq_some_iff.mp listed
    rw [← named, List.getElem_range', Nat.one_mul]
  constructor
  · exact fun found => ⟨List.mem_of_getElem? found, number found⟩
  · rintro ⟨member, own⟩
    obtain ⟨place, found⟩ := List.mem_iff_getElem?.mp member
    have same : next + place = next + index :=
      congrArg NodeId.number ((number found).symm.trans own)
    rw [← Nat.add_left_cancel same]
    exact found

/-- In a planted tree a parent has a smaller number than its children. -/
theorem Tree.parent_lt_slotsBelow {document : DocumentId} (draft : Tree Draft) :
    ∀ {next : Nat} {upper : Option NodeId}, (∀ known, upper = some known → known.number < next) →
      ∀ cell ∈ (planted next draft).slotsBelow document upper, ∀ parent,
        cell.parent = some parent → parent.number < cell.node.id.number := by
  induction draft using induct with
  | step draft drafts ih =>
    intro next upper old cell member parent above
    rw [planted_node, slotsBelow_node] at member
    rcases List.mem_cons.mp member with rfl | below
    · exact old parent above
    · obtain ⟨child, listed, inside⟩ := List.mem_flatMap.mp below
      obtain ⟨form, known, later, behind, rfl⟩ := mem_plantedAll listed
      refine ih form known (fun other same => ?_) cell inside parent above
      rw [← Option.some.inj same]
      exact behind

namespace Arena

/-! ### Building -/

theorem kind?_extend {arena : Arena} (cells : List Cell) {id : Option NodeId}
    (old : ∀ known, id = some known → known.number < arena.slots.length) :
    (arena.extend cells).kind? id = arena.kind? id := by
  cases id with
  | none => rfl
  | some id =>
    unfold kind?
    rw [Option.bind_some, Option.bind_some, cell?_extend_of_lt cells (old id rfl)]

/-- A node in whose slot the kind and the place are those of a node with children to come. -/
structure Hosts (arena : Arena) (id : NodeId) (outer : Option Kind) (kind : Kind) : Prop where
  cell : ∃ cell, arena.cell? id = some cell ∧ cell.node.kind = kind ∧ arena.kind? cell.parent = outer ∧
    ∀ parent, cell.parent = some parent → parent.number < arena.slots.length

theorem Hosts.extend {arena : Arena} {id : NodeId} {outer : Option Kind} {kind : Kind}
    (hosts : arena.Hosts id outer kind) (cells : List Cell) :
    (arena.extend cells).Hosts id outer kind := by
  obtain ⟨cell, found, own, above, old⟩ := hosts.cell
  refine ⟨cell, ?_, own, ?_, fun parent same => ?_⟩
  · rw [cell?_extend_of_lt cells (lt_of_cell? found), found]
  · rw [kind?_extend cells old, above]
  · rw [length_extend]
    exact Nat.lt_of_lt_of_le (old parent same) (Nat.le_add_right _ _)

theorem Hosts.kind? {arena : Arena} {id : NodeId} {outer : Option Kind} {kind : Kind}
    (hosts : arena.Hosts id outer kind) : arena.kind? (some id) = some kind := by
  obtain ⟨cell, found, own, _⟩ := hosts.cell
  unfold Arena.kind?
  rw [Option.bind_some, found, Option.map_some, own]

theorem Hosts.kindOf {arena : Arena} {id : NodeId} {outer : Option Kind} {kind : Kind}
    (hosts : arena.Hosts id outer kind) (document : DocumentId) (tag : String) :
    arena.kindOf document (some id) tag = kind.ofNested outer tag := by
  obtain ⟨cell, found, own, above, _⟩ := hosts.cell
  unfold Arena.kindOf
  rw [Option.bind_some, found]
  simp only
  rw [own, above]

/-- What building an element comes to. -/
def BuildsPlanted (document : DocumentId) (element : Element) : Prop :=
  ∀ (arena : Arena) (parent : Option NodeId),
    (∀ known, parent = some known → known.number < arena.slots.length) →
    arena.build document parent element =
      (arena.extend ((Tree.planted arena.slots.length (draft (arena.kind? parent)
        (arena.kindOf document parent element.label.tag) element)).slotsBelow document parent),
        ⟨arena.slots.length⟩)

theorem buildAll_eq (document : DocumentId) {children : List Element}
    (each : ∀ child ∈ children, BuildsPlanted document child) : ∀ {arena : Arena} {id : NodeId}
    {outer : Option Kind} {kind : Kind}, arena.Hosts id outer kind →
    arena.buildAll document id kind children =
      (arena.extend ((Tree.plantedAll arena.slots.length (drafts outer kind children)).flatMap
          (Tree.slotsBelow document (some id))),
        (Tree.plantedAll arena.slots.length (drafts outer kind children)).map
          fun child => child.label.id) := by
  induction children with
  | nil =>
    intro arena id outer kind _
    rw [buildAll, drafts]
    exact congrArg (·, []) (extend_nil arena).symm
  | cons child children ih =>
    intro arena id outer kind hosts
    have later := @ih fun other member => each other (List.mem_cons_of_mem _ member)
    rw [buildAll, drafts]
    cases absorbed : kind.absorbs child.label.tag with
    | true =>
      rw [if_pos rfl, if_pos rfl]
      exact later hosts
    | false =>
      obtain ⟨cell, found, _⟩ := hosts.cell
      have first := each child List.mem_cons_self arena (some id) fun known same =>
        Option.some.inj same ▸ lt_of_cell? found
      rw [hosts.kind?, hosts.kindOf] at first
      rw [if_neg Bool.false_ne_true, if_neg Bool.false_ne_true]
      simp only
      rw [first, later (hosts.extend _), length_extend, Tree.length_slotsBelow, extend_extend,
        Tree.plantedAll_cons, List.flatMap_cons, List.map_cons, Tree.id_label_planted]

/-- **Building adds the slots of the planted tree at the end.** -/
theorem build_eq (document : DocumentId) (element : Element) : BuildsPlanted document element := by
  induction element using Tree.induct with
  | step head children ih =>
    intro arena parent old
    rw [build]
    simp only
    generalize same : arena.kindOf document parent head.tag = kind
    generalize form : (⟨kind, head, children.filter fun child => kind.absorbs child.label.tag⟩ : Draft) =
      own
    have begun : (arena.extend [⟨.ofDraft arena.slots.length own, document, parent, []⟩]).Hosts
        ⟨arena.slots.length⟩ (arena.kind? parent) kind := by
      refine ⟨⟨.ofDraft arena.slots.length own, document, parent, []⟩, ?_, ?_, kind?_extend _ old,
        fun known here => ?_⟩
      · rw [cell?_extend_of_le _ (Nat.le_refl _), Nat.sub_self]
        rfl
      · rw [← form]
        rfl
      · rw [length_extend]
        exact Nat.lt_of_lt_of_le (old known here) (Nat.le_add_right _ _)
    rw [buildAll_eq document ih begun, length_extend, extend_extend, List.singleton_append,
      modify_extend]
    show _ = (arena.extend ((Tree.planted arena.slots.length (draft (arena.kind? parent)
      (arena.kindOf document parent head.tag) (.node head children))).slotsBelow document parent), _)
    rw [same, draft, form, Tree.planted_node, Tree.slotsBelow_node]
    rfl

end Arena

end EntityModel
