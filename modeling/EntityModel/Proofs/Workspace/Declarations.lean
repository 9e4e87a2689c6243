import EntityModel.Proofs.Catalog.Classified
import EntityModel.Proofs.Naming.Surroundings
import EntityModel.Proofs.Tree.Mapping
import EntityModel.Proofs.Workspace.Current

/-
**What a document declares, read off its elements.**

Once a document is committed each of its nodes has the symbol that it declares. That symbol rests on
the kinds, the local names and the attributes of the node and of those above it. Texts, places and the
layer of the document have no part in it.

* `Document.declarations` — the kinds and the symbols of the nodes of a document.
* `Tree.declarations` — the same of classified elements that are in no catalog.
* `declarations_draft` — elements that differ in texts and places alone declare the same.
* `Document.declarations_eq` — **a document whose contents are read and whose nodes are named declares
  what its elements do.**
-/

namespace EntityModel

/-- The kinds and the symbols of the nodes, in document order. -/
def Document.declarations (document : Document) : List (Kind × Option Symbol) :=
  document.rows.map fun row => (row.node.kind, row.node.symbol)

/-! ### Elements that differ in texts and places -/

/-- The head without its text and its place. -/
def Head.bare (head : Head) : Head :=
  { head with text := none, span := none }

/-- The draft without texts and places. -/
def Draft.bare (draft : Draft) : Draft :=
  ⟨draft.kind, draft.head.bare, []⟩

/-- Elements are classified by their tags. -/
theorem bare_draft (element : Element) : ∀ (outer : Option Kind) (kind : Kind),
    (draft outer kind (element.map Head.bare)).map Draft.bare =
      (draft outer kind element).map Draft.bare := by
  induction element using Tree.induct with
  | step head children ih =>
    intro outer kind
    have tags : ∀ child : Element, (child.map Head.bare).label.tag = child.label.tag := by
      intro child
      rw [Tree.label_map]
      rfl
    have kept : (children.map (Tree.map Head.bare)).filter
        (fun child => !kind.absorbs child.label.tag) =
          (children.filter fun child => !kind.absorbs child.label.tag).map (Tree.map Head.bare) := by
      rw [List.filter_map]
      congr 2
      funext child
      rw [Function.comp_apply, tags]
    rw [Tree.map_node, draft, draft, drafts_eq, drafts_eq, kept, Tree.map_node, Tree.map_node,
      List.map_map, List.map_map, List.map_map]
    congr 1
    refine List.map_congr_left fun child member => ?_
    rw [Function.comp_apply, Function.comp_apply, Function.comp_apply, tags]
    exact ih child (List.mem_of_mem_filter member) _ _

/-! ### Declarations of elements -/

namespace Draft

/-- The name that is written. -/
def name (draft : Draft) : Option String :=
  draft.kind.nameAttribute?.map fun key => Text.trim ((draft.head.attribute? key).getD "")

/-- A node with the kind, the local name and the written name of the draft. -/
def named (draft : Draft) : Node :=
  ⟨⟨0⟩, draft.kind, .ofTag draft.head.tag, [], .unparsed, none, some ⟨draft.name, [], .plain⟩, []⟩

end Draft

/-- The kind of a draft and the symbol that it declares below those above it. -/
def Tree.Line.declaration (line : Tree.Line Draft) : Kind × Option Symbol :=
  (line.label.kind, line.label.named.declaredSymbol? (line.above.map Draft.named))

/-- The kinds and the symbols of classified elements, in document order. -/
def Tree.declarations (tree : Tree Draft) : List (Kind × Option Symbol) :=
  tree.lines.map Tree.Line.declaration

theorem declarations_bare (tree : Tree Draft) :
    (tree.map Draft.bare).declarations = tree.declarations := by
  unfold Tree.declarations
  rw [Tree.lines_map, List.map_map]
  refine List.map_congr_left fun line _ => ?_
  rw [Function.comp_apply, Tree.Line.declaration, Tree.Line.map, List.map_map]
  rfl

/-- **Elements that differ in texts and places alone declare the same.** -/
theorem declarations_draft {element other : Element}
    (same : element.map Head.bare = other.map Head.bare) (outer : Option Kind) (kind : Kind) :
    (draft outer kind element).declarations = (draft outer kind other).declarations := by
  rw [← declarations_bare, ← bare_draft, same, bare_draft, declarations_bare]

/-! ### Declarations of nodes -/

/-- The symbol of a node rests on kinds, local names and declared names. -/
theorem declaredSymbol?_congr {f : Node → Node} {node : Node} {above : List Node}
    (kinds : ∀ other ∈ node :: above, (f other).kind = other.kind)
    (tags : ∀ other ∈ node :: above, (f other).head.tag = other.head.tag)
    (names : ∀ other ∈ node :: above, (f other).name = other.name) :
    (f node).declaredSymbol? (above.map f) = node.declaredSymbol? above := by
  have nearest : ∀ kind, nearest? (above.map f) kind = (nearest? above kind).map f :=
    nearest?_map_of_kind fun other inside => kinds other (List.mem_cons_of_mem _ inside)
  have member : ∀ {kind other}, nearest? above kind = some other → other ∈ node :: above :=
    fun found => List.mem_cons_of_mem _ (List.mem_of_find?_eq_some found)
  have nearestNames : ∀ kind, nearestName (above.map f) kind = nearestName above kind := by
    intro kind
    unfold nearestName
    rw [nearest]
    cases found : nearest? above kind with
    | none => rfl
    | some other => exact congrArg (Option.getD · "") (names other (member found))
  have sectionTag : ((nearest? (above.map f) .designerSection).map fun other => other.head.tag) =
      (nearest? above .designerSection).map fun other => other.head.tag := by
    rw [nearest]
    cases found : nearest? above .designerSection with
    | none => rfl
    | some other => exact congrArg some (tags other (member found))
  unfold Node.declaredSymbol? Node.symbolOfName?
  rw [names node List.mem_cons_self, kinds node List.mem_cons_self]
  simp only [nearestNames, sectionTag]

/-- **A document whose contents are read and whose nodes are named declares what its elements do.** -/
theorem Document.declarations_eq {document : Document} {root : Tree Node}
    (rooted : document.root = some root) (read : ∀ row ∈ document.rows, row.ContentRead)
    (named : ∀ row ∈ document.rows, row.node.symbol = row.declaredSymbol?) :
    document.declarations = (root.map Node.toDraft).declarations := by
  have rows := Document.rows_of_root rooted
  have names : ∀ line ∈ root.lines, ∀ node ∈ line.label :: line.above,
      node.toDraft.named.name = node.name := by
    intro line member node inside
    have label : node ∈ root.labels := Tree.mem_labels_of_mem_whole member inside
    rw [← Tree.map_label_lines] at label
    obtain ⟨own, listed, rfl⟩ := List.mem_map.mp label
    exact (read (Row.ofLine document.layer own) (rows ▸ List.mem_map_of_mem listed)).name.symm
  unfold Document.declarations Tree.declarations
  rw [Tree.lines_map, rows, List.map_map, List.map_map]
  refine List.map_congr_left fun line member => ?_
  have symbol := named (Row.ofLine document.layer line) (rows ▸ List.mem_map_of_mem member)
  have declared := @declaredSymbol?_congr (fun node => node.toDraft.named) line.label line.above
    (fun _ _ => rfl) (fun _ _ => rfl) (names line member)
  show (line.label.kind, line.label.symbol) = Tree.Line.declaration (line.map Node.toDraft)
  rw [Tree.Line.declaration, Tree.Line.map, List.map_map]
  exact congrArg (Prod.mk line.label.kind) (symbol.trans declared.symm)

end EntityModel
