import EntityModel.Proofs.Tree.Links
import EntityModel.Proofs.Workspace.Classified

/-
**Inserting an element and loading it.**

Loading keeps a child inside the element above it where that element's kind absorbs its tag.
Inserting makes a node of it in every case, and where it would have been absorbed a misplaced one.

* `Tree.Loads` — the tree has the nodes that loading makes of an element.
* `Tree.toElementWith` — what a tree is written as with an element more below one of its nodes.
* `Loads.insertAt`, `Loads.kept` — what loading makes of that: the tree with a subtree more, or the
  same tree with the element inside the node; `Loads.of_insertAt` — the converse of the first.
* `Insertion` — what inserting makes of a document, compared with loading it.
* `inserted_as_loaded` — **inserting comes to the same as loading just where the element is a node
  of its own**, in every state that a history leads to.
-/

namespace EntityModel

/-- The tree has the nodes that loading a document of the layer makes of the element. -/
def Tree.Loads (tree : Tree Node) (layer : Layer) (element : Element) : Prop :=
  tree.map Node.toDraft = draft none (.ofRoot layer element.label.tag) element

/-- The element that a tree of nodes is written as when one more stands below the node `parent`, at
the index among the children that are nodes of their own. -/
def Tree.toElementWith (tree : Tree Node) (parent : NodeId) (index : Option Nat)
    (element : Element) : Element :=
  tree.fold fun node elements => .node node.head
    (node.inline ++
      if node.id = parent then Tree.insertInto index element elements else elements)

/-- The node with the element among those kept as part of it. -/
def Node.keep (element : Element) (node : Node) : Node :=
  { node with inline := node.inline ++ [element] }

/-- Nothing that a kind absorbs is a child it may have. -/
theorem Kind.ofNested_of_absorbs {kind : Kind} {tag : String} (absorbed : kind.absorbs tag = true)
    (outer : Option Kind) : kind.ofNested outer tag = .misplaced := by
  cases kind with
  | documentation =>
    have tags : tag = "Summary" ∨ tag = "LongDescription" := by simpa [absorbs] using absorbed
    rcases tags with rfl | rfl
    · rfl
    · rfl
  | designerProperty =>
    obtain rfl : tag = "Value" := by simpa [absorbs] using absorbed
    rfl
  | _ => exact nomatch absorbed

/-! ### Trees -/

namespace Tree

variable {layer : Layer} {tree : Tree Node} {parent : NodeId} {index : Option Nat}
  {element : Element}

theorem loads_of_classified
    (classified : ∀ line ∈ tree.lines,
      Classified Kind.SetsApart layer (line.above.map Node.kind) line.label.toDraft) :
    tree.Loads layer tree.toElement :=
  (draft_toElement_root classified).symm

namespace Loads

/-- **An element that is a node of its own** is loaded as a subtree more. -/
theorem insertAt (loads : tree.Loads layer tree.toElement) {planted : Tree Node}
    (below : ∀ line ∈ tree.lines, line.label.id = parent →
      line.label.kind.SetsApart element.label.tag ∧
        planted.map Node.toDraft = draft (some line.label.kind)
          (line.label.kind.ofNested (line.above.map Node.kind).head? element.label.tag) element) :
    (Tree.insertAt (fun node => node.id = parent) index planted tree).Loads layer
      (tree.toElementWith parent index element) := by
  have classified := classified_of_drafted loads
  refine (map_insertAt _ _ _ _ _).trans (Eq.symm (draft_fold_root rfl classified ?_))
  intro line inside elements apart
  have inlined : ∀ other ∈ line.label.inline, line.label.kind.absorbs other.label.tag = true :=
    (classified line inside).inline
  by_cases here : line.label.id = parent
  · obtain ⟨own, drafted⟩ := below line inside here
    have each : ∀ other ∈ insertInto index element elements,
        line.label.kind.SetsApart other.label.tag := by
      intro other among
      rcases mem_insertInto.mp among with rfl | old
      · exact own
      · exact apart other old
    rw [if_pos here, if_pos (decide_eq_true here), drafted, draft_node_of_apart inlined each,
      insertInto_map]
    rfl
  · rw [if_neg here, if_neg (by simpa using here)]
    exact draft_node_of_apart inlined apart _ _

/-- **An element that is absorbed** is loaded into the node above it. -/
theorem kept (loads : tree.Loads layer tree.toElement)
    (above : ∀ line ∈ tree.lines, line.label.id = parent →
      line.label.kind.absorbs element.label.tag = true) :
    (tree.map (onlyAt parent (Node.keep element))).Loads layer
      (tree.toElementWith parent index element) := by
  have classified := classified_of_drafted loads
  refine (map_map _ _ tree).trans (Eq.symm (draft_fold_root rfl classified ?_))
  intro line inside elements apart
  have inlined : ∀ other ∈ line.label.inline, line.label.kind.absorbs other.label.tag = true :=
    (classified line inside).inline
  by_cases here : line.label.id = parent
  · have own := above line inside here
    have single : (insertInto index element elements).filter
        (fun other => line.label.kind.absorbs other.label.tag) = [element] := by
      refine List.perm_singleton.mp (((insertInto_perm index element elements).filter _).trans ?_)
      rw [List.filter_cons_of_pos (by exact own), filter_absorbs_of_apart apart]
    have others : (insertInto index element elements).filter
        (fun other => !line.label.kind.absorbs other.label.tag) = elements := by
      rw [filter_insertInto_of_neg (by rw [own]; rfl), filter_not_absorbs_of_apart apart]
    rw [if_pos here, draft_node_append inlined, single, others, Function.comp_apply, onlyAt,
      if_pos here]
    rfl
  · rw [if_neg here, draft_node_of_apart inlined apart, Function.comp_apply, onlyAt, if_neg here]
    rfl

/-- What is loaded with a subtree more was loaded before, and the subtree is one of its own. -/
theorem of_insertAt {planted : Tree Node}
    (loads : (Tree.insertAt (fun node => node.id = parent) index planted tree).Loads layer
      element) :
    tree.Loads layer tree.toElement ∧ ∀ line ∈ tree.lines, line.label.id = parent →
      line.label.kind.SetsApart planted.label.head.tag := by
  have classified := classified_of_drafted loads
  refine ⟨loads_of_classified fun line inside => ?_, fun line inside here => ?_⟩
  · exact classified line ((lines_sublist_insertAt _ index planted tree).subset inside)
  · -- The root of the subtree stands right below the node, so it is admitted there.
    obtain ⟨rest, top⟩ := lines_eq_cons planted
    have grafted : (⟨[], planted.label⟩ : Line Node).below line.whole ∈
        (Tree.insertAt (fun node => node.id = parent) index planted tree).lines := by
      refine (lines_insertAt_perm _ index planted tree).mem_iff.mpr (List.mem_append_right _ ?_)
      refine List.mem_flatMap.mpr ⟨line, List.mem_filter.mpr ⟨inside, decide_eq_true here⟩, ?_⟩
      exact List.mem_map_of_mem (top ▸ List.mem_cons_self)
    exact (classified _ grafted).placed.1

end Loads

end Tree

/-! ### Documents -/

/-- The line with the number of a node is the line of its place. -/
theorem Catalog.Numbered.line_eq_of_id {catalog : Catalog} (numbered : catalog.Numbered)
    {site : Site} (member : site ∈ catalog.sites) {root : Tree Node}
    (rooted : site.document.root = some root) {line : Tree.Line Node} (inside : line ∈ root.lines)
    (same : line.label.id = site.id) : line = site.spot.line := by
  have held := (Catalog.exists_root_of_mem_sites member).1
  have rows : Row.ofLine site.document.layer line = site.row :=
    numbered.eq_of_id (Catalog.row_of_line held rooted inside) (Catalog.row_mem_rows member) same
  exact (Tree.Line.mk.injEq ..).mpr ⟨congrArg Row.above rows, congrArg Row.node rows⟩

/-- A document of classified nodes is what loading makes of it. -/
theorem Catalog.Classified.loads {catalog : Catalog}
    (classified : catalog.Classified Kind.SetsApart) {document : Document}
    (held : document ∈ catalog.documents) {root : Tree Node}
    (rooted : document.root = some root) : root.Loads document.layer root.toElement :=
  Tree.loads_of_classified fun _ inside => classified _ (Catalog.row_of_line held rooted inside)

/-- What inserting an element below the node at a place makes of the tree of the document. -/
structure Insertion (site : Site) (index : Option Nat) (element : Element) (child : NodeId)
    (before after : Tree Node) : Prop where
  /-- The element becomes a child of the node with all that is in it, each with the kind of its
  place. Nothing else changes. -/
  planted : ∃ tree : Tree Node, tree.label.id = child ∧
    tree.map Node.toDraft = draft (some site.node.kind)
      (site.node.kind.ofNested (site.ancestors.head?.map Node.kind) element.label.tag) element ∧
    after = Tree.insertAt (fun node => node.id = site.id) index tree before
  /-- These are the nodes of the document loaded with the element below the node, just where those
  before were the nodes of the document and the element is not absorbed. -/
  alike : after.Loads site.document.layer (before.toElementWith site.id index element) ↔
    before.Loads site.document.layer before.toElement ∧
      site.node.kind.absorbs element.label.tag = false
  /-- An element that is absorbed would be loaded into the node. -/
  kept : site.node.kind.absorbs element.label.tag = true →
    before.Loads site.document.layer before.toElement →
      (before.map (onlyAt site.id (Node.keep element))).Loads site.document.layer
        (before.toElementWith site.id index element)
  /-- It becomes a misplaced node. -/
  misplaced : site.node.kind.absorbs element.label.tag = true →
    site.node.kind.ofNested (site.ancestors.head?.map Node.kind) element.label.tag = .misplaced

/-- **Planting an element where it is inserted** does this to the tree of the document. -/
theorem Catalog.Numbered.insertion {catalog : Catalog} {site : Site} {root : Tree Node}
    (numbered : catalog.Numbered) (member : site ∈ catalog.sites)
    (rooted : site.document.root = some root) (index : Option Nat) (element : Element)
    {planted : Tree Node}
    (drafted : planted.map Node.toDraft = draft (some site.node.kind)
      (site.node.kind.ofNested (site.ancestors.head?.map Node.kind) element.label.tag) element) :
    Insertion site index element planted.label.id root
      (Tree.insertAt (fun node => node.id = site.id) index planted root) := by
  have here : ∀ line ∈ root.lines, line.label.id = site.id →
      line.label = site.node ∧
        (line.above.map Node.kind).head? = site.ancestors.head?.map Node.kind := by
    intro line inside same
    obtain rfl := numbered.line_eq_of_id member rooted inside same
    exact ⟨rfl, List.head?_map⟩
  -- The lines with the number of the node are all its own, and there is one.
  have own : ∃ line ∈ root.lines, line.label.id = site.id := by
    obtain ⟨_, other, again, placed⟩ := Catalog.exists_root_of_mem_sites member
    obtain rfl : root = other := Option.some.inj (rooted.symm.trans again)
    exact ⟨site.spot.line, Tree.map_line_spots root ▸ List.mem_map_of_mem placed, rfl⟩
  have tag : planted.label.head.tag = element.label.tag := by
    have labels := congrArg Tree.label drafted
    rw [Tree.label_map] at labels
    rcases element with ⟨head, children⟩
    exact congrArg (fun form => form.head.tag) labels
  refine ⟨⟨planted, rfl, drafted, rfl⟩, ⟨fun loads => ?_, fun ⟨loads, apart⟩ => ?_⟩,
    fun absorbed loads => ?_, fun absorbed => Kind.ofNested_of_absorbs absorbed _⟩
  · obtain ⟨loaded, apart⟩ := loads.of_insertAt
    obtain ⟨line, inside, same⟩ := own
    have found := apart line inside same
    rw [(here line inside same).1, tag] at found
    exact ⟨loaded, found⟩
  · refine loads.insertAt fun line inside same => ?_
    rw [(here line inside same).1, (here line inside same).2]
    exact ⟨apart, drafted⟩
  · refine loads.kept fun line inside same => ?_
    rw [(here line inside same).1]
    exact absorbed

/-- **Inserting an element comes to the same as loading it just where it is a node of its own**: in
every state that a history leads to, below every node that may be edited and at every index, it
succeeds, the nodes that were there stay as they are, and the element becomes a child of the node
with all that is in it. After a history that inserts nothing to be absorbed, the document was as
loading makes it. -/
theorem inserted_as_loaded {options : Options} {commands : List Command} {parent : NodeId}
    {site : Site}
    (editable : ((Workspace.ofOptions options).after commands).editable parent = .ok site)
    (index : Option Nat) (element : Element) :
    ∃ after child before grown,
      ((Workspace.ofOptions options).after commands).insertElement parent index element =
          .ok (after, child) ∧
        (∀ id node, ((Workspace.ofOptions options).after commands).catalog.node? id = some node →
          after.catalog.node? id = some node) ∧
        site.document.root = some before ∧
        after.catalog.document? site.document.id = some { site.document with root := some grown } ∧
        Insertion site index element child before grown ∧
        ((Workspace.ofOptions options).absorbsNone commands = true →
          before.Loads site.document.layer before.toElement) := by
  have coherent := Workspace.coherent_after options commands
  have alone := @Workspace.classified_after options commands
  generalize (Workspace.ofOptions options).after commands = workspace at *
  obtain ⟨located, _⟩ := Workspace.editable_eq_ok.mp editable
  obtain ⟨member, _⟩ := Catalog.mem_sites_of_site? located
  obtain ⟨held, before, rooted, _⟩ := Catalog.exists_root_of_mem_sites member
  have grown := Catalog.grown_insertUnder coherent.numbered member index element
  let planted := workspace.catalog.plant (draft (some site.node.kind)
    (site.node.kind.ofNested (site.ancestors.head?.map Node.kind) element.label.tag) element)
  let root := Tree.insertAt (fun node => node.id = site.id) index planted before
  have found : (workspace.catalog.insertUnder site index element).1.document? site.document.id =
      some { site.document with root := some root } := by
    have inside : { site.document with root := some root } ∈
        (workspace.catalog.insertUnder site index element).1.documents := by
      refine List.mem_map.mpr ⟨site.document, held, ?_⟩
      rw [rooted]
      rfl
    exact (grown.numbered_after coherent.numbered).document?_of_mem inside
  exact ⟨workspace.insertAtSite site index element, planted.label.id, before, root,
    bind_eq_ok.mpr ⟨site, editable, rfl⟩,
    fun id node => grown.node?_of_old coherent.numbered, rooted, found,
    coherent.numbered.insertion member rooted index element (Catalog.toDraft_plant _ _),
    fun history => (alone history).loads held rooted⟩

/-- A type with a documentation is loaded. -/
def loadedType : List Command :=
  [.load "shop.edmx" .conceptual
    (.node { Head.ofTag "Schema" with attributes := .ofList [("Namespace", "Shop")] }
      [.node { Head.ofTag "EntityType" with attributes := .ofList [("Name", "Item")] }
        [.node (.ofTag "Documentation") [.node (.ofTag "Summary") []]]]),
    .commit]

/-- A property with a documentation, the summary of which is kept inside it. -/
def documentedProperty : Element :=
  .node { Head.ofTag "Property" with attributes := .ofList [("Name", "Code"), ("Type", "String")] }
    [.node (.ofTag "Documentation") [.node (.ofTag "Remark") [], .node (.ofTag "Summary") []]]

/-- The property is inserted before the documentation of the type, as it would have been loaded. -/
theorem inserted_as_loaded_documentedProperty : ∃ site after child before grown,
    ((Workspace.ofOptions .standard).after loadedType).editable ⟨1⟩ = .ok site ∧
      ((Workspace.ofOptions .standard).after loadedType).insertElement ⟨1⟩ (some 0)
        documentedProperty = .ok (after, child) ∧
      (∀ id node, ((Workspace.ofOptions .standard).after loadedType).catalog.node? id = some node →
        after.catalog.node? id = some node) ∧
      site.document.root = some before ∧
      after.catalog.document? site.document.id = some { site.document with root := some grown } ∧
      Insertion site (some 0) documentedProperty child before grown ∧
      grown.Loads site.document.layer
        (before.toElementWith site.id (some 0) documentedProperty) := by
  have placed : ∃ site ∈ ((Workspace.ofOptions .standard).after loadedType).catalog.site? ⟨1⟩,
      site.node.kind = .entityType := by decide +kernel
  have stays : ((Workspace.ofOptions .standard).after loadedType).isPendingDelete ⟨1⟩ = false := by
    decide +kernel
  have history : (Workspace.ofOptions .standard).absorbsNone loadedType = true := by decide +kernel
  obtain ⟨site, located, kind⟩ := placed
  have editable := Workspace.editable_eq_ok.mpr ⟨located, stays⟩
  obtain ⟨after, child, before, grown, done, nodes, rooted, found, insertion, loads⟩ :=
    inserted_as_loaded editable (some 0) documentedProperty
  have apart : site.node.kind.absorbs documentedProperty.label.tag = false := by
    rw [kind]
    rfl
  exact ⟨site, after, child, before, grown, editable, done, nodes, rooted, found, insertion,
    insertion.alike.mpr ⟨loads history, apart⟩⟩

end EntityModel
