import EntityModel.Proofs.Catalog.Changes
import EntityModel.Proofs.Catalog.Symbols
import EntityModel.Proofs.Tree.Mapping

/-
**What is written in a catalog.**

Reading, naming and resolving fill in what is known of the nodes; edits change what is written. The
written part of a catalog is a catalog of its own, in which nothing is known yet: every edit does to
it what it does to the catalog.

* `Node.written`, `Document.written`, `Catalog.written` — nodes, documents and catalogs without what is
  known of their nodes.
* `site?_written` — the places are the same.
* `written_addDocument`, `written_insertUnder`, `written_modify` — the edits.
* `documents_of_written` — a catalog is its written part with what is known of each node filled in.
-/

namespace EntityModel

/-- What is written of a node. -/
def Node.written (node : Node) : Node :=
  ⟨node.id, node.kind, node.head, node.inline, .unparsed, none, none, []⟩

/-- What is written of a document. -/
def Document.written (document : Document) : Document :=
  { document with root := document.root.map (Tree.map Node.written) }

/-- The place with what is written around it. -/
def Site.written (site : Site) : Site :=
  ⟨site.rank, site.document.written, site.spot.map Node.written⟩

namespace Catalog

/-- What is written in a catalog. -/
def written (catalog : Catalog) : Catalog :=
  ⟨catalog.documents.map Document.written, .empty, catalog.nextDocument, catalog.nextNode⟩

/-! ### Places -/

theorem sitesOf_written (rank : Nat) (document : Document) :
    sitesOf rank document.written = (sitesOf rank document).map Site.written := by
  rcases document with ⟨number, uri, layer, root⟩
  cases root with
  | none => rfl
  | some root =>
    show (root.map Node.written).spots.map _ = (root.spots.map _).map _
    rw [Tree.spots_map, List.map_map, List.map_map]
    rfl

theorem sites_written (catalog : Catalog) :
    catalog.written.sites = catalog.sites.map Site.written := by
  unfold sites written
  rw [List.zipIdx_map, List.map_map, List.map_flatten, List.map_map]
  congr 1
  refine List.map_congr_left fun ranked _ => ?_
  exact sitesOf_written ranked.2 ranked.1

theorem node_written (site : Site) : site.written.node = site.node.written :=
  Tree.label_map Node.written site.spot.tree

theorem id_written (site : Site) : site.written.id = site.id := by
  show site.written.node.id = _
  rw [node_written]
  rfl

theorem kind_written (site : Site) : site.written.node.kind = site.node.kind := by
  rw [node_written]
  rfl

theorem site?_written (catalog : Catalog) (id : NodeId) :
    catalog.written.site? id = (catalog.site? id).map Site.written := by
  unfold site?
  rw [sites_written, List.find?_map]
  congr 2
  funext site
  exact congrArg (fun other => decide (other = id)) (id_written site)

theorem contains_written (catalog : Catalog) (id : NodeId) :
    catalog.written.contains id = catalog.contains id := by
  unfold contains
  rw [site?_written, Option.isSome_map]

theorem rows_written (catalog : Catalog) :
    catalog.written.rows = catalog.rows.map (Row.map Node.written) := by
  rw [← map_row_sites, ← map_row_sites, sites_written, List.map_map, List.map_map]
  refine List.map_congr_left fun site _ => ?_
  show (⟨site.document.layer, site.spot.above.map Node.written,
    (site.spot.tree.map Node.written).label⟩ : Row) = _
  rw [Tree.label_map]
  rfl

/-! ### Edits -/

theorem frame_plant (catalog : Catalog) (draft : Tree Draft) :
    (catalog.plant draft).map Node.written = catalog.plant draft := by
  unfold plant
  rw [Tree.map_map]
  rfl

theorem written_addDocument (catalog : Catalog) (uri : String) (layer : Layer) (root : Element) :
    (catalog.addDocument uri layer root).1.written =
      (catalog.written.addDocument uri layer root).1 := by
  have planted := frame_plant catalog (draft none (.ofRoot layer root.label.tag) root)
  unfold addDocument written
  simp only [List.map_append, List.map_cons, List.map_nil]
  unfold Document.written
  simp only [Option.map_some, planted]
  rfl

/-- A tree of which nothing is known yet is planted into what is written. -/
theorem written_insertAt (document : Document) (parent : NodeId) (index : Option Nat)
    {child : Tree Node} (bare : child.map Node.written = child) :
    Document.written { document with
        root := document.root.map (Tree.insertAt (fun node => node.id = parent) index child) } =
      { document.written with
        root := document.written.root.map
          (Tree.insertAt (fun node => node.id = parent) index child) } := by
  unfold Document.written
  simp only [Option.map_map]
  congr 2
  funext tree
  have planted := @Tree.insertAt_map _ _ Node.written (fun node => decide (node.id = parent))
    (fun node => decide (node.id = parent)) (fun _ => rfl) index child tree
  rw [bare] at planted
  exact planted

theorem written_insertUnder (catalog : Catalog) (parent : Site) (index : Option Nat)
    (element : Element) : (catalog.insertUnder parent index element).1.written =
      (catalog.written.insertUnder parent.written index element).1 := by
  have outer : parent.written.ancestors.head?.map Node.kind =
      parent.ancestors.head?.map Node.kind := by
    show (parent.spot.above.map Node.written).head?.map Node.kind = _
    rw [List.head?_map, Option.map_map]
    rfl
  unfold insertUnder
  simp only [kind_written, outer, id_written]
  generalize draft (some parent.node.kind) _ element = form
  have bare := frame_plant catalog form
  unfold written mapDocuments
  simp only [List.map_map]
  congr 1
  exact List.map_congr_left fun document _ => written_insertAt document parent.id index bare

/-- A change of a node is a change of what is written of it. -/
theorem written_modify (catalog : Catalog) (id : NodeId) {change after : Node → Node}
    (wrote : ∀ node, (change node).written = after node.written) :
    (catalog.modify id change).written = catalog.written.modify id after := by
  have changed : ∀ node, Node.written (if node.id = id then change node else node) =
      if node.written.id = id then after node.written else node.written := by
    intro node
    show _ = if node.id = id then after node.written else node.written
    split
    · exact wrote node
    · rfl
  unfold modify written mapDocuments
  simp only [List.map_map]
  congr 1
  refine List.map_congr_left fun document _ => ?_
  unfold Document.written
  simp only [Function.comp_apply, Option.map_map]
  congr 2
  funext tree
  rw [Function.comp_apply, Function.comp_apply, Tree.map_map, Tree.map_map]
  exact Tree.map_congr tree fun node _ => changed node

theorem written_modify_self (catalog : Catalog) (id : NodeId) {change : Node → Node}
    (kept : ∀ node, (change node).written = node.written) :
    (catalog.modify id change).written = catalog.written := by
  rw [@written_modify catalog id change (fun node => node) kept]
  unfold modify mapDocuments
  have same : ∀ document : Document, { document with
      root := document.root.map (Tree.map fun node => if node.id = id then node else node) } =
        document := by
    intro document
    have nothing : (fun node : Node => if node.id = id then node else node) = fun node => node :=
      funext fun node => ite_self node
    have unchanged : (Tree.map fun node : Node => node) = fun tree => tree :=
      funext Tree.map_id
    rw [nothing, unchanged, Option.map_id']
  simp only [same, List.map_id']

/-! ### The index of symbols -/

theorem documents_withdrawSymbol (catalog : Catalog) (node : Node) :
    (Workspace.withdrawSymbol catalog node).documents = catalog.documents := by
  unfold Workspace.withdrawSymbol
  cases node.symbol with
  | none => rfl
  | some symbol => rfl

theorem documents_register (catalog : Catalog) (symbol : Symbol) (id : NodeId) :
    (catalog.register symbol id).documents = catalog.documents := by
  unfold register
  split
  · rfl
  · rfl

theorem documents_replaceSymbol (catalog : Catalog) (id : NodeId) (earlier later : Option Symbol) :
    (Workspace.replaceSymbol catalog id earlier later).documents = catalog.documents := by
  have withdrawn : (withoutEarlier catalog id earlier later).documents = catalog.documents := by
    unfold withoutEarlier
    split
    · split
      · rfl
      · rfl
    · rfl
  cases later with
  | none => exact withdrawn
  | some symbol => exact (documents_register _ symbol id).trans withdrawn

/-- Only what is known of the nodes changes. -/
theorem Reworked.written {f : Node → Node} {before after : Catalog}
    (reworked : Reworked f before after) (same : after.documents = before.documents) :
    after.written = before.written := by
  unfold Catalog.written
  rw [same, reworked.nextDocument, reworked.nextNode]

/-! ### What is known filled in -/

/-- The document with the nodes that are known under its numbers. -/
def fill (known : NodeId → Option Node) (document : Document) : Document :=
  { document with root := document.root.map (Tree.map fun node => (known node.id).getD node) }

section Numbered

variable {catalog : Catalog} (numbered : catalog.Numbered)

include numbered

/-- The nodes of the trees are found under their numbers. -/
theorem node?_of_label {document : Document} (member : document ∈ catalog.documents)
    {tree : Tree Node} (rooted : document.root = some tree) {node : Node}
    (inside : node ∈ tree.labels) : catalog.node? node.id = some node := by
  rw [← Tree.map_label_lines] at inside
  obtain ⟨line, listed, rfl⟩ := List.mem_map.mp inside
  exact numbered.node?_of_mem (row_of_line member rooted listed)

/-- A tree is what is written of it with what is known of its nodes filled in. -/
theorem fill_tree {document : Document} (member : document ∈ catalog.documents) {tree : Tree Node}
    (rooted : document.root = some tree) :
    (tree.map Node.written).map (fun node => (catalog.node? node.id).getD node) = tree := by
  rw [Tree.map_map]
  refine (Tree.map_congr tree fun node inside => ?_).trans (Tree.map_id tree)
  show (catalog.node? node.id).getD _ = node
  rw [node?_of_label numbered member rooted inside]
  rfl

theorem documents_of_written :
    catalog.documents = catalog.written.documents.map (fill catalog.node?) := by
  conv_lhs => rw [← List.map_id catalog.documents]
  show _ = (catalog.documents.map Document.written).map _
  rw [List.map_map]
  refine List.map_congr_left fun document member => ?_
  rcases document with ⟨number, uri, layer, root⟩
  cases root with
  | none => rfl
  | some tree =>
    show (⟨number, uri, layer, some tree⟩ : Document) = ⟨number, uri, layer, some _⟩
    rw [fill_tree numbered member rfl]

end Numbered

/-- **Catalogs in which the same is written and the same is known are the same**, the index of
symbols aside. -/
theorem documents_eq {first second : Catalog} (numbered : first.Numbered)
    (twinNumbered : second.Numbered) (same : second.written = first.written)
    (known : ∀ id, second.node? id = first.node? id) : second.documents = first.documents := by
  rw [documents_of_written numbered, documents_of_written twinNumbered, same,
    show second.node? = first.node? from funext known]

end Catalog

end EntityModel
