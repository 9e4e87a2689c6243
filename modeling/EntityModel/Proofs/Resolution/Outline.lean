import EntityModel.Proofs.Catalog.Rows
import EntityModel.Resolution

/-
**What naming and resolving read of a node.**

The outline of a node is its kind, its local name and its content as written; slots, stage, symbol,
defects, attributes and text are left out, and its number may be exchanged. Declared symbols and the
symbols that texts stand for are the same seen from outlines.

* `nearest?_map_of_kind`, `aboveNearest_map_of_kind` — the nodes around are found by kind, so they are
  found again after a change that leaves kinds.
* `declaredSymbol?_outline`, `qualifyType_outline`, `firstText?_outline` — naming reads outlines.
* `qualifyType_congr` — the name of a type rests on the nearest schema alone.
* `readName_outline` — so does the reading of a text, seen from its owner.
-/

namespace EntityModel

/-- The content with no reference evaluated. -/
def Content.written (content : Content) : Content :=
  { content with
    references := content.references.map fun reference =>
      .written reference.rule reference.text }

/-- The node with its kind, its local name and its content as written alone, under another number. -/
def Node.outline (rename : NodeId → NodeId) (node : Node) : Node :=
  ⟨rename node.id, node.kind, .ofTag node.head.tag, [], .unparsed, none,
    node.content.map Content.written, []⟩

theorem Content.written_written (content : Content) : content.written.written = content.written := by
  simp [written, Reference.written, Function.comp_def]

namespace Node

variable {rename : NodeId → NodeId}

theorem outline_outline (exchange rename : NodeId → NodeId) (node : Node) :
    (node.outline rename).outline exchange = node.outline (exchange ∘ rename) := by
  unfold outline
  cases node.content with
  | none => rfl
  | some content => simp [Content.written_written, Head.ofTag]

theorem name_outline (node : Node) : (node.outline rename).name = node.name := by
  unfold name outline
  cases node.content with
  | none => rfl
  | some content => rfl

theorem references_outline (node : Node) :
    (node.outline rename).references =
      node.references.map fun reference => .written reference.rule reference.text := by
  unfold references outline
  cases node.content with
  | none => rfl
  | some content => rfl

theorem reference?_outline (node : Node) (role : String) :
    (node.outline rename).reference? role =
      (node.reference? role).map fun reference => .written reference.rule reference.text := by
  rw [reference?, references_outline, List.find?_map]
  rfl

theorem firstText?_outline (node : Node) (separator : Char) (role : String) :
    (node.outline rename).firstText? separator role = node.firstText? separator role := by
  unfold firstText?
  rw [reference?_outline]
  cases node.reference? role with
  | none => rfl
  | some reference => rfl

/-- The texts of a node's references are read from its content as written. -/
theorem firstText?_congr {node twin : Node}
    (contents : twin.content.map Content.written = node.content.map Content.written)
    (separator : Char) (role : String) :
    twin.firstText? separator role = node.firstText? separator role := by
  have references : ∀ rename, (twin.outline rename).references = (node.outline rename).references := by
    intro rename
    unfold Node.references
    rw [show (twin.outline rename).content = _ from contents]
    rfl
  rw [← @firstText?_outline (fun number => number) twin,
    ← @firstText?_outline (fun number => number) node]
  unfold firstText? reference?
  rw [references]

end Node

section Kinds

variable {f : Node → Node} {above : List Node} (sameKind : ∀ node ∈ above, (f node).kind = node.kind)

include sameKind

theorem find?_map_of_kind (chosen : Kind → Bool) :
    (above.map f).find? (fun node => chosen node.kind) =
      (above.find? fun node => chosen node.kind).map f := by
  rw [List.find?_map, ← List.head?_filter, ← List.head?_filter]
  congr 2
  refine List.filter_congr fun node member => ?_
  rw [Function.comp_apply, sameKind node member]

theorem nearest?_map_of_kind (kind : Kind) :
    nearest? (above.map f) kind = (nearest? above kind).map f :=
  find?_map_of_kind sameKind fun other => other = kind

theorem aboveNearest_map_of_kind (kind : Kind) :
    aboveNearest (above.map f) kind = (aboveNearest above kind).map f := by
  unfold aboveNearest
  induction above with
  | nil => rfl
  | cons node above ih =>
    rw [List.map_cons, List.dropWhile_cons, List.dropWhile_cons, sameKind node List.mem_cons_self]
    split
    · exact ih fun node member => sameKind node (List.mem_cons_of_mem _ member)
    · rfl

end Kinds

section Naming

variable {rename : NodeId → NodeId}

theorem nearest?_outline (above : List Node) (kind : Kind) :
    nearest? (above.map (Node.outline rename)) kind =
      (nearest? above kind).map (Node.outline rename) :=
  nearest?_map_of_kind (fun node _ => (rfl : (node.outline rename).kind = node.kind)) kind

theorem nearestName_outline (above : List Node) (kind : Kind) :
    nearestName (above.map (Node.outline rename)) kind = nearestName above kind := by
  unfold nearestName
  rw [nearest?_outline]
  cases nearest? above kind with
  | none => rfl
  | some node => exact congrArg (Option.getD · "") (Node.name_outline node)

theorem aboveNearest_outline (above : List Node) (kind : Kind) :
    aboveNearest (above.map (Node.outline rename)) kind =
      (aboveNearest above kind).map (Node.outline rename) :=
  aboveNearest_map_of_kind (fun node _ => (rfl : (node.outline rename).kind = node.kind)) kind

theorem symbolOfName?_outline (node : Node) (above : List Node) (name : String) :
    (node.outline rename).symbolOfName? (above.map (Node.outline rename)) name =
      node.symbolOfName? above name := by
  have sectionTag : ((nearest? (above.map (Node.outline rename)) .designerSection).map
      fun node => node.head.tag) = (nearest? above .designerSection).map fun node => node.head.tag := by
    rw [nearest?_outline, Option.map_map]
    rfl
  unfold Node.symbolOfName?
  rw [show (node.outline rename).kind = node.kind from rfl]
  cases node.kind
  all_goals simp only [nearestName_outline, sectionTag]

/-- **The declared symbol is read from outlines.** -/
theorem declaredSymbol?_outline (node : Node) (above : List Node) :
    (node.outline rename).declaredSymbol? (above.map (Node.outline rename)) =
      node.declaredSymbol? above := by
  unfold Node.declaredSymbol?
  simp only [Node.name_outline, symbolOfName?_outline]

/-- The name of a type rests on the content of the nearest schema. -/
theorem qualifyType_of_contents {above other : List Node}
    (contents : ((nearest? other .schema).bind Node.content).map Content.written =
      ((nearest? above .schema).bind Node.content).map Content.written) (text : String) :
    qualifyType other text = qualifyType above text := by
  unfold qualifyType
  cases here : (nearest? other .schema).bind Node.content with
  | none =>
    rw [here] at contents
    have absent := Option.map_eq_none_iff.mp contents.symm
    rw [absent]
  | some content =>
    rw [here, Option.map_some] at contents
    obtain ⟨twin, found, equal⟩ := Option.map_eq_some_iff.mp contents.symm
    rw [found]
    rcases content with ⟨name, references, fields⟩
    rcases twin with ⟨twinName, twinReferences, twinFields⟩
    obtain ⟨rfl, _, rfl⟩ : twinName = name ∧ _ ∧ twinFields = fields := by
      simpa [Content.written] using equal
    cases twinName with
    | none => rfl
    | some namespaceName =>
      cases twinFields with
      | schema shortName =>
        cases shortName with
        | none => rfl
        | some written => rfl
      | _ => rfl

/-- The name of a type rests on the name and the short name of the nearest schema. -/
theorem qualifyType_congr {above other : List Node} {rename exchange : NodeId → NodeId}
    (same : (nearest? other .schema).map (Node.outline exchange) =
      (nearest? above .schema).map (Node.outline rename)) (text : String) :
    qualifyType other text = qualifyType above text := by
  refine qualifyType_of_contents ?_ text
  have read := congrArg (fun found => found.bind Node.content) same
  rw [Option.bind_map, Option.bind_map] at read
  rw [Option.map_bind, Option.map_bind]
  exact read

theorem qualifyType_outline (above : List Node) (text : String) :
    qualifyType (above.map (Node.outline rename)) text = qualifyType above text := by
  have same : (nearest? (above.map (Node.outline rename)) .schema).map (Node.outline id) =
      (nearest? above .schema).map (Node.outline rename) := by
    rw [nearest?_outline, Option.map_map]
    congr 1
    funext node
    exact Node.outline_outline id rename node
  exact qualifyType_congr same text

end Naming

/-! ### Reading a text -/

namespace Viewpoint

variable {rename : NodeId → NodeId}

/-- The viewpoint with every node changed. -/
def map (f : Node → Node) (view : Viewpoint) : Viewpoint :=
  ⟨view.owner.map f, view.ancestors.map f⟩

/-- The viewpoint of a row. -/
def ofRow (row : Option Row) : Viewpoint :=
  ⟨row.map Row.node, (row.map Row.above).getD []⟩

theorem of_eq (site : Option Site) : Viewpoint.of site = ofRow (site.map Site.row) := by
  cases site with
  | none => rfl
  | some site => rfl

theorem ofRow_map (f : Node → Node) (row : Option Row) :
    ofRow (row.map (Row.map f)) = (ofRow row).map f := by
  cases row with
  | none => rfl
  | some row => rfl

theorem nearestText_outline (above : List Node) (separator : Char) (kind : Kind) (role : String) :
    ((nearest? (above.map (Node.outline rename)) kind).bind fun node =>
        node.firstText? separator role) =
      (nearest? above kind).bind fun node => node.firstText? separator role := by
  rw [nearest?_outline, Option.bind_map]
  cases nearest? above kind with
  | none => rfl
  | some node => exact Node.firstText?_outline node separator role

theorem mappedContainer_outline (view : Viewpoint) (separator : Char) (role : String) :
    (view.map (Node.outline rename)).mappedContainer separator role =
      view.mappedContainer separator role := by
  unfold mappedContainer
  rw [show (view.map (Node.outline rename)).ancestors = view.ancestors.map (Node.outline rename)
    from rfl, nearestText_outline]

theorem mappedType_outline (view : Viewpoint) (separator : Char) (kind : Kind) (role : String) :
    (view.map (Node.outline rename)).mappedType separator kind role =
      view.mappedType separator kind role := by
  unfold mappedType
  rw [show (view.map (Node.outline rename)).ancestors = view.ancestors.map (Node.outline rename)
    from rfl, nearestText_outline]

theorem firstText?_owner_outline (view : Viewpoint) (separator : Char) (role : String) :
    ((view.map (Node.outline rename)).owner.bind fun node => node.firstText? separator role) =
      view.owner.bind fun node => node.firstText? separator role := by
  show ((view.owner.map (Node.outline rename)).bind _) = _
  cases view.owner with
  | none => rfl
  | some node => exact Node.firstText?_outline node separator role

end Viewpoint

namespace Catalog

variable {rename : NodeId → NodeId}

theorem mappedRowType_outline (catalog : Catalog) (separator : Char) (view : Viewpoint) :
    catalog.mappedRowType separator (view.map (Node.outline rename)) =
      catalog.mappedRowType separator view := by
  have scopes : (view.ancestors.map (Node.outline rename)).find? (fun node =>
        node.kind = .entityTypeMapping ∨ node.kind = .endProperty) =
      (view.ancestors.find? fun node =>
        node.kind = .entityTypeMapping ∨ node.kind = .endProperty).map (Node.outline rename) :=
    List.find?_map ..
  unfold mappedRowType
  rw [show (view.map (Node.outline rename)).ancestors = view.ancestors.map (Node.outline rename)
    from rfl, scopes, Viewpoint.mappedType_outline]
  cases view.ancestors.find? _ with
  | none => rfl
  | some scope =>
    simp only [Option.map_some, Node.firstText?_outline]
    rfl

/-- **A text is read from the outlines around its owner.** -/
theorem readName_outline (catalog : Catalog) (separator : Char) (view : Viewpoint)
    (rule : NameRule) (text : String) :
    catalog.readName separator (view.map (Node.outline rename)) rule text =
      catalog.readName separator view rule text := by
  have above : (view.map (Node.outline rename)).ancestors =
      view.ancestors.map (Node.outline rename) := rfl
  have setText := @Viewpoint.nearestText_outline rename view.ancestors separator
  cases rule with
  | typeReference => simp only [readName, above, qualifyType_outline]
  | containerMember => simp only [readName, above, nearestName_outline]
  | associationSetRole =>
    simp only [readName, above, setText, aboveNearest_outline, qualifyType_outline]
  | navigationRole =>
    simp only [readName, above, Viewpoint.firstText?_owner_outline, qualifyType_outline]
  | keyProperty =>
    have entityType : ((nearest? (view.ancestors.map (Node.outline rename)) .entityType).bind
          fun node => node.declaredSymbol?
            (aboveNearest (view.ancestors.map (Node.outline rename)) .entityType)) =
        (nearest? view.ancestors .entityType).bind fun node =>
          node.declaredSymbol? (aboveNearest view.ancestors .entityType) := by
      simp only [nearest?_outline, aboveNearest_outline, Option.bind_map, Function.comp_def,
        declaredSymbol?_outline]
    simp only [readName, above, entityType]
  | containerName => rfl
  | mappedType => rfl
  | mappedContainerMember => simp only [readName, Viewpoint.mappedContainer_outline]
  | mappedStoreEntitySet => simp only [readName, Viewpoint.mappedContainer_outline]
  | mappedAssociationSetEnd =>
    simp only [readName, above, setText, Viewpoint.mappedContainer_outline]
  | mappedProperty => simp only [readName, mappedRowType_outline]

end Catalog

end EntityModel
