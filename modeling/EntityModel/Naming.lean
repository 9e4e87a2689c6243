import EntityModel.Catalog

/-
**Names: what a node declares, and what the text of a reference stands for.**

* `Node.declaredSymbol?` — the symbol of a node, made of its own name and the names of the nodes
  around it.
* `Catalog.readName` — the symbol that the text of a reference stands for, seen from the node that
  owns it. The same target is written differently from different places, so this depends on where
  the owner stands and not on where the target is declared.
* `NameReading` — the symbol with what was read to find it: the nodes consulted and the symbols
  looked up. The names around the owner itself are not among them.

Blank text stands for the empty symbol, and a name whose surroundings are blank does too: it cannot
be found by accident.
-/

namespace EntityModel

/-! ### Declared symbols -/

/-- The nearest of the nodes with the kind. -/
def nearest? (ancestors : List Node) (kind : Kind) : Option Node :=
  ancestors.find? fun node => node.kind = kind

/-- The declared name of the nearest of the nodes with the kind; empty without one. -/
def nearestName (ancestors : List Node) (kind : Kind) : String :=
  ((nearest? ancestors kind).bind Node.name).getD ""

/-- The nodes above the nearest one with the kind. -/
def aboveNearest (ancestors : List Node) (kind : Kind) : List Node :=
  (ancestors.dropWhile fun node => node.kind ≠ kind).tail

namespace Node

/-- The symbol of a node with this name below these nodes, the nearest first. -/
def symbolOfName? (node : Node) (ancestors : List Node) (name : String) : Option Symbol :=
  match node.kind with
  | .schema | .entityContainer => some (.ofText name)
  | .entitySet | .associationSet | .functionImport =>
    some (.ofParts [nearestName ancestors .entityContainer, name])
  | .associationSetEnd =>
    some (.ofParts
      [nearestName ancestors .entityContainer, nearestName ancestors .associationSet, name])
  | .entityType | .association | .function =>
    some (.ofParts [nearestName ancestors .schema, name])
  | .property | .navigationProperty =>
    some (.ofParts [nearestName ancestors .schema, nearestName ancestors .entityType, name])
  | .associationEnd =>
    some (.ofParts [nearestName ancestors .schema, nearestName ancestors .association, name])
  | .designerProperty =>
    let section? := nearest? ancestors .designerSection
    some (.inScope name ((section?.map fun node => node.head.tag).getD ""))
  | .diagram => some (.inScope name "Diagram")
  | _ => none

/-- The symbol that a node below these nodes declares. A blank name gives the empty symbol; kinds
that declare nothing give none. -/
def declaredSymbol? (node : Node) (ancestors : List Node) : Option Symbol :=
  node.name.bind fun name =>
    if Text.isBlank name then some .empty else node.symbolOfName? ancestors name

end Node

/-- The symbol the node at the place declares. -/
def Site.declaredSymbol? (site : Site) : Option Symbol :=
  site.node.declaredSymbol? site.ancestors

/-! ### Types by name -/

/-- The text inside `IsTypeOf(…)`, or the text itself without that wrapper; no blanks around it. -/
def unwrapTypeChars (text : List Char) : List Char :=
  let trimmed := Text.trimChars text
  let opening := "IsTypeOf(".toList
  if opening.isPrefixOf trimmed then
    let rest := trimmed.drop opening.length
    if rest.getLast? = some ')' then Text.trimChars rest.dropLast else trimmed
  else trimmed

/-- The text inside `IsTypeOf(…)`, or the text itself without that wrapper; no blanks around it. -/
def unwrapType (text : String) : String :=
  String.ofList (unwrapTypeChars text.toList)

/-- The symbol of a type named within the nodes above: the short name of the nearest schema stands
for its namespace. -/
def qualifyType (ancestors : List Node) (text : String) : Symbol :=
  let bare := unwrapType text
  match (nearest? ancestors .schema).bind Node.content with
  | some ⟨some namespaceName, _, .schema (some shortName)⟩ =>
    match Text.cutFirst? Symbol.separator bare.toList with
    | some (front, back) =>
      if String.ofList front = Text.trim shortName then
        .ofParts [namespaceName, String.ofList back]
      else .ofText bare
    | none => .ofText bare
  | _ => .ofText bare

/-- The symbol of a member of the scope; empty when the scope is. -/
def memberOf (scope : Symbol) (name : String) : Symbol :=
  if scope.isEmpty then .empty else scope.child name

/-- The first text written for a reference of the node that is not blank. -/
def Node.firstText? (node : Node) (separator : Char) (role : String) : Option String :=
  (node.reference? role).bind fun reference =>
    (reference.texts separator).find? fun text => !text.isEmpty

/-! ### Reading -/

/-- The symbol a text stands for, and what was read to find it. -/
structure NameReading where
  symbol : Symbol
  /-- The nodes read that do not stand around the owner. -/
  consulted : List NodeId
  /-- The symbols looked up, found or not. -/
  lookups : List Symbol
  deriving DecidableEq, Repr

/-- A reading that consults nothing. -/
def NameReading.plain (symbol : Symbol) : NameReading :=
  ⟨symbol, [], []⟩

/-- The place a text is read from: the owner of the reference when there is such a node, and the
nodes above it. -/
structure Viewpoint where
  owner : Option Node
  ancestors : List Node

namespace Viewpoint

/-- The place of a node; a number without a node sees nothing around it. -/
def of (site : Option Site) : Viewpoint :=
  ⟨site.map Site.node, (site.map Site.ancestors).getD []⟩

/-- The container that the enclosing container mapping names in the role. -/
def mappedContainer (view : Viewpoint) (separator : Char) (role : String) : Symbol :=
  match (nearest? view.ancestors .entityContainerMapping).bind fun node =>
      node.firstText? separator role with
  | some text => .ofText text
  | none => .empty

/-- The type, association or set that the nearest node of the kind names in the role, taken by its
full name. -/
def mappedType (view : Viewpoint) (separator : Char) (kind : Kind) (role : String) : Symbol :=
  match (nearest? view.ancestors kind).bind fun node => node.firstText? separator role with
  | some text => .ofText (unwrapType text)
  | none => .empty

end Viewpoint

namespace Catalog

/-- The entity type at an association end that is looked up by its symbol, and what was read to find
it: the end itself and the schema around it, whose short name may be used there. -/
def consultEnd (catalog : Catalog) (separator : Char) (symbol : Symbol) : NameReading :=
  match (catalog.declarations symbol).find? fun site => site.node.kind = .associationEnd with
  | none => ⟨.empty, [], [symbol]⟩
  | some site =>
    match site.node.firstText? separator "Type" with
    | none => ⟨.empty, [site.id], [symbol]⟩
    | some text =>
      ⟨qualifyType site.ancestors text,
        site.id :: ((nearest? site.ancestors .schema).map Node.id).toList, [symbol]⟩

/-- The entity type whose properties a row speaks of: the first type of the nearest type mapping, or
the type at the end that the nearest end mapping names. -/
def mappedRowType (catalog : Catalog) (separator : Char) (view : Viewpoint) : NameReading :=
  match view.ancestors.find? fun node =>
      node.kind = .entityTypeMapping ∨ node.kind = .endProperty with
  | none => .plain .empty
  | some scope =>
    if scope.kind = .entityTypeMapping then
      .plain <| match scope.firstText? separator "TypeName" with
        | some text => .ofText (unwrapType text)
        | none => .empty
    else
      let association := view.mappedType separator .associationSetMapping "TypeName"
      let role := (scope.firstText? separator "Name").getD ""
      let target := memberOf association role
      if target.isEmpty then .plain .empty else catalog.consultEnd separator target

/-- The symbol that the text of a reference stands for, by the rule, seen from the owner. -/
def readName (catalog : Catalog) (separator : Char) (view : Viewpoint) (rule : NameRule)
    (text : String) : NameReading :=
  match rule with
  | .typeReference => .plain (qualifyType view.ancestors text)
  | .containerMember =>
    .plain (memberOf (.ofText (nearestName view.ancestors .entityContainer)) text)
  | .associationSetRole =>
    let association := match (nearest? view.ancestors .associationSet).bind fun node =>
        node.firstText? separator "Association" with
      | some written => qualifyType (aboveNearest view.ancestors .associationSet) written
      | none => .empty
    .plain (memberOf association text)
  | .navigationRole =>
    let association := match view.owner.bind fun node =>
        node.firstText? separator "Relationship" with
      | some written => qualifyType view.ancestors written
      | none => .empty
    .plain (memberOf association text)
  | .keyProperty =>
    let entityType := (nearest? view.ancestors .entityType).bind fun node =>
      node.declaredSymbol? (aboveNearest view.ancestors .entityType)
    .plain (memberOf (entityType.getD .empty) text)
  | .containerName => .plain (.ofText text)
  | .mappedType => .plain (.ofText (unwrapType text))
  | .mappedContainerMember =>
    .plain (memberOf (view.mappedContainer separator "CdmEntityContainer") text)
  | .mappedStoreEntitySet =>
    .plain (memberOf (view.mappedContainer separator "StorageEntityContainer") text)
  | .mappedAssociationSetEnd =>
    let setName := ((nearest? view.ancestors .associationSetMapping).bind fun node =>
      node.firstText? separator "Name").getD ""
    let associationSet :=
      memberOf (view.mappedContainer separator "CdmEntityContainer") setName
    .plain (memberOf associationSet text)
  | .mappedProperty =>
    let reading := catalog.mappedRowType separator view
    { reading with symbol := memberOf reading.symbol text }

end Catalog

end EntityModel
