import EntityModel.Layer

/-
**Kinds of elements.**

What an element is depends on where it stands: `End` in an association set is the end of that set,
in an association an end of the association.

* `Kind.ofRoot`, `Kind.ofChild`, `Kind.ofNested` — the kind of a root, of a child by the kind of its
  parent, and of a child when the parent's own parent has a say.
* `Kind.absorbs` — the child elements that are kept as part of their parent.
* `Kind.nameAttribute?` — the attribute that holds an element's own name.

Elements that are known but not modelled are `unmodelled`, and so is all below them; elements that
do not belong where they stand are `misplaced`.
-/

namespace EntityModel

/-- The kinds of elements. -/
inductive Kind where
  | schema
  | entityContainer
  | entitySet
  | associationSet
  | associationSetEnd
  | functionImport
  | entityType
  | key
  | propertyRef
  | property
  | navigationProperty
  | association
  | associationEnd
  | function
  | documentation
  | mapping
  | entityContainerMapping
  | entitySetMapping
  | entityTypeMapping
  | mappingFragment
  | scalarProperty
  | condition
  | associationSetMapping
  | endProperty
  | functionImportMapping
  | resultMapping
  | designer
  | designerSection
  | designerInfoPropertySet
  | designerProperty
  | diagrams
  | diagram
  | entityTypeShape
  | associationConnector
  /-- Known, kept, and not modelled. -/
  | unmodelled
  /-- Not valid where it stands. -/
  | misplaced
  deriving DecidableEq, Repr

namespace Kind

/-- The kind as people read it. -/
def display : Kind → String
  | .schema => "Schema"
  | .entityContainer => "EntityContainer"
  | .entitySet => "EntitySet"
  | .associationSet => "AssociationSet"
  | .associationSetEnd => "AssociationSet End"
  | .functionImport => "FunctionImport"
  | .entityType => "EntityType"
  | .key => "Key"
  | .propertyRef => "PropertyRef"
  | .property => "Property"
  | .navigationProperty => "NavigationProperty"
  | .association => "Association"
  | .associationEnd => "Association End"
  | .function => "Function"
  | .documentation => "Documentation"
  | .mapping => "Mapping"
  | .entityContainerMapping => "EntityContainerMapping"
  | .entitySetMapping => "EntitySetMapping"
  | .entityTypeMapping => "EntityTypeMapping"
  | .mappingFragment => "MappingFragment"
  | .scalarProperty => "ScalarProperty"
  | .condition => "Condition"
  | .associationSetMapping => "AssociationSetMapping"
  | .endProperty => "EndProperty"
  | .functionImportMapping => "FunctionImportMapping"
  | .resultMapping => "ResultMapping"
  | .designer => "Designer"
  | .designerSection => "Designer section"
  | .designerInfoPropertySet => "DesignerInfoPropertySet"
  | .designerProperty => "DesignerProperty"
  | .diagrams => "Diagrams"
  | .diagram => "Diagram"
  | .entityTypeShape => "EntityTypeShape"
  | .associationConnector => "AssociationConnector"
  | .unmodelled => "element"
  | .misplaced => "unknown element"

/-! ### Classification -/

/-- The children an element of the kind may have beside its documentation, by local name. -/
def vocabulary : Kind → List (String × Kind)
  | .schema =>
    [("EntityContainer", .entityContainer), ("EntityType", .entityType),
      ("Association", .association), ("Function", .function)]
  | .entityContainer =>
    [("EntitySet", .entitySet), ("AssociationSet", .associationSet),
      ("FunctionImport", .functionImport)]
  | .associationSet => [("End", .associationSetEnd)]
  | .entityType =>
    [("Key", .key), ("Property", .property), ("NavigationProperty", .navigationProperty)]
  | .key => [("PropertyRef", .propertyRef)]
  | .association => [("End", .associationEnd)]
  | .mapping => [("EntityContainerMapping", .entityContainerMapping)]
  | .entityContainerMapping =>
    [("EntitySetMapping", .entitySetMapping), ("AssociationSetMapping", .associationSetMapping),
      ("FunctionImportMapping", .functionImportMapping)]
  | .entitySetMapping => [("EntityTypeMapping", .entityTypeMapping)]
  | .resultMapping => [("EntityTypeMapping", .entityTypeMapping)]
  | .entityTypeMapping => [("MappingFragment", .mappingFragment), ("Condition", .condition)]
  | .mappingFragment => [("ScalarProperty", .scalarProperty), ("Condition", .condition)]
  | .endProperty => [("ScalarProperty", .scalarProperty)]
  | .associationSetMapping =>
    [("ScalarProperty", .scalarProperty), ("Condition", .condition), ("EndProperty", .endProperty)]
  | .functionImportMapping => [("ResultMapping", .resultMapping)]
  | .designer =>
    [("Connection", .designerSection), ("Options", .designerSection), ("Diagrams", .diagrams)]
  | .designerSection => [("DesignerInfoPropertySet", .designerInfoPropertySet)]
  | .designerInfoPropertySet => [("DesignerProperty", .designerProperty)]
  | .diagrams => [("Diagram", .diagram)]
  | .diagram =>
    [("EntityTypeShape", .entityTypeShape), ("AssociationConnector", .associationConnector)]
  | _ => []

/-- Whether elements of the kind may be documented. -/
def isDocumented : Kind → Bool
  | .entityContainer | .entitySet | .associationSet | .associationSetEnd | .functionImport
  | .entityType | .property | .navigationProperty | .association | .associationEnd
  | .function => true
  | _ => false

/-- The local names of elements that are kept anywhere without being modelled. -/
def toleratedTags : List String :=
  ["Annotation", "CommandText", "ComplexProperty", "ComplexType", "ComplexTypeMapping",
    "DefiningQuery", "EnumType", "ModificationFunctionMapping", "Parameter", "QueryView",
    "ReferentialConstraint", "ReturnType", "TypeAnnotation", "Using", "ValueAnnotation"]

/-- The kind of a root element in a document of the layer. -/
def ofRoot (layer : Layer) (tag : String) : Kind :=
  match layer with
  | .conceptual | .storage => if tag = "Schema" then .schema else .misplaced
  | .mapping => if tag = "Mapping" then .mapping else .misplaced
  | .designer => if tag = "Designer" then .designer else .misplaced

/-- The kind of a child with the local name below an element of the kind `parent`. -/
def ofChild (parent : Kind) (tag : String) : Kind :=
  if parent = .unmodelled ∨ parent = .misplaced then .unmodelled
  else if tag = "Documentation" ∧ parent.isDocumented then .documentation
  else match parent.vocabulary.lookup tag with
    | some kind => kind
    | none => if tag ∈ toleratedTags then .unmodelled else .misplaced

/-- The kind of a child when the kind of the parent's own parent counts too: the rows of a function
import's result stand in its type mapping directly. -/
def ofNested (parent : Kind) (outer : Option Kind) (tag : String) : Kind :=
  if parent = .entityTypeMapping ∧ outer = some .resultMapping ∧ tag = "ScalarProperty" then
    .scalarProperty
  else parent.ofChild tag

/-- Whether a child with the local name is kept as part of an element of the kind and not as a node
of its own. -/
def absorbs (kind : Kind) (tag : String) : Bool :=
  match kind with
  | .documentation => tag == "Summary" || tag == "LongDescription"
  | .designerProperty => tag == "Value"
  | _ => false

/-! ### Names -/

/-- The attribute that holds the name an element of the kind declares. -/
def nameAttribute? : Kind → Option String
  | .schema => some "Namespace"
  | .entityContainer | .entitySet | .associationSet | .functionImport | .entityType | .property
  | .navigationProperty | .association | .function | .designerProperty | .diagram => some "Name"
  | .associationEnd | .associationSetEnd => some "Role"
  | _ => none

/-- Whether the name an element of the kind declares should be an identifier: a namespace is a list
of them and need not be one. -/
def hasIdentifierName (kind : Kind) : Bool :=
  kind != .schema && kind.nameAttribute?.isSome

/-- Whether elements of the kind only hold others and carry nothing of their own. -/
def isGrouping : Kind → Bool
  | .key | .mapping | .resultMapping | .designer | .designerSection | .designerInfoPropertySet
  | .diagrams | .unmodelled | .misplaced => true
  | _ => false

end Kind

end EntityModel
