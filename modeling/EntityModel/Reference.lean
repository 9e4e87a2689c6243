import EntityModel.Identity
import EntityModel.Kind
import EntityModel.Symbol

/-
**References from one element to others.**

* `ReferenceRule` — what the kind of an element says of one of its references: the attribute it is
  written in, whether it lists several targets, what the targets have to be, and how its text is
  read.
* `Kind.references` — the rules of each kind, in order.
* `Slot` — one target of a reference: its text, the symbol the text stands for, and what was found.
* `Reference` — a rule with the text written for it and, once it is evaluated, its slots.
* `Reference.texts` — the texts of the targets, one for each slot to be.
-/

namespace EntityModel

/-- How the text of a reference is read as a symbol. -/
inductive NameRule where
  /-- A type, qualified by the namespace or the alias of the enclosing schema. -/
  | typeReference
  /-- A member of the enclosing container. -/
  | containerMember
  /-- An end of the association that the enclosing association set names. -/
  | associationSetRole
  /-- An end of the association that the same element names. -/
  | navigationRole
  /-- A property of the enclosing entity type. -/
  | keyProperty
  /-- A container by its bare name. -/
  | containerName
  /-- A type by its full name. -/
  | mappedType
  /-- A member of the conceptual container that the enclosing container mapping names. -/
  | mappedContainerMember
  /-- A member of the storage container that the enclosing container mapping names. -/
  | mappedStoreEntitySet
  /-- An end of the association set that the enclosing association set mapping names. -/
  | mappedAssociationSetEnd
  /-- A property of the type that the nearest type mapping or end mapping speaks of. -/
  | mappedProperty
  deriving DecidableEq, Repr

/-- Whether a reference names one target or a list of them. -/
inductive Arity where
  | single
  | list
  deriving DecidableEq, Repr

/-- The documents a reference may lead into. -/
inductive TargetSpace where
  /-- Those of the layer the reference stands in. -/
  | ownLayer
  | layer (layer : Layer)
  deriving DecidableEq, Repr

/-- What a kind of element says of one of its references. -/
structure ReferenceRule where
  /-- The attribute that holds the text; it also names the reference. -/
  role : String
  arity : Arity
  /-- Whether the reference may be left out. -/
  optional : Bool
  /-- The kinds a target may have. -/
  expected : List Kind
  space : TargetSpace
  reading : NameRule
  deriving DecidableEq, Repr

namespace ReferenceRule

/-- A reference to one target that has to be there. -/
def single (role : String) (expected : Kind) (space : TargetSpace) (reading : NameRule) :
    ReferenceRule :=
  ⟨role, .single, false, [expected], space, reading⟩

/-- The same reference, which may be left out. -/
def orNone (rule : ReferenceRule) : ReferenceRule :=
  { rule with optional := true }

/-- The same reference, to a list of targets. -/
def toMany (rule : ReferenceRule) : ReferenceRule :=
  { rule with arity := .list }

end ReferenceRule

open ReferenceRule in
/-- The references of an element of the kind, in order. -/
def Kind.references : Kind → List ReferenceRule
  | .entitySet => [single "EntityType" .entityType .ownLayer .typeReference]
  | .associationSet => [single "Association" .association .ownLayer .typeReference]
  | .associationSetEnd =>
    [single "Role" .associationEnd .ownLayer .associationSetRole,
      single "EntitySet" .entitySet .ownLayer .containerMember]
  | .functionImport => [(single "EntitySet" .entitySet .ownLayer .containerMember).orNone]
  | .entityType => [(single "BaseType" .entityType .ownLayer .typeReference).orNone]
  | .propertyRef => [single "Name" .property .ownLayer .keyProperty]
  | .navigationProperty =>
    [single "Relationship" .association .ownLayer .typeReference,
      single "FromRole" .associationEnd .ownLayer .navigationRole,
      single "ToRole" .associationEnd .ownLayer .navigationRole]
  | .associationEnd => [single "Type" .entityType .ownLayer .typeReference]
  | .entityContainerMapping =>
    [single "CdmEntityContainer" .entityContainer (.layer .conceptual) .containerName,
      single "StorageEntityContainer" .entityContainer (.layer .storage) .containerName]
  | .entitySetMapping =>
    [single "Name" .entitySet (.layer .conceptual) .mappedContainerMember]
  | .entityTypeMapping =>
    [(single "TypeName" .entityType (.layer .conceptual) .mappedType).toMany]
  | .mappingFragment =>
    [single "StoreEntitySet" .entitySet (.layer .storage) .mappedStoreEntitySet]
  | .scalarProperty => [single "Name" .property (.layer .conceptual) .mappedProperty]
  | .condition => [(single "Name" .property (.layer .conceptual) .mappedProperty).orNone]
  | .associationSetMapping =>
    [single "Name" .associationSet (.layer .conceptual) .mappedContainerMember,
      single "TypeName" .association (.layer .conceptual) .mappedType,
      single "StoreEntitySet" .entitySet (.layer .storage) .mappedStoreEntitySet]
  | .endProperty =>
    [single "Name" .associationSetEnd (.layer .conceptual) .mappedAssociationSetEnd]
  | .functionImportMapping =>
    [single "FunctionImportName" .functionImport (.layer .conceptual) .mappedContainerMember,
      single "FunctionName" .function (.layer .storage) .mappedType]
  | .entityTypeShape => [single "EntityType" .entityType (.layer .conceptual) .mappedType]
  | .associationConnector => [single "Association" .association (.layer .conceptual) .mappedType]
  | _ => []

/-! ### Slots -/

/-- Why a target was not found. -/
inductive Unresolved where
  /-- The text is blank or stands for no symbol; nothing was looked up. -/
  | empty
  | notFound
  /-- The first node that declares the symbol has this kind, and no other fits either. -/
  | wrongKind (kind : Kind)
  deriving DecidableEq, Repr

/-- What was found for one target. -/
inductive Outcome where
  /-- The first of so many fitting nodes. -/
  | known (target : NodeId) (candidates : Nat)
  | undefined (reason : Unresolved)
  deriving DecidableEq, Repr

/-- One target of a reference: its text, the symbol the text stands for, and what was found. -/
structure Slot where
  text : String
  symbol : Symbol
  outcome : Outcome
  deriving DecidableEq, Repr

namespace Slot

/-- The node that was found. -/
def target? (slot : Slot) : Option NodeId :=
  match slot.outcome with
  | .known target _ => some target
  | .undefined _ => none

/-- Whether a node was found. -/
def isKnown (slot : Slot) : Bool :=
  slot.target?.isSome

/-- The number of nodes that fit. -/
def candidates (slot : Slot) : Nat :=
  match slot.outcome with
  | .known _ candidates => candidates
  | .undefined _ => 0

/-- Why no node was found. -/
def reason? (slot : Slot) : Option Unresolved :=
  match slot.outcome with
  | .known _ _ => none
  | .undefined reason => some reason

end Slot

/-! ### References -/

/-- Whether the targets of a reference are found. -/
inductive Status where
  /-- Not evaluated since the element was read. -/
  | unknown
  /-- All of them. -/
  | known
  /-- Not all of them. -/
  | undefined
  deriving DecidableEq, Repr

/-- The status of a reference with these slots. -/
def Status.ofSlots (slots : List Slot) : Status :=
  if slots.all Slot.isKnown then .known else .undefined

/-- A reference of an element: its rule, the text written for it, and its slots once it is
evaluated. -/
structure Reference where
  rule : ReferenceRule
  text : Option String
  answer : Option (List Slot)
  deriving DecidableEq, Repr

namespace Reference

/-- A reference as written, not evaluated yet. -/
def written (rule : ReferenceRule) (text : Option String) : Reference :=
  ⟨rule, text, none⟩

/-- The role of the reference. -/
def role (reference : Reference) : String :=
  reference.rule.role

/-- Whether no text is written for the reference. -/
def isAbsent (reference : Reference) : Bool :=
  reference.text.all Text.isBlank

/-- The texts of the single targets, without the blanks around them. -/
def texts (reference : Reference) (separator : Char) : List String :=
  match reference.text, reference.rule.arity with
  | none, _ => []
  | some text, .single => [Text.trim text]
  | some text, .list => (Text.pieces separator text).map Text.trim

/-- The slots; none before the reference is evaluated. -/
def slots (reference : Reference) : List Slot :=
  reference.answer.getD []

/-- Whether the targets are found. -/
def status (reference : Reference) : Status :=
  match reference.answer with
  | none => .unknown
  | some slots => .ofSlots slots

/-- The targets that are found, in the order of the slots. -/
def targets (reference : Reference) : List NodeId :=
  reference.slots.filterMap Slot.target?

/-- The first target of a reference whose targets are all found. -/
def target? (reference : Reference) : Option NodeId :=
  if reference.status = .known then reference.slots.head?.bind Slot.target? else none

end Reference

end EntityModel
