import EntityModel.Reference

/-
**The content of elements: what their attributes say.**

* `Content` — the declared name, the references, and the other fields of an element's kind.
* `Content.read` — the content of an element as written, with its defects. A defect never stops the
  reading; it is kept beside the content.
* `Defect` — what can be wrong with one element on its own.
* `Content.defaultedValues` — the attributes that mean something even when they are left out.
-/

namespace EntityModel

/-- How many entities stand at an end of an association. -/
inductive Multiplicity where
  | zeroOrOne
  | one
  | many
  deriving DecidableEq, Repr

namespace Multiplicity

/-- The multiplicity as written. -/
def text : Multiplicity → String
  | .zeroOrOne => "0..1"
  | .one => "1"
  | .many => "*"

/-- The multiplicity that a text stands for, blanks around it aside. -/
def ofText? (text : String) : Option Multiplicity :=
  [Multiplicity.zeroOrOne, .one, .many].find? fun multiplicity =>
    multiplicity.text = Text.trim text

end Multiplicity

/-- What is wrong with an element on its own. -/
inductive Defect where
  | missingAttribute (tag key : String)
  /-- An attribute that should be `true` or `false`. -/
  | badFlag (key found : String)
  | badMultiplicity (text : String)
  /-- A condition that names neither a property nor a column. -/
  | conditionOnNothing
  /-- A condition that tests for a value and for its absence. -/
  | conditionOnBoth
  | misplaced (tag : String) (parent : Kind)
  | wrongRoot (tag : String) (layer : Layer)
  deriving DecidableEq, Repr

/-- The wording of a defect. -/
def Defect.message : Defect → String
  | .missingAttribute tag key =>
    tag ++ " is missing the required '" ++ key ++ "' attribute"
  | .badFlag key found =>
    "'" ++ key ++ "' must be 'true' or 'false', found '" ++ found ++ "'"
  | .badMultiplicity text =>
    "'" ++ text ++ "' is not a valid multiplicity (expected 0..1, 1 or *)"
  | .conditionOnNothing => "Condition must specify either 'Name' or 'ColumnName'"
  | .conditionOnBoth => "Condition cannot specify both 'Value' and 'IsNull'"
  | .misplaced tag parent => "'" ++ tag ++ "' is not valid inside " ++ parent.display
  | .wrongRoot tag layer =>
    "'" ++ tag ++ "' is not a valid root for a " ++ layer.display ++ " document"

/-- The fields of a kind beside its name and its references. -/
inductive Fields where
  /-- No other fields. -/
  | plain
  | schema (shortName : Option String)
  | entityContainer (typeAccess : Option String) (lazyLoading : Option Bool)
  | entitySet (getterAccess : Option String)
  | entityType (isAbstract : Bool)
  | property (typeName : Option String) (nullable : Option Bool)
  | associationEnd (multiplicity : Option Multiplicity)
  | documentation (summary longDescription : Option String)
  | scalarProperty (columnName : Option String)
  | condition (columnName value : Option String) (isNull : Option Bool)
  | designerProperty (value : Option String)
  deriving DecidableEq, Repr

/-- What the attributes of an element say. -/
structure Content where
  /-- The declared name, without the blanks around it; empty when nothing is written, and missing in
  kinds that declare nothing. -/
  name : Option String
  references : List Reference
  fields : Fields
  deriving DecidableEq, Repr

/-- What is known of an element when its content is read. -/
structure Source where
  kind : Kind
  /-- The kind of the element around it; roots have none. -/
  parent : Option Kind
  layer : Layer
  head : Head
  /-- The children kept as part of the element. -/
  inline : List Element

namespace Source

/-- The value of an attribute. -/
def attribute? (source : Source) (name : String) : Option String :=
  source.head.attribute? name

/-- The text of the first inline child with the local name. -/
def inlineText? (source : Source) (tag : String) : Option String :=
  (source.inline.find? fun child => child.label.tag = tag).bind fun child => child.label.text

/-- An attribute that is `true` or `false`, and the defect when it is something else. -/
def flag (source : Source) (key : String) : Option Bool × List Defect :=
  match source.attribute? key with
  | none => (none, [])
  | some text =>
    if Text.trim text = "true" then (some true, [])
    else if Text.trim text = "false" then (some false, [])
    else (none, [.badFlag key (Text.trim text)])

/-- The multiplicity of an association end, and the defect when it is none. -/
def multiplicity (source : Source) : Option Multiplicity × List Defect :=
  match source.attribute? "Multiplicity" with
  | none => (none, [])
  | some text =>
    match Multiplicity.ofText? text with
    | some multiplicity => (some multiplicity, [])
    | none => (none, [.badMultiplicity text])

/-- The declared name of the element. -/
def name (source : Source) : Option String :=
  source.kind.nameAttribute?.map fun key =>
    Text.trim ((source.attribute? key).getD "")

/-- The references of the element, none of them evaluated. -/
def references (source : Source) : List Reference :=
  source.kind.references.map fun rule => .written rule (source.attribute? rule.role)

/-- The fields of a condition, and its defects. -/
def condition (source : Source) : Fields × List Defect :=
  let columnName := source.attribute? "ColumnName"
  let value := source.attribute? "Value"
  let (isNull, badFlag) := source.flag "IsNull"
  let onNothing := (source.attribute? "Name").all Text.isBlank && columnName.isNone
  let onBoth := value.isSome && isNull.isSome
  (.condition columnName value isNull,
    badFlag ++ (if onNothing then [.conditionOnNothing] else []) ++
      (if onBoth then [.conditionOnBoth] else []))

/-- The fields of the element beside name and references, and its defects. -/
def fields (source : Source) : Fields × List Defect :=
  match source.kind with
  | .schema =>
    (.schema ((source.attribute? "Alias").filter fun text => !Text.isBlank text),
      if (source.attribute? "Namespace").all Text.isBlank then
        [.missingAttribute source.head.tag "Namespace"] else [])
  | .entityContainer =>
    let (lazyLoading, defects) := source.flag "LazyLoadingEnabled"
    (.entityContainer (source.attribute? "TypeAccess") lazyLoading, defects)
  | .entitySet => (.entitySet (source.attribute? "GetterAccess"), [])
  | .entityType =>
    let (isAbstract, defects) := source.flag "Abstract"
    (.entityType (isAbstract.getD false), defects)
  | .property =>
    let (nullable, defects) := source.flag "Nullable"
    (.property (source.attribute? "Type") nullable, defects)
  | .associationEnd =>
    let (multiplicity, defects) := source.multiplicity
    (.associationEnd multiplicity, defects)
  | .documentation =>
    (.documentation (source.inlineText? "Summary") (source.inlineText? "LongDescription"), [])
  | .scalarProperty => (.scalarProperty (source.attribute? "ColumnName"), [])
  | .condition => source.condition
  | .designerProperty =>
    (.designerProperty ((source.attribute? "Value").or (source.inlineText? "Value")), [])
  | .misplaced =>
    (.plain, match source.parent with
      | some parent => [.misplaced source.head.tag parent]
      | none => [.wrongRoot source.head.tag source.layer])
  | _ => (.plain, [])

end Source

namespace Content

/-- The content of an element as written, and its defects. -/
def read (source : Source) : Content × List Defect :=
  let (fields, defects) := source.fields
  (⟨source.name, source.references, fields⟩, defects)

/-- The reference with the role. -/
def reference? (content : Content) (role : String) : Option Reference :=
  content.references.find? fun reference => reference.role = role

end Content

/-! ### Attributes with defaults -/

/-- An attribute that means something even when it is left out. -/
structure DefaultedValue where
  key : String
  value : Option String
  default : Option String
  deriving DecidableEq, Repr

/-- What the attribute means: what is written, else the default. -/
def DefaultedValue.effective (value : DefaultedValue) : Option String :=
  value.value.or value.default

/-- Whether nothing is written. -/
def DefaultedValue.isDefault (value : DefaultedValue) : Bool :=
  value.value.isNone

/-- The attributes with defaults, in order. -/
def Content.defaultedValues (content : Content) : List DefaultedValue :=
  match content.fields with
  | .entityContainer typeAccess lazyLoading =>
    [⟨"TypeAccess", typeAccess, some "Public"⟩,
      ⟨"LazyLoadingEnabled", lazyLoading.map fun flag => if flag then "true" else "false",
        some "false"⟩]
  | .entitySet getterAccess => [⟨"GetterAccess", getterAccess, some "Public"⟩]
  | .scalarProperty columnName => [⟨"ColumnName", columnName, none⟩]
  | .designerProperty value => [⟨"Value", value, some ""⟩]
  | _ => []

end EntityModel
