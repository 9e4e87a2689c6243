import EntityModel.Text.Identifier
import EntityModel.Workspace.Basic

/-
**Findings: what is reported about a model.**

* `Problem` — the causes, each with its code, severity and category.
* `Finding` — a problem of a node, or of one of its references, with its place.
* `Catalog.findings` — all findings in document order. Those of one node come in this order: its
  defects, a declaration that came too late, its name, its references.

A reference that was never evaluated is not reported; one that is left out is reported unless it may
be.
-/

namespace EntityModel

/-- How grave a finding is. -/
inductive Severity where
  | error
  | warning
  | info
  deriving DecidableEq, Repr

/-- The severity as people read it. -/
def Severity.display : Severity → String
  | .error => "error"
  | .warning => "warning"
  | .info => "info"

/-- The name of the severity in reports. -/
def Severity.name : Severity → String
  | .error => "Error"
  | .warning => "Warning"
  | .info => "Info"

/-- The severities, the gravest first. -/
def Severity.all : List Severity := [.error, .warning, .info]

/-- What a finding is about. -/
inductive Category where
  | structuralParseError
  | unresolvedReference
  /-- A reference to the first of several nodes that fit. -/
  | ambiguousReference
  /-- A node that declares what an earlier one declares. -/
  | duplicateDeclaration
  | duplicateListEntry
  | invalidName
  deriving DecidableEq, Repr

/-- The name of the category in reports. -/
def Category.name : Category → String
  | .structuralParseError => "StructuralParseError"
  | .unresolvedReference => "UnresolvedReference"
  | .ambiguousReference => "AmbiguousReference"
  | .duplicateDeclaration => "DuplicateDeclaration"
  | .duplicateListEntry => "DuplicateListEntry"
  | .invalidName => "InvalidName"

/-- The categories, in the order of their definition. -/
def Category.all : List Category :=
  [.structuralParseError, .unresolvedReference, .ambiguousReference, .duplicateDeclaration,
    .duplicateListEntry, .invalidName]

/-- Whether the first of several declarations was taken, or is in the way. -/
def Category.isAmbiguity : Category → Bool
  | .ambiguousReference | .duplicateDeclaration => true
  | _ => false

/-- The cause of a finding. -/
inductive Problem where
  | defect (defect : Defect)
  /-- The symbol is declared by the node `first` already. -/
  | redeclared (symbol : Symbol) (first : NodeId)
  | nameless (kind : Kind)
  | badName (name : String)
  /-- A reference that has to be there is not. -/
  | unspecified (kind : Kind) (role : String)
  | wrongKind (text role : String) (found : Kind) (expected : List Kind)
  | unresolved (text role : String) (expected : List Kind)
  | repeated (text role : String)
  | ambiguous (text role : String) (candidates : Nat) (target : NodeId)
  deriving DecidableEq

namespace Problem

/-- What the problem is about. -/
def category : Problem → Category
  | .defect _ => .structuralParseError
  | .redeclared _ _ => .duplicateDeclaration
  | .nameless _ | .badName _ => .invalidName
  | .unspecified _ _ | .wrongKind _ _ _ _ | .unresolved _ _ _ => .unresolvedReference
  | .repeated _ _ => .duplicateListEntry
  | .ambiguous _ _ _ _ => .ambiguousReference

/-- The code of the problem, the same for good. -/
def code (problem : Problem) : String :=
  match problem.category with
  | .structuralParseError => "E0100"
  | .unresolvedReference => "E0001"
  | .ambiguousReference => "W0002"
  | .invalidName => "W0003"
  | .duplicateDeclaration => "W0004"
  | .duplicateListEntry => "W0010"

/-- How grave the problem is. -/
def severity (problem : Problem) : Severity :=
  match problem.category with
  | .structuralParseError | .unresolvedReference => .error
  | _ => .warning

/-- The role of the reference that the problem is with. -/
def role? : Problem → Option String
  | .unspecified _ role | .wrongKind _ role _ _ | .unresolved _ role _ | .repeated _ role
  | .ambiguous _ role _ _ => some role
  | _ => none

/-- The kinds as alternatives. -/
def alternatives (kinds : List Kind) : String :=
  " or ".intercalate (kinds.map Kind.display)

/-- The wording of the problem. -/
def message : Problem → String
  | .defect cause => cause.message
  | .redeclared symbol first =>
    "'" ++ symbol.display ++ "' is already declared by " ++ first.display ++
      "; references resolve to the first declaration"
  | .nameless kind => kind.display ++ " has no name"
  | .badName name => "'" ++ name ++ "' is not a valid identifier"
  | .unspecified kind role => kind.display ++ " does not specify '" ++ role ++ "'"
  | .wrongKind text role found expected =>
    "'" ++ text ++ "' in '" ++ role ++ "' names a " ++ found.display ++ ", expected " ++
      alternatives expected
  | .unresolved text role expected =>
    "'" ++ text ++ "' in '" ++ role ++ "' does not resolve to any " ++ alternatives expected
  | .repeated text role => "'" ++ text ++ "' is listed more than once in '" ++ role ++ "'"
  | .ambiguous text role candidates target =>
    "'" ++ text ++ "' in '" ++ role ++ "' matches " ++ toString candidates ++
      " declarations; using the first (" ++ target.display ++ ")"

end Problem

/-- A problem of a node, with the place of the node's start tag. -/
structure Finding where
  node : NodeId
  problem : Problem
  span : Option Span
  deriving DecidableEq

namespace Finding

/-- How grave the finding is. -/
def severity (finding : Finding) : Severity :=
  finding.problem.severity

/-- The reference that the finding is about. -/
def reference? (finding : Finding) : Option ReferenceId :=
  finding.problem.role?.map fun role => ⟨finding.node, role⟩

/-- The number of findings of the severity. -/
def count (severity : Severity) (findings : List Finding) : Nat :=
  findings.countP fun finding => finding.severity = severity

end Finding

/-! ### The problems of one reference -/

/-- The problem of one slot, after slots with the targets `seen`: a slot that found nothing, one
that found what an earlier one has, one with several candidates. -/
def slotProblem? (rule : ReferenceRule) (seen : List NodeId) (slot : Slot) : Option Problem :=
  match slot.outcome with
  | .undefined (.wrongKind found) =>
    some (.wrongKind slot.text rule.role found rule.expected)
  | .undefined _ => some (.unresolved slot.text rule.role rule.expected)
  | .known target candidates =>
    if seen.contains target then some (.repeated slot.text rule.role)
    else if 1 < candidates then some (.ambiguous slot.text rule.role candidates target)
    else none

/-- The problems of slots that follow slots with the targets `seen`. -/
def slotProblems (rule : ReferenceRule) (seen : List NodeId) : List Slot → List Problem
  | [] => []
  | slot :: slots =>
    (slotProblem? rule seen slot).toList ++
      slotProblems rule (seen ++ slot.target?.toList) slots

/-- The problems of a reference of a node of the kind. -/
def Reference.problems (reference : Reference) (kind : Kind) : List Problem :=
  match reference.answer with
  | none => []
  | some slots =>
    if reference.isAbsent then
      if reference.rule.optional then [] else [.unspecified kind reference.role]
    else slotProblems reference.rule [] slots

/-! ### The problems of one node -/

namespace Node

/-- The problem of the name a node declares. -/
def nameProblem? (node : Node) : Option Problem :=
  if node.kind.hasIdentifierName then
    node.name.bind fun name =>
      if name.isEmpty then some (.nameless node.kind)
      else if Text.isIdentifier name then none
      else some (.badName name)
  else none

end Node

namespace Catalog

/-- The problem of a node whose symbol an earlier node declares. -/
def declarationProblem? (catalog : Catalog) (node : Node) : Option Problem :=
  node.declared?.bind fun symbol =>
    (catalog.declaring? symbol).bind fun first =>
      if first = node.id then none else some (.redeclared symbol first)

/-- The problems of a node, in order. -/
def problems (catalog : Catalog) (checkNames : Bool) (node : Node) : List Problem :=
  node.defects.map .defect ++ (catalog.declarationProblem? node).toList ++
    (if checkNames then node.nameProblem?.toList else []) ++
    node.references.flatMap fun reference => reference.problems node.kind

/-- All findings, in document order. -/
def findings (catalog : Catalog) (checkNames : Bool) : List Finding :=
  catalog.sites.flatMap fun site =>
    (catalog.problems checkNames site.node).map fun problem =>
      ⟨site.id, problem, site.node.head.span⟩

end Catalog

/-- All findings of a workspace, by its options. -/
def Workspace.findings (workspace : Workspace) : List Finding :=
  workspace.catalog.findings workspace.options.validateIdentifiers

end EntityModel
