import EntityModel.Proofs.Naming.Scopes
import EntityModel.Proofs.Resolution.Congruence

/-
**What a symbol and a reading take from the nodes around.**

* `Kind.enclosing?` — the kinds of the nodes that give the first parts of a symbol;
  `symbolOfName?_enclosing` says that these parts and the name are all of it.
* `NameRule.restsOn` — the kinds whose names, and the references to which, a reading takes in;
  `Kind.restsOn` — the same for all that has to do with the symbol of a node: how it is made up and
  how references to the node are read (`restsOn_of_rule`).
* `Spares` — a change of a node that leaves what has to do with these kinds.
* `declaredSymbol?_map`, `scope_map` — **where all nodes around are spared, symbols and scopes stay.**
-/

namespace EntityModel

/-! ### Kinds -/

namespace Kind

/-- The kinds whose nearest nodes above give the parts of a symbol before the name of the node, the
outermost first; missing for kinds of which no reference speaks. -/
def enclosing? : Kind → Option (List Kind)
  | .schema | .entityContainer => some []
  | .entitySet | .associationSet | .functionImport => some [.entityContainer]
  | .associationSetEnd => some [.entityContainer, .associationSet]
  | .entityType | .association | .function => some [.schema]
  | .property | .navigationProperty => some [.schema, .entityType]
  | .associationEnd => some [.schema, .association]
  | _ => none

/-- The kinds whose names go into the symbols of nodes of the kind, or into the reading of
references to them. The ends of association sets carry the names of ends of associations, and the
properties of a row are found through such ends. -/
def restsOn : Kind → List Kind
  | .entitySet | .associationSet | .functionImport => [.entityContainer]
  | .associationSetEnd => [.entityContainer, .associationSet, .associationEnd]
  | .entityType | .association | .function => [.schema]
  | .property => [.schema, .entityType, .association, .associationEnd, .associationSetEnd]
  | .navigationProperty => [.schema, .entityType]
  | .associationEnd => [.schema, .association]
  | _ => []

theorem restsOn_of_enclosing {kind : Kind} {kinds : List Kind}
    (enclosed : kind.enclosing? = some kinds) : ∀ outer ∈ kinds, outer ∈ kind.restsOn := by
  cases kind <;> cases enclosed <;> decide

theorem nameAttribute?_of_enclosing {kind : Kind} {kinds : List Kind}
    (enclosed : kind.enclosing? = some kinds) : kind.nameAttribute?.isSome = true := by
  cases kind <;> cases enclosed <;> rfl

theorem not_restsOn_self (kind : Kind) : kind ∉ kind.restsOn := by
  cases kind <;> decide

end Kind

/-- The kinds whose names, and the references to which, the reading takes in. -/
def NameRule.restsOn : NameRule → List Kind
  | .typeReference => [.schema]
  | .containerMember | .mappedContainerMember | .mappedStoreEntitySet => [.entityContainer]
  | .associationSetRole | .navigationRole => [.schema, .association]
  | .keyProperty => [.schema, .entityType]
  | .containerName | .mappedType => []
  | .mappedAssociationSetEnd => [.entityContainer, .associationSet]
  | .mappedProperty => [.schema, .entityType, .association, .associationEnd, .associationSetEnd]

section Rules

variable {kind target : Kind} {rule : ReferenceRule} (member : rule ∈ kind.references)

include member

theorem expected_eq (expected : target ∈ rule.expected) : rule.expected = [target] := by
  have one : ∀ rule ∈ kind.references, rule.expected.length = 1 := by
    cases kind <;> decide
  obtain ⟨only, same⟩ := List.length_eq_one_iff.mp (one rule member)
  rw [same] at expected ⊢
  rw [List.mem_singleton.mp expected]

/-- References lead to nodes that are named within others. -/
theorem enclosing?_isSome (expected : target ∈ rule.expected) : target.enclosing?.isSome = true := by
  have each : ∀ rule ∈ kind.references, ∀ target ∈ rule.expected,
      target.enclosing?.isSome = true := by
    cases kind <;> decide
  exact each rule member target expected

theorem restsOn_of_rule (expected : target ∈ rule.expected) :
    ∀ outer ∈ rule.reading.restsOn, outer ∈ target.restsOn := by
  have each : ∀ rule ∈ kind.references, ∀ target ∈ rule.expected,
      ∀ outer ∈ rule.reading.restsOn, outer ∈ target.restsOn := by
    cases kind <;> decide
  exact each rule member target expected

/-- Only navigation properties name an association themselves. -/
theorem kind_of_navigationRole (reading : rule.reading = .navigationRole) :
    kind = .navigationProperty := by
  have each : ∀ rule ∈ kind.references, rule.reading = .navigationRole →
      kind = .navigationProperty := by
    cases kind <;> decide
  exact each rule member reading

end Rules

/-! ### Symbols -/

theorem ofText_eq_ofParts (name : String) : Symbol.ofText name = .ofParts [name] := by
  unfold Symbol.ofText Symbol.ofParts
  rw [List.map_singleton]
  cases blank : (Text.trim name).isEmpty with
  | true =>
    rw [List.filter_cons_of_neg (by simp [blank]), List.filter_nil, String.isEmpty_iff.mp blank]
    rfl
  | false =>
    rw [List.filter_cons_of_pos (by simp [blank]), List.filter_nil]
    refine (Symbol.mk.injEq ..).mpr ⟨?_, rfl⟩
    rw [← String.toList_inj, String.toList_intercalate, List.map_singleton,
      List.intercalate_singleton]

/-- **A symbol is made of the names of the enclosing nodes and the name of the node.** -/
theorem symbolOfName?_enclosing {node : Node} {kinds : List Kind}
    (enclosed : node.kind.enclosing? = some kinds) (ancestors : List Node) (name : String) :
    node.symbolOfName? ancestors name =
      some (.ofParts (kinds.map (nearestName ancestors) ++ [name])) := by
  unfold Node.symbolOfName?
  cases kind : node.kind <;> rw [kind] at enclosed <;> cases enclosed
  case schema => exact congrArg some (ofText_eq_ofParts name)
  case entityContainer => exact congrArg some (ofText_eq_ofParts name)
  all_goals rfl

theorem Symbol.isEmpty_append {stem part : List Char} (nonempty : part ≠ [])
    (scope : Option String) : (Symbol.mk (String.ofList (stem ++ part)) scope).isEmpty = false := by
  rw [isEmpty, ← Bool.not_eq_true, String.isEmpty_iff, ← String.toList_eq_nil_iff,
    String.toList_ofList, List.append_eq_nil_iff]
  exact fun none => nonempty none.2

/-- The symbol of a good last part has it at its end. -/
theorem symbolOfName?_part {node : Node} {kinds : List Kind}
    (enclosed : node.kind.enclosing? = some kinds) (ancestors : List Node) {name : String}
    (isPart : Text.IsPart name.toList) : node.symbolOfName? ancestors name = some
      ⟨String.ofList (Symbol.qualifier (kinds.map (nearestName ancestors)) ++ name.toList),
        none⟩ := by
  have symbol := @Symbol.ofParts_eq (kinds.map (nearestName ancestors)) name.toList [] name.toList
    isPart.trimmed.trimChars isPart.nonempty
  rw [String.ofList_toList, List.append_nil] at symbol
  rw [symbolOfName?_enclosing enclosed, symbol]

/-! ### Changes that leave what is around -/

/-- The change of the node leaves its kind, its short name, its name if it is of one of the kinds,
and the texts of its references to nodes of the kinds, unless one of them is its name. -/
structure Spares (kinds : List Kind) (separator : Char) (f : Node → Node) (node : Node) :
    Prop where
  sameKind : (f node).kind = node.kind
  shortName : (f node).shortName? = node.shortName?
  name : node.kind ∈ kinds → (f node).name = node.name
  texts : ∀ rule ∈ node.kind.references, (∀ kind ∈ rule.expected, kind ∈ kinds) →
    node.kind.nameAttribute? ≠ some rule.role →
      (f node).firstText? separator rule.role = node.firstText? separator rule.role

section Around

variable {kinds : List Kind} {separator : Char} {f : Node → Node} {above : List Node}
  (spares : ∀ node ∈ above, Spares kinds separator f node)

include spares

theorem nearest?_map (kind : Kind) : nearest? (above.map f) kind = (nearest? above kind).map f :=
  nearest?_map_of_kind (fun node member => (spares node member).sameKind) kind

theorem aboveNearest_map (kind : Kind) :
    aboveNearest (above.map f) kind = (aboveNearest above kind).map f :=
  aboveNearest_map_of_kind (fun node member => (spares node member).sameKind) kind

theorem spares_aboveNearest (kind : Kind) :
    ∀ node ∈ aboveNearest above kind, Spares kinds separator f node := fun node member =>
  spares node ((List.dropWhile_sublist _).subset (List.mem_of_mem_tail member))

theorem nearestName_map {kind : Kind} (inside : kind ∈ kinds) :
    nearestName (above.map f) kind = nearestName above kind := by
  unfold nearestName
  rw [nearest?_map spares]
  cases found : nearest? above kind with
  | none => rfl
  | some node =>
    have member := List.mem_of_find?_eq_some found
    have same : node.kind = kind := by simpa using List.find?_some found
    exact congrArg (Option.getD · "") ((spares node member).name (same ▸ inside))

theorem shortNames_map (inside : Kind.schema ∈ kinds) :
    shortNames (above.map f) = shortNames above := by
  unfold shortNames
  rw [nearest?_map spares, Option.bind_map]
  cases found : nearest? above .schema with
  | none => rfl
  | some node =>
    have member := List.mem_of_find?_eq_some found
    have same : node.kind = .schema := by simpa using List.find?_some found
    simp only [Option.bind_some, Function.comp_apply, (spares node member).shortName,
      (spares node member).name (same ▸ inside)]

theorem qualifyType_map (inside : Kind.schema ∈ kinds) (text : String) :
    qualifyType (above.map f) text = qualifyType above text := by
  rw [qualifyType_scope, qualifyType_scope, shortNames_map spares inside]

/-- The first text that the nearest node of a kind writes for one of its references. -/
theorem nearestText_map {kind : Kind} {rule : ReferenceRule} (listed : rule ∈ kind.references)
    (expected : ∀ kind ∈ rule.expected, kind ∈ kinds)
    (unnamed : kind.nameAttribute? ≠ some rule.role) :
    ((nearest? (above.map f) kind).bind fun node => node.firstText? separator rule.role) =
      (nearest? above kind).bind fun node => node.firstText? separator rule.role := by
  rw [nearest?_map spares, Option.bind_map]
  cases found : nearest? above kind with
  | none => rfl
  | some node =>
    have member := List.mem_of_find?_eq_some found
    obtain rfl : node.kind = kind := by simpa using List.find?_some found
    exact (spares node member).texts rule listed expected unnamed

/-- **A symbol stays where the enclosing nodes are spared.** -/
theorem declaredSymbol?_map {node : Node} {enclosing : List Kind}
    (enclosed : node.kind.enclosing? = some enclosing) (inside : ∀ kind ∈ enclosing, kind ∈ kinds)
    (sameKind : (f node).kind = node.kind) (sameName : (f node).name = node.name) :
    (f node).declaredSymbol? (above.map f) = node.declaredSymbol? above := by
  have names : enclosing.map (nearestName (above.map f)) = enclosing.map (nearestName above) :=
    List.map_congr_left fun kind member => nearestName_map spares (inside kind member)
  unfold Node.declaredSymbol?
  rw [sameName]
  congr 1
  funext name
  rw [symbolOfName?_enclosing enclosed, symbolOfName?_enclosing (sameKind ▸ enclosed), names]

/-- The symbol of the nearest node of a kind, formed from the names around it, stays. -/
theorem nearestSymbol_map {kind : Kind} {enclosing : List Kind}
    (enclosed : kind.enclosing? = some enclosing) (outer : ∀ kind ∈ enclosing, kind ∈ kinds)
    (own : kind ∈ kinds) :
    ((nearest? (above.map f) kind).bind fun node =>
        node.declaredSymbol? (aboveNearest (above.map f) kind)) =
      (nearest? above kind).bind fun node => node.declaredSymbol? (aboveNearest above kind) := by
  rw [nearest?_map spares, aboveNearest_map spares, Option.bind_map]
  cases found : nearest? above kind with
  | none => rfl
  | some node =>
    have spared := spares node (List.mem_of_find?_eq_some found)
    obtain rfl : node.kind = kind := by simpa using List.find?_some found
    exact declaredSymbol?_map (spares_aboveNearest spares node.kind) enclosed outer spared.sameKind
      (spared.name own)

end Around

/-! ### Scopes -/

namespace Viewpoint

variable {kinds : List Kind} {separator : Char} {f : Node → Node} {view : Viewpoint}
  (spares : ∀ node ∈ view.ancestors, Spares kinds separator f node)

include spares

omit spares in
/-- What a navigation property writes for its association stays. -/
theorem relationship_map (inside : Kind.association ∈ kinds)
    (owner : ∀ node, view.owner = some node →
      Spares kinds separator f node ∧ node.kind = .navigationProperty) :
    ((view.map f).owner.bind fun node => node.firstText? separator "Relationship") =
      view.owner.bind fun node => node.firstText? separator "Relationship" := by
  show (view.owner.map f).bind _ = _
  cases own : view.owner with
  | none => rfl
  | some node =>
    obtain ⟨spared, kind⟩ := owner node own
    exact spared.texts (.single "Relationship" .association .ownLayer .typeReference)
      (by rw [kind]; decide) (by simpa [ReferenceRule.single] using inside) (by rw [kind]; decide)

theorem mappedContainer_map {rule : ReferenceRule}
    (listed : rule ∈ Kind.references .entityContainerMapping)
    (inside : Kind.entityContainer ∈ kinds) :
    (view.map f).mappedContainer separator rule.role =
      view.mappedContainer separator rule.role := by
  have expected : ∀ rule ∈ Kind.references .entityContainerMapping, ∀ kind ∈ rule.expected,
      kind = .entityContainer := by decide
  unfold mappedContainer
  rw [show (view.map f).ancestors = view.ancestors.map f from rfl,
    nearestText_map spares listed (fun kind member => expected rule listed kind member ▸ inside)
      fun named => nomatch named]

theorem mappedType_map {kind : Kind} {rule : ReferenceRule} (listed : rule ∈ kind.references)
    (expected : ∀ kind ∈ rule.expected, kind ∈ kinds)
    (unnamed : kind.nameAttribute? ≠ some rule.role) :
    (view.map f).mappedType separator kind rule.role =
      view.mappedType separator kind rule.role := by
  unfold mappedType
  rw [show (view.map f).ancestors = view.ancestors.map f from rfl,
    nearestText_map spares listed expected unnamed]

end Viewpoint

namespace Catalog

section Ends

variable {kinds : List Kind} {separator : Char} {f : Node → Node} {first second : Catalog}
  (numbered : first.Numbered) (exact : first.SymbolsExact)
  (laterNumbered : second.Numbered) (laterExact : second.SymbolsExact)
  (rows : second.rows = first.rows.map (Row.map f))
  (spares : ∀ row ∈ first.rows, Spares kinds separator f row.node)

include rows

/-- The same end is consulted under another symbol, if just the ends that declared the one declare the
other. -/
theorem map_end? {symbol next : Symbol} (sameKind : ∀ row ∈ first.rows, (f row.node).kind = row.node.kind)
    (declares : ∀ row ∈ first.rows, row.node.kind = .associationEnd →
      ((f row.node).declared? = some next ↔ row.node.declared? = some symbol)) :
    second.end? next = (first.end? symbol).map (Row.map f) := by
  unfold end? declaring
  rw [rows, List.find?_filter, List.find?_filter, List.find?_map, ← List.head?_filter,
    ← List.head?_filter]
  congr 2
  refine List.filter_congr fun row member => ?_
  show decide (decide ((f row.node).declared? = some next) = true ∧
    decide ((f row.node).kind = .associationEnd) = true) = _
  rw [sameKind row member]
  by_cases isEnd : row.node.kind = .associationEnd
  · simp [isEnd, declares row member isEnd]
  · simp [isEnd]

include spares numbered exact laterNumbered laterExact

/-- The same end is consulted, and it stands for the same type. -/
theorem consultEnd_map (inside : Kind.entityType ∈ kinds) (schema : Kind.schema ∈ kinds)
    (declares : ∀ row ∈ first.rows, row.node.kind = .associationEnd →
      (f row.node).declared? = row.node.declared?) (symbol : Symbol) :
    (second.consultEnd separator symbol).symbol = (first.consultEnd separator symbol).symbol := by
  rw [consultEnd_eq numbered exact, consultEnd_eq laterNumbered laterExact,
    @map_end? f first second rows symbol symbol (fun row member => (spares row member).sameKind)
      fun row member isEnd => by rw [declares row member isEnd]]
  cases found : first.end? symbol with
  | none => rfl
  | some row =>
    have member : row ∈ first.rows := (mem_declaring.mp (List.mem_of_find?_eq_some found)).1
    have isEnd : row.node.kind = .associationEnd := by simpa using List.find?_some found
    have around : ∀ node ∈ row.above, Spares kinds separator f node := by
      intro node above
      obtain ⟨upper, there, _⟩ := row_of_mem_line member (List.mem_cons_of_mem _ above)
      exact spares _ there
    have text := (spares row member).texts (.single "Type" .entityType .ownLayer .typeReference)
      (by rw [isEnd]; exact List.mem_cons_self) (by simpa [ReferenceRule.single] using inside)
      (by rw [isEnd]; decide)
    rw [Option.map_some, readEnd, readEnd]
    rw [show (row.map f).node = f row.node from rfl,
      show (f row.node).firstText? separator "Type" = row.node.firstText? separator "Type" from text]
    cases row.node.firstText? separator "Type" with
    | none => rfl
    | some written => exact qualifyType_map around schema written

end Ends

variable {kinds : List Kind} {separator : Char} {f : Node → Node} {first second : Catalog}
  {view : Viewpoint} (spares : ∀ node ∈ view.ancestors, Spares kinds separator f node)

include spares

theorem mappedRowType_map (inside : ∀ kind ∈ NameRule.restsOn .mappedProperty, kind ∈ kinds)
    (ends : ∀ symbol, (second.consultEnd separator symbol).symbol =
      (first.consultEnd separator symbol).symbol) :
    (second.mappedRowType separator (view.map f)).symbol =
      (first.mappedRowType separator view).symbol := by
  have scopes : (view.ancestors.map f).find? (fun node =>
        node.kind = .entityTypeMapping ∨ node.kind = .endProperty) =
      (view.ancestors.find? fun node =>
        node.kind = .entityTypeMapping ∨ node.kind = .endProperty).map f := by
    exact find?_map_of_kind (fun node member => (spares node member).sameKind)
      fun kind => kind = .entityTypeMapping ∨ kind = .endProperty
  have association := Viewpoint.mappedType_map spares
    (show .single "TypeName" .association (.layer .conceptual) .mappedType ∈
      Kind.references .associationSetMapping by decide)
    (by simpa [ReferenceRule.single] using inside .association (by decide)) (by decide)
  unfold mappedRowType
  rw [show (view.map f).ancestors = view.ancestors.map f from rfl, scopes]
  cases found : view.ancestors.find? _ with
  | none => rfl
  | some node =>
    have member := List.mem_of_find?_eq_some found
    have either : node.kind = .entityTypeMapping ∨ node.kind = .endProperty := by
      simpa using List.find?_some found
    simp only [Option.map_some, (spares node member).sameKind]
    by_cases typed : node.kind = .entityTypeMapping
    · have text := (spares node member).texts
        (ReferenceRule.single "TypeName" .entityType (.layer .conceptual) .mappedType).toMany
        (by rw [typed]; decide)
        (by simpa [ReferenceRule.single, ReferenceRule.toMany] using inside .entityType (by decide))
        (by rw [typed]; decide)
      rw [if_pos typed, if_pos typed, show (f node).firstText? separator "TypeName" =
        node.firstText? separator "TypeName" from text]
    · have isEnd : node.kind = .endProperty := either.resolve_left typed
      have text := (spares node member).texts
        (.single "Name" .associationSetEnd (.layer .conceptual) .mappedAssociationSetEnd)
        (by rw [isEnd]; decide)
        (by simpa [ReferenceRule.single] using inside .associationSetEnd (by decide))
        (by rw [isEnd]; decide)
      rw [if_neg typed, if_neg typed, show (f node).firstText? separator "Name" =
        node.firstText? separator "Name" from text, show (view.map f).mappedType separator
          .associationSetMapping "TypeName" = view.mappedType separator .associationSetMapping
            "TypeName" from association]
      split
      · rfl
      · exact ends _

/-- **A scope stays where all nodes around are spared.** -/
theorem scope_map {rule : NameRule} (inside : ∀ kind ∈ rule.restsOn, kind ∈ kinds)
    (owner : ∀ node, view.owner = some node → Spares kinds separator f node ∧
      (rule = .navigationRole → node.kind = .navigationProperty))
    (ends : rule = .mappedProperty → ∀ symbol, (second.consultEnd separator symbol).symbol =
      (first.consultEnd separator symbol).symbol) :
    second.scope separator (view.map f) rule = first.scope separator view rule := by
  have above : (view.map f).ancestors = view.ancestors.map f := rfl
  cases rule with
  | typeReference =>
    simp only [scope, above, shortNames_map spares (inside .schema (by decide))]
  | containerMember =>
    simp only [scope, above, nearestName_map spares (inside .entityContainer (by decide))]
  | associationSetRole =>
    have text := nearestText_map spares
      (show .single "Association" .association .ownLayer .typeReference ∈
        Kind.references .associationSet by decide)
      (by simpa [ReferenceRule.single] using inside .association (by decide)) (by decide)
    have types : qualifyType ((aboveNearest view.ancestors .associationSet).map f) =
        qualifyType (aboveNearest view.ancestors .associationSet) :=
      funext (qualifyType_map (spares_aboveNearest spares _) (inside .schema (by decide)))
    simp only [scope, above, aboveNearest_map spares, types]
    rw [show ((nearest? (view.ancestors.map f) .associationSet).bind fun node =>
      node.firstText? separator "Association") = _ from text]
    rfl
  | navigationRole =>
    have types : qualifyType (view.ancestors.map f) = qualifyType view.ancestors :=
      funext (qualifyType_map spares (inside .schema (by decide)))
    have text := Viewpoint.relationship_map (inside .association (by decide)) fun node own =>
      (owner node own).imp_right fun kind => kind rfl
    simp only [scope, above, types, text]
  | keyProperty =>
    have type := nearestSymbol_map spares (show Kind.entityType.enclosing? = some [.schema] from rfl)
      (by simpa using inside .schema (by decide)) (inside .entityType (by decide))
    simp only [scope, above, type]
  | containerName => rfl
  | mappedType => rfl
  | mappedContainerMember =>
    have container := Viewpoint.mappedContainer_map spares
      (show .single "CdmEntityContainer" .entityContainer (.layer .conceptual) .containerName ∈
        Kind.references .entityContainerMapping by decide) (inside .entityContainer (by decide))
    exact congrArg Scope.members container
  | mappedStoreEntitySet =>
    have container := Viewpoint.mappedContainer_map spares
      (show .single "StorageEntityContainer" .entityContainer (.layer .storage) .containerName ∈
        Kind.references .entityContainerMapping by decide) (inside .entityContainer (by decide))
    exact congrArg Scope.members container
  | mappedAssociationSetEnd =>
    have container := Viewpoint.mappedContainer_map spares
      (show .single "CdmEntityContainer" .entityContainer (.layer .conceptual) .containerName ∈
        Kind.references .entityContainerMapping by decide) (inside .entityContainer (by decide))
    have text := nearestText_map spares
      (show .single "Name" .associationSet (.layer .conceptual) .mappedContainerMember ∈
        Kind.references .associationSetMapping by decide)
      (by simpa [ReferenceRule.single] using inside .associationSet (by decide)) (by decide)
    simp only [scope, above]
    rw [show ((nearest? (view.ancestors.map f) .associationSetMapping).bind fun node =>
      node.firstText? separator "Name") = _ from text,
      show (view.map f).mappedContainer separator "CdmEntityContainer" = _ from container]
    rfl
  | mappedProperty =>
    exact congrArg Scope.members (mappedRowType_map spares inside (ends rfl))

end Catalog

end EntityModel
