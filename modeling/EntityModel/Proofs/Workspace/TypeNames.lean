import EntityModel.Proofs.Naming.Spellings
import EntityModel.Proofs.Workspace.Classified
import EntityModel.Proofs.Workspace.Revised

/-
**Which spellings of a type lead to it from within its schema.**

* `Classified.shortNames_of_mem`, `Classified.declaredSymbol?_type` — what the schema gives to the texts
  below it and to the symbols of its types.
* `type_spelled` — **after every commit the name of a type behind the short name of its schema is read
  as its symbol, wrapped or not; behind the namespace it is read so unless the short name is the first
  of several segments of the namespace.**
-/

namespace EntityModel

open Text

namespace Catalog

section Schemas

variable {catalog : Catalog} {admits : Kind → String → Prop} (classified : catalog.Classified admits)
  {site : Site} (live : site ∈ catalog.sites) {schema : Node} (isSchema : schema.kind = .schema)
  (within : schema ∈ site.ancestors) {namespaceName : String}
  (namespaceNamed : schema.name = some namespaceName)

include classified live isSchema within namespaceNamed

/-- The short name of the schema stands for its namespace. -/
theorem Classified.shortNames_of_mem : shortNames site.ancestors =
    (schema.shortName?.map trim).map fun shortName => (namespaceName, shortName) := by
  have nearest : nearest? site.ancestors .schema = some schema :=
    classified.nearest_above (row_mem_rows live) within isSchema rfl
  unfold shortNames
  rw [nearest, Option.bind_some, namespaceNamed, Option.bind_some, Option.map_map]
  rfl

theorem Classified.declaredSymbol?_type
    (isType : site.node.kind ∈ [Kind.entityType, .association, .function]) {name : String}
    (named : site.node.name = some name) (written : isBlank name ≠ true) :
    site.declaredSymbol? = some (.ofParts [namespaceName, name]) := by
  have nearest : nearest? site.ancestors .schema = some schema :=
    classified.nearest_above (row_mem_rows live) within isSchema rfl
  have outer : nearestName site.ancestors .schema = namespaceName := by
    rw [nearestName, nearest, Option.bind_some, namespaceNamed, Option.getD_some]
  have enclosed : site.node.kind.enclosing? = some [.schema] := by
    simp only [List.mem_cons, List.not_mem_nil, or_false] at isType
    rcases isType with kind | kind | kind <;> rw [kind] <;> rfl
  unfold Site.declaredSymbol? Node.declaredSymbol?
  rw [named, Option.bind_some, if_neg written, symbolOfName?_enclosing enclosed, List.map_singleton,
    outer]
  rfl

/-- A text that spells a type is read as the name that stands in it. -/
theorem Classified.readName_type (separator : Char) {bare text : String}
    (trimmed : Trimmed bare.toList) (open_ : bare.toList.getLast? ≠ some ')')
    (spells : Spells bare text) :
    (catalog.readName separator (.of (some site)) .typeReference text).symbol =
      expandShort ((schema.shortName?.map trim).map fun shortName => (namespaceName, shortName))
        bare := by
  have short := classified.shortNames_of_mem live isSchema within namespaceNamed
  show qualifyType site.ancestors text = _
  rw [qualifyType_scope, Scope.read, short, unwrapType_of_spells trimmed open_ spells]

end Schemas

end Catalog

/-- **The spellings of a type**, after every commit, for texts of nodes in its schema. Behind the short
name, and behind a namespace of which the short name is not the first of several segments, a name is
read as the symbol of the type, up to blanks and in the wrapper too. Where the history leaves the life
of nodes to commits, this is the symbol that is stored. -/
theorem type_spelled {options : Options} {commands : List Command} {after : Workspace}
    {report : Report}
    (done : ((Workspace.ofOptions options).after commands).commit = .ok (after, report))
    {schema : Node} (isSchema : schema.kind = .schema) {first : String} {rest : List String}
    (identifiers : ∀ segment ∈ first :: rest, isIdentifier segment = true)
    (namespaceNamed : schema.name = some (".".intercalate (first :: rest)))
    (shortIdentifier : ∀ shortName ∈ schema.shortName?, isIdentifier (trim shortName) = true)
    {declared : Site} (live : declared ∈ after.catalog.sites) (within : schema ∈ declared.ancestors)
    (isType : declared.node.kind ∈ [Kind.entityType, .association, .function]) {name : String}
    (named : declared.node.name = some name) (identifier : isIdentifier name = true) :
    ∃ symbol, declared.declaredSymbol? = some symbol ∧ symbol.isEmpty = false ∧
      (∀ {separator : Char} {owner : Site}, owner ∈ after.catalog.sites → schema ∈ owner.ancestors →
        ∀ text,
          ((∃ shortName ∈ schema.shortName?, Spells (trim shortName ++ "." ++ name) text) →
            (after.catalog.readName separator (.of (some owner)) .typeReference text).symbol =
              symbol) ∧
          (Spells (fullName (first :: rest) name) text →
            ((after.catalog.readName separator (.of (some owner)) .typeReference text).symbol =
                symbol ↔ ¬(schema.shortName?.map trim = some first ∧ rest ≠ [])))) ∧
      ((∀ command ∈ commands, command.isTransactional = true) →
        declared.node.symbol = some symbol) := by
  have classified := Workspace.classified_commit (Workspace.placed_after options commands)
    (Workspace.coherent_after options commands) done
  have isPart := isPart_of_isIdentifier identifier
  have symbol := classified.declaredSymbol?_type live isSchema within namespaceNamed isType named
    isPart.not_blank
  have whole := ofParts_namespace identifiers identifier
  refine ⟨_, symbol, Symbol.isEmpty_ofParts [_] isPart.not_blank, ?_, fun plain => ?_⟩
  · intro separator owner present inside text
    refine ⟨?_, fun spells => ?_⟩
    · rintro ⟨shortName, isShort, spells⟩
      have short := shortIdentifier shortName isShort
      obtain ⟨trimmed, ends⟩ := @trimmed_fullName (trim shortName) []
        (fun segment listed => List.mem_singleton.mp listed ▸ short) name identifier
      rw [classified.readName_type present isSchema inside namespaceNamed separator trimmed ends spells,
        show schema.shortName? = some shortName from isShort, Option.map_some, Option.map_some]
      exact expandShort_shortForm (isPart_of_isIdentifier short).separator _ name
    · obtain ⟨trimmed, ends⟩ := trimmed_fullName identifiers identifier
      rw [classified.readName_type present isSchema inside namespaceNamed separator trimmed ends spells,
        whole]
      exact expandShort_fullName identifiers identifier _
  · exact (Workspace.symbol_of_commit plain done live).trans symbol

/-- A schema whose short name is the first segment of its namespace, with one type. -/
def shortSegment : List Command :=
  [.load "sales.csdl" .conceptual
    (.node { Head.ofTag "Schema" with
        attributes := .ofList [("Namespace", "Shop.Sales"), ("Alias", "Shop")] }
      [.node { Head.ofTag "EntityType" with attributes := .ofList [("Name", "Order")] } []])]

/-- The short name leads to the type, and the namespace does not. -/
theorem type_shortSegment : ∃ after report,
    ((Workspace.ofOptions .standard).after shortSegment).commit = .ok (after, report) ∧
      ∃ declared ∈ after.catalog.sites,
        declared.node.symbol = some (.ofText "Shop.Sales.Order") ∧
        (after.catalog.readName ';' (.of (some declared)) .typeReference
          " IsTypeOf( Shop.Order )").symbol = .ofText "Shop.Sales.Order" ∧
        (after.catalog.readName ';' (.of (some declared)) .typeReference
          "Shop.Sales.Order").symbol ≠ .ofText "Shop.Sales.Order" := by
  have opened : ((Workspace.ofOptions .standard).after shortSegment).transaction.isSome = true := by
    decide +kernel
  obtain ⟨after, report, done, reached⟩ := Workspace.exists_committed opened
  have places : ∃ declared ∈ ((Workspace.ofOptions .standard).after
        (shortSegment ++ [.commit])).catalog.sites,
      ∃ schema ∈ declared.ancestors, schema.kind = .schema ∧ schema.name = some "Shop.Sales" ∧
        schema.shortName? = some "Shop" ∧ declared.node.kind = .entityType ∧
        declared.node.name = some "Order" ∧
        declared.node.symbol = some (.ofText "Shop.Sales.Order") := by
    decide +kernel
  rw [reached] at places
  obtain ⟨declared, live, schema, within, isSchema, schemaNamed, short, isType, named, symbol⟩ :=
    places
  have identifiers : ∀ segment ∈ ["Shop", "Sales"], isIdentifier segment = true := by
    decide +kernel
  have shortIdentifier : ∀ shortName ∈ schema.shortName?, isIdentifier (trim shortName) = true := by
    rw [short]
    decide +kernel
  obtain ⟨read, _, _, reads, stored⟩ := type_spelled done isSchema identifiers schemaNamed
    shortIdentifier live within (by rw [isType]; decide) named (by decide +kernel)
  have same : read = .ofText "Shop.Sales.Order" :=
    Option.some.inj ((stored (by decide)).symm.trans symbol)
  refine ⟨after, report, done, declared, live, symbol, ?_, fun found => ?_⟩
  · rw [← same]
    exact (reads live within _).1 ⟨"Shop", short, Or.inr ⟨" Shop.Order ", by decide +kernel,
      by decide +kernel⟩⟩
  · rw [← same] at found
    exact ((reads live within _).2 (Or.inl (by decide +kernel))).mp found ⟨by rw [short]; decide +kernel,
      List.cons_ne_nil _ _⟩

end EntityModel
