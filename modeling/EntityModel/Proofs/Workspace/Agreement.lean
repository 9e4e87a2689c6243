import EntityModel.Proofs.Naming.Lineage
import EntityModel.Proofs.Workspace.Classified
import EntityModel.Proofs.Workspace.Revised

/-
**Members are declared under the symbols they are looked up by.**

What a member declares is joined from the names of the nodes around it. The texts that name it are
read from elsewhere: in the holder itself, in a mapping of the holder, at an association that a text
leads to. Each reading puts the name behind a symbol that it finds in its own way.

* `Catalog.LooksInto` — by the rule, texts of the owner name members of the holder; one case for each
  rule, with what has to stand around the owner.
* `LooksInto.scope` — **a rule that looks into a holder puts names behind the symbol that the holder
  declares.**
* `declared_as_read` — **so after every commit a member is declared under the symbol by which any such
  text looks it up.**
-/

namespace EntityModel

namespace Catalog

/-! ### Readings of members -/

/-- The owner stands below a container mapping that names the container in the role. -/
structure BelowMapping (separator : Char) (role : String) (owner : Site) (container : Node) :
    Prop where
  isContainer : container.kind = .entityContainer
  names : ∃ mapping ∈ owner.ancestors, mapping.kind = .entityContainerMapping ∧
    mapping.firstText? separator role = container.name

/-- By the rule, texts of the owner name members of the holder. -/
inductive LooksInto (separator : Char) (owner : Site) : NameRule → Site → Prop where
  /-- The owner stands in the container. -/
  | containerMember {container : Site} (isContainer : container.node.kind = .entityContainer)
      (inside : container.node ∈ owner.ancestors) :
      LooksInto separator owner .containerMember container
  | mappedContainerMember {container : Site}
      (below : BelowMapping separator "CdmEntityContainer" owner container.node) :
      LooksInto separator owner .mappedContainerMember container
  | mappedStoreEntitySet {container : Site}
      (below : BelowMapping separator "StorageEntityContainer" owner container.node) :
      LooksInto separator owner .mappedStoreEntitySet container
  /-- The owner stands in the type. -/
  | keyProperty {entityType : Site} (isType : entityType.node.kind = .entityType)
      (inside : entityType.node ∈ owner.ancestors) :
      LooksInto separator owner .keyProperty entityType
  /-- The first type that the nearest type mapping lists has the symbol of the type. -/
  | mappedProperty {entityType : Site} {mapping : Node} {text : String}
      (nearest : nearest? owner.ancestors .entityTypeMapping = some mapping)
      (first : mapping.firstText? separator "TypeName" = some text)
      (named : entityType.declaredSymbol? = some (.ofText (unwrapType text))) :
      LooksInto separator owner .mappedProperty entityType
  /-- The association set around the owner leads to the association. -/
  | associationSetRole {association : Site} {set : Node} {text : String}
      (nearest : nearest? owner.ancestors .associationSet = some set)
      (written : set.firstText? separator "Association" = some text)
      (qualifies : association.declaredSymbol? =
        some (qualifyType (aboveNearest owner.ancestors .associationSet) text)) :
      LooksInto separator owner .associationSetRole association
  /-- The owner itself leads to the association. -/
  | navigationRole {association : Site} {text : String}
      (written : owner.node.firstText? separator "Relationship" = some text)
      (qualifies : association.declaredSymbol? = some (qualifyType owner.ancestors text)) :
      LooksInto separator owner .navigationRole association
  /-- The owner stands below a mapping of the set, in a mapping of its container. -/
  | mappedAssociationSetEnd {set : Site} {container mapping : Node} {name : String}
      (isSet : set.node.kind = .associationSet) (within : container ∈ set.ancestors)
      (named : container.name = some name) (written : Text.isBlank name ≠ true)
      (below : BelowMapping separator "CdmEntityContainer" owner container)
      (inside : mapping ∈ owner.ancestors) (isMapping : mapping.kind = .associationSetMapping)
      (names : mapping.firstText? separator "Name" = set.node.name) :
      LooksInto separator owner .mappedAssociationSetEnd set

/-! ### Symbols of holders -/

/-- The symbol of a container is its name. -/
theorem declaredSymbol?_container {container : Node} (isContainer : container.kind = .entityContainer)
    {name : String} (named : container.name = some name) (written : Text.isBlank name ≠ true)
    (upper : List Node) : container.declaredSymbol? upper = some (.ofText name) := by
  unfold Node.declaredSymbol?
  rw [named, Option.bind_some, if_neg written]
  unfold Node.symbolOfName?
  rw [isContainer]

/-- The symbol of a type is its name in the schema around it. -/
theorem declaredSymbol?_entityType {type : Node} (isType : type.kind = .entityType) {name : String}
    (named : type.name = some name) (written : Text.isBlank name ≠ true) (upper : List Node) :
    type.declaredSymbol? upper = some (.ofParts [nearestName upper .schema, name]) := by
  unfold Node.declaredSymbol?
  rw [named, Option.bind_some, if_neg written]
  unfold Node.symbolOfName?
  rw [isType]

/-- The symbol of an association set is that of a member of the container around it. -/
theorem Classified.declaredSymbol?_associationSet {catalog : Catalog}
    {admits : Kind → String → Prop} (classified : catalog.Classified admits) {set : Site}
    (live : set ∈ catalog.sites) (isSet : set.node.kind = .associationSet) {name : String}
    (named : set.node.name = some name) (written : Text.isBlank name ≠ true) {container : Node}
    (within : container ∈ set.ancestors) (isContainer : container.kind = .entityContainer)
    {outer : String} (outerNamed : container.name = some outer)
    (outerWritten : Text.isBlank outer ≠ true) :
    set.declaredSymbol? = some (memberOf (.ofText outer) name) := by
  obtain ⟨parent, upper, line, isKind, _⟩ := classified.exists_holder (row_mem_rows live)
    (show set.node.kind.holder? = some .entityContainer by rw [isSet]; rfl)
  replace line : set.ancestors = parent :: upper := line
  obtain rfl : parent = container := by
    have nearest : nearest? set.ancestors .entityContainer = some container :=
      classified.nearest_above (row_mem_rows live) within isContainer rfl
    rw [line, nearest?, List.find?_cons_of_pos (by simp [isKind])] at nearest
    exact Option.some.inj nearest
  obtain ⟨scope, outermost, _, declared⟩ := @declaredSymbol?_within set.node parent upper
    (by rw [isSet, isContainer]; rfl) _ _ named written outerNamed outerWritten
  rw [declaredSymbol?_container isContainer outerNamed outerWritten, Option.some.injEq] at outermost
  rw [Site.declaredSymbol?, line, declared, outermost]

/-! ### Scopes -/

section Scopes

variable {catalog : Catalog} {admits : Kind → String → Prop} (classified : catalog.Classified admits)
  {separator : Char} {owner : Site} (live : owner ∈ catalog.sites)

include classified live

theorem BelowMapping.scope {role : String} {container : Node}
    (below : BelowMapping separator role owner container) {name : String}
    (named : container.name = some name) :
    (Viewpoint.of (some owner)).mappedContainer separator role = .ofText name := by
  obtain ⟨mapping, above, isMapping, names⟩ := below.names
  have nearest : nearest? (Viewpoint.of (some owner)).ancestors .entityContainerMapping =
      some mapping := classified.nearest_above (row_mem_rows live) above isMapping rfl
  unfold Viewpoint.mappedContainer
  rw [nearest, Option.bind_some, names, named]

variable (numbered : catalog.Numbered) {holder : Site} (holds : holder ∈ catalog.sites)
  {outer : String} (named : holder.node.name = some outer) (written : Text.isBlank outer ≠ true)
  {rule : NameRule}

include numbered holds named written

/-- **A rule that looks into a holder puts names behind the symbol that the holder declares.** -/
theorem LooksInto.scope (looks : LooksInto separator owner rule holder) :
    ∃ scope, holder.declaredSymbol? = some scope ∧
      catalog.scope separator (.of (some owner)) rule = .members scope := by
  cases looks with
  | containerMember isContainer inside =>
    refine ⟨_, declaredSymbol?_container isContainer named written _, congrArg Scope.members ?_⟩
    have nearest : nearest? (Viewpoint.of (some owner)).ancestors .entityContainer =
        some holder.node := classified.nearest_above (row_mem_rows live) inside isContainer rfl
    rw [nearestName, nearest, Option.bind_some, named, Option.getD_some]
  | mappedContainerMember below =>
    exact ⟨_, declaredSymbol?_container below.isContainer named written _,
      congrArg Scope.members (below.scope classified live named)⟩
  | mappedStoreEntitySet below =>
    exact ⟨_, declaredSymbol?_container below.isContainer named written _,
      congrArg Scope.members (below.scope classified live named)⟩
  | keyProperty isType inside =>
    obtain ⟨nearest, above⟩ := classified.nearest_holder numbered live holds inside
      (show holder.node.kind.lineage? = some [.schema] by rw [isType]; rfl)
    rw [isType] at nearest above
    replace nearest : nearest? (Viewpoint.of (some owner)).ancestors .entityType =
        some holder.node := nearest
    replace above : aboveNearest (Viewpoint.of (some owner)).ancestors .entityType =
        holder.ancestors := above
    have symbol := declaredSymbol?_entityType isType named written holder.ancestors
    refine ⟨_, symbol, ?_⟩
    simp only [Catalog.scope]
    rw [nearest, above, Option.bind_some, symbol, Option.getD_some]
  | @mappedProperty _ mapping text nearest first declared =>
    refine ⟨_, declared, congrArg Scope.members ?_⟩
    have found : (Viewpoint.of (some owner)).ancestors.find? (fun node =>
        node.kind = .entityTypeMapping ∨ node.kind = .endProperty) = some mapping :=
      classified.nearest_typeMapping (row_mem_rows live) nearest
    have isMapping : mapping.kind = .entityTypeMapping := by simpa using List.find?_some nearest
    unfold mappedRowType
    rw [found]
    simp only [isMapping, if_true, first, NameReading.plain]
  | @associationSetRole _ set text nearest written qualifies =>
    refine ⟨_, qualifies, ?_⟩
    have found : nearest? (Viewpoint.of (some owner)).ancestors .associationSet = some set := nearest
    simp only [Catalog.scope]
    rw [found, Option.bind_some, written, Option.map_some, Option.getD_some]
    rfl
  | @navigationRole _ text written qualifies =>
    refine ⟨_, qualifies, ?_⟩
    have own : (Viewpoint.of (some owner)).owner = some owner.node := rfl
    simp only [Catalog.scope]
    rw [own, Option.bind_some, written, Option.map_some, Option.getD_some]
    rfl
  | @mappedAssociationSetEnd _ container mapping name isSet within containerNamed containerWritten
      below inside isMapping names =>
    refine ⟨_, classified.declaredSymbol?_associationSet holds isSet named written within
      below.isContainer containerNamed containerWritten, congrArg Scope.members ?_⟩
    have nearest : nearest? (Viewpoint.of (some owner)).ancestors .associationSetMapping =
        some mapping := classified.nearest_above (row_mem_rows live) inside isMapping rfl
    rw [below.scope classified live containerNamed, nearest, Option.bind_some, names, named,
      Option.getD_some]

end Scopes

/-- **The symbol of a member is what any such text stands for**: the name of the member, read where
the rule looks into its holder. -/
theorem Classified.readName_member {catalog : Catalog} {admits : Kind → String → Prop}
    (classified : catalog.Classified admits) (numbered : catalog.Numbered) {member holder : Site}
    (live : member ∈ catalog.sites) (holds : holder ∈ catalog.sites)
    (within : holder.node ∈ member.ancestors)
    (held : member.node.kind.holder? = some holder.node.kind) {name outer : String}
    (named : member.node.name = some name) (written : Text.isBlank name ≠ true)
    (outerNamed : holder.node.name = some outer) (outerWritten : Text.isBlank outer ≠ true) :
    ∃ symbol, member.declaredSymbol? = some symbol ∧ symbol.isEmpty = false ∧
      ∀ {separator : Char} {owner : Site} {rule : NameRule}, owner ∈ catalog.sites →
        LooksInto separator owner rule holder →
          (catalog.readName separator (.of (some owner)) rule name).symbol = symbol := by
  obtain ⟨scope, declares, real, declared⟩ := @declaredSymbol?_within member.node holder.node
    holder.ancestors held _ _ named written outerNamed outerWritten
  rw [← classified.ancestors_of_member numbered live holds within held] at declared
  refine ⟨_, declared, isEmpty_memberOf real written, fun present looks => ?_⟩
  obtain ⟨other, declaresToo, reads⟩ :=
    looks.scope classified present numbered holds outerNamed outerWritten
  obtain rfl : other = scope := Option.some.inj (declaresToo.symm.trans declares)
  rw [readName_scope, reads]
  rfl

end Catalog

/-- **Members are declared under the symbols they are looked up by**, after every commit. Where the
history leaves the life of nodes to commits, this is the symbol that is stored. -/
theorem declared_as_read {options : Options} {commands : List Command} {after : Workspace}
    {report : Report}
    (done : ((Workspace.ofOptions options).after commands).commit = .ok (after, report))
    {member holder : Site} (live : member ∈ after.catalog.sites)
    (holds : holder ∈ after.catalog.sites) (within : holder.node ∈ member.ancestors)
    (held : member.node.kind.holder? = some holder.node.kind) {name outer : String}
    (named : member.node.name = some name) (written : Text.isBlank name ≠ true)
    (outerNamed : holder.node.name = some outer) (outerWritten : Text.isBlank outer ≠ true) :
    ∃ symbol, member.declaredSymbol? = some symbol ∧ symbol.isEmpty = false ∧
      (∀ {separator : Char} {owner : Site} {rule : NameRule}, owner ∈ after.catalog.sites →
        Catalog.LooksInto separator owner rule holder →
          (after.catalog.readName separator (.of (some owner)) rule name).symbol = symbol) ∧
      ((∀ command ∈ commands, command.isTransactional = true) →
        member.node.symbol = some symbol) := by
  have coherent := Workspace.coherent_after options commands
  have classified := Workspace.classified_commit (Workspace.placed_after options commands) coherent
    done
  have later := coherent.turn (@Workspace.Turn.commit (fun _ _ => True) _ _ _ _ .refl done)
  obtain ⟨symbol, declared, real, reads⟩ := classified.readName_member later.numbered live holds
    within held named written outerNamed outerWritten
  exact ⟨symbol, declared, real, reads, fun plain =>
    (Workspace.symbol_of_commit plain done live).trans declared⟩

/-- A set of an association with one of its ends, and a mapping of that end. -/
def endMapped : List Command :=
  [.load "store.csdl" .conceptual
      (.node { Head.ofTag "Schema" with attributes := .ofList [("Namespace", "Shop")] }
        [.node { Head.ofTag "EntityContainer" with attributes := .ofList [("Name", "Store")] }
          [.node { Head.ofTag "AssociationSet" with
              attributes := .ofList [("Name", " Purchases "), ("Association", "Shop.Orders")] }
            [.node { Head.ofTag "End" with attributes := .ofList [("Role", "Buyer")] } []]]]),
    .load "store.msl" .mapping
      (.node (.ofTag "Mapping")
        [.node { Head.ofTag "EntityContainerMapping" with
            attributes := .ofList [("CdmEntityContainer", "Store ")] }
          [.node { Head.ofTag "AssociationSetMapping" with
              attributes := .ofList [("Name", "Purchases")] }
            [.node { Head.ofTag "EndProperty" with
              attributes := .ofList [("Name", "Buyer")] } []]]])]

/-- The end is declared behind its set and its container, and the mapping finds it there. -/
theorem declared_endMapped : ∃ after report,
    ((Workspace.ofOptions .standard).after endMapped).commit = .ok (after, report) ∧
      ∃ member ∈ after.catalog.sites, ∃ owner ∈ after.catalog.sites,
        member.node.kind = .associationSetEnd ∧
        member.node.symbol = some (.ofText "Store.Purchases.Buyer") ∧
        (after.catalog.readName ';' (.of (some owner)) .mappedAssociationSetEnd "Buyer").symbol =
          .ofText "Store.Purchases.Buyer" := by
  have opened : ((Workspace.ofOptions .standard).after endMapped).transaction.isSome = true := by
    decide +kernel
  obtain ⟨after, report, done, reached⟩ := Workspace.exists_committed opened
  have declaring : ∃ member ∈ ((Workspace.ofOptions .standard).after
        (endMapped ++ [.commit])).catalog.sites,
      ∃ holder ∈ ((Workspace.ofOptions .standard).after (endMapped ++ [.commit])).catalog.sites,
        member.node.kind = .associationSetEnd ∧ member.node.name = some "Buyer" ∧
        member.node.symbol = some (.ofText "Store.Purchases.Buyer") ∧
        holder.node.kind = .associationSet ∧ holder.node.name = some "Purchases" ∧
        (∃ above ∈ member.ancestors, above.id = holder.id) ∧
        ∃ container ∈ holder.ancestors, container.kind = .entityContainer ∧
          container.name = some "Store" := by
    decide +kernel
  have mapped : ∃ owner ∈ ((Workspace.ofOptions .standard).after
        (endMapped ++ [.commit])).catalog.sites,
      (∃ outer ∈ owner.ancestors, outer.kind = .entityContainerMapping ∧
        outer.firstText? ';' "CdmEntityContainer" = some "Store") ∧
      ∃ mapping ∈ owner.ancestors, mapping.kind = .associationSetMapping ∧
        mapping.firstText? ';' "Name" = some "Purchases" := by
    decide +kernel
  have coherent := Workspace.coherent_after .standard (endMapped ++ [.commit])
  rw [reached] at declaring mapped coherent
  obtain ⟨member, live, holder, holds, isEnd, named, symbol, isSet, setNamed,
    ⟨above, inside, number⟩, container, containerIn, isContainer, containerNamed⟩ := declaring
  obtain ⟨owner, present, ⟨outer, outerIn, isOuter, outerText⟩, mapping, mappingIn, isMapping,
    mappingText⟩ := mapped
  obtain rfl := coherent.numbered.eq_node_above live holds inside number
  obtain ⟨declared, _, _, reads, stored⟩ := declared_as_read done live holds inside
    (by rw [isEnd, isSet]; rfl) named (by decide) setNamed (by decide)
  have same : declared = .ofText "Store.Purchases.Buyer" :=
    Option.some.inj ((stored (by decide)).symm.trans symbol)
  refine ⟨after, report, done, member, live, owner, present, isEnd, symbol, ?_⟩
  rw [← same]
  exact reads present (.mappedAssociationSetEnd isSet containerIn containerNamed (by decide)
    ⟨isContainer, outer, outerIn, isOuter, outerText.trans containerNamed.symm⟩ mappingIn isMapping
    (mappingText.trans setNamed.symm))

end EntityModel
