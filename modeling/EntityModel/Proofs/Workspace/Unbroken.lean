import EntityModel.Proofs.Workspace.Classified
import EntityModel.Proofs.Workspace.Moving

/-
**References that do not lead to a node, when it is renamed.**

* `namedAt` — what the first text of a reference stands for; `namedAt_after` — **it stands for the same
  node after a renaming**. `typeAtRole` — the type at an end that a role names.
* `moves_containerMember`, …, `moves_mappedProperty` — the scopes of members, one for each way of
  reading: they move with the node they stand for. `scopeMoves` puts them together.
* `known_after` — a reference that was known is known.
* `references_unbroken` — **after every history of transactions a node that cannot be mistaken for
  another is renamed without a reference being lost**, whatever it leads to.
-/

namespace EntityModel

/-- What a node declares is not empty. -/
theorem Node.declared?_ne_empty (node : Node) : node.declared? ≠ some .empty :=
  fun same => absurd (Node.declared?_eq_some_iff.mp same).2 (by decide)

namespace Workspace

/-- The symbol that the first text of a reference stands for; empty without one. -/
def namedAt (workspace : Workspace) (row : Row) (rule : ReferenceRule) : Symbol :=
  ((row.node.firstText? workspace.options.listSeparator rule.role).map
    (workspace.scopeAt row rule.reading).read).getD .empty

/-- What the nearest node of a kind names by a reference; empty without one. -/
def namedNearest (workspace : Workspace) (row : Row) (kind : Kind) (rule : ReferenceRule) : Symbol :=
  ((nearest? row.above kind).map fun node =>
    workspace.namedAt ⟨row.layer, aboveNearest row.above kind, node⟩ rule).getD .empty

/-- The symbol of the nearest node of a kind; empty without one. -/
def nearestSymbol (row : Row) (kind : Kind) : Symbol :=
  ((nearest? row.above kind).bind fun node =>
    node.declaredSymbol? (aboveNearest row.above kind)).getD .empty

/-- The type at the end that a role names in an association. -/
def typeAtRole (workspace : Workspace) (association : Symbol) (role : Option String) : NameReading :=
  if (memberOf association (role.getD "")).isEmpty then .plain .empty
  else workspace.catalog.consultEnd workspace.options.listSeparator
    (memberOf association (role.getD ""))

/-! ### What scopes are made of -/

section Scopes

variable (workspace : Workspace) (row : Row)

/-- The first text of a reference, taken as its scope takes it. -/
theorem namedAt_eq (rule : ReferenceRule) (take : String → Symbol)
    (takes : ∀ text, (workspace.scopeAt row rule.reading).read text = take text) :
    workspace.namedAt row rule =
      match row.node.firstText? workspace.options.listSeparator rule.role with
      | some text => take text
      | none => .empty := by
  unfold namedAt
  cases row.node.firstText? workspace.options.listSeparator rule.role with
  | none => rfl
  | some text => exact takes text

theorem namedNearest_eq (kind : Kind) (rule : ReferenceRule) (take : String → Symbol)
    (takes : ∀ node text, (workspace.scopeAt ⟨row.layer, aboveNearest row.above kind, node⟩
      rule.reading).read text = take text) :
    workspace.namedNearest row kind rule = match (nearest? row.above kind).bind fun node =>
      node.firstText? workspace.options.listSeparator rule.role with
    | some text => take text
    | none => .empty := by
  unfold namedNearest
  cases nearest? row.above kind with
  | none => rfl
  | some node => exact namedAt_eq workspace ⟨row.layer, _, node⟩ rule take (takes node)

theorem holder_keyProperty : (workspace.scopeAt row .keyProperty).holder =
    nearestSymbol row .entityType := rfl

theorem holder_containerMember : (workspace.scopeAt row .containerMember).holder =
    nearestSymbol row .entityContainer := by
  show Symbol.ofText (((nearest? row.above .entityContainer).bind Node.name).getD "") = _
  unfold nearestSymbol
  cases found : nearest? row.above .entityContainer with
  | none => rfl
  | some container =>
    have isContainer : container.kind = .entityContainer := by simpa using List.find?_some found
    rw [Option.bind_some, Option.bind_some, Node.declaredSymbol?]
    cases container.name with
    | none => rfl
    | some own =>
      rw [Option.getD_some, Option.bind_some, Node.symbolOfName?, isContainer]
      by_cases blank : Text.isBlank own = true
      · rw [if_pos blank, Option.getD_some, Symbol.ofText, Text.trim,
          (Text.trimChars_eq_nil_iff own).mpr blank]
        rfl
      · rw [if_neg blank, Option.getD_some]

theorem holder_associationSetRole : (workspace.scopeAt row .associationSetRole).holder =
    workspace.namedNearest row .associationSet
      (.single "Association" .association .ownLayer .typeReference) := by
  rw [namedNearest_eq workspace row .associationSet (.single _ _ _ .typeReference)
    (qualifyType (aboveNearest row.above .associationSet))
    fun _ text => (qualifyType_scope _ text).symm]
  simp only [scopeAt, Catalog.scope, Scope.holder, Viewpoint.ofRow, Option.map_some,
    Option.getD_some, ReferenceRule.single]
  cases (nearest? row.above .associationSet).bind fun node =>
      node.firstText? workspace.options.listSeparator "Association" with
  | none => rfl
  | some text => rfl

theorem holder_navigationRole : (workspace.scopeAt row .navigationRole).holder =
    workspace.namedAt row (.single "Relationship" .association .ownLayer .typeReference) := by
  have types : qualifyType row.above = (Scope.types (shortNames row.above)).read :=
    funext (qualifyType_scope _)
  simp only [scopeAt, Catalog.scope, Scope.holder, Viewpoint.ofRow, Option.map_some,
    Option.getD_some, Option.bind_some]
  rw [types]
  rfl

theorem mappedContainer_eq (role : String) (layer : Layer) :
    (Viewpoint.ofRow (some row)).mappedContainer workspace.options.listSeparator role =
      workspace.namedNearest row .entityContainerMapping
        (.single role .entityContainer (.layer layer) .containerName) :=
  (namedNearest_eq workspace row .entityContainerMapping
    (.single role .entityContainer (.layer layer) .containerName) .ofText fun _ _ => rfl).symm

theorem mappedType_eq (kind target : Kind) (role : String) (layer : Layer) :
    (Viewpoint.ofRow (some row)).mappedType workspace.options.listSeparator kind role =
      workspace.namedNearest row kind (.single role target (.layer layer) .mappedType) :=
  (namedNearest_eq workspace row kind (.single role target (.layer layer) .mappedType)
    (fun text => .ofText (unwrapType text)) fun _ text => expandShort_none (unwrapType text)).symm

theorem typeName_eq : (match row.node.firstText? workspace.options.listSeparator "TypeName" with
      | some text => Symbol.ofText (unwrapType text)
      | none => .empty) = workspace.namedAt row
        (ReferenceRule.single "TypeName" .entityType (.layer .conceptual) .mappedType).toMany :=
  (namedAt_eq workspace row
    (ReferenceRule.single "TypeName" .entityType (.layer .conceptual) .mappedType).toMany
    (fun text => .ofText (unwrapType text)) fun text => expandShort_none (unwrapType text)).symm

/-- The type a row speaks of is the first of its type mapping, or the one at the end it names. -/
theorem mappedRowType_eq : workspace.catalog.mappedRowType workspace.options.listSeparator
      (.ofRow (some row)) =
    match row.above.find? fun node => node.kind = .entityTypeMapping ∨ node.kind = .endProperty with
    | none => .plain .empty
    | some node =>
      if node.kind = .entityTypeMapping then
        .plain <| match node.firstText? workspace.options.listSeparator "TypeName" with
          | some text => .ofText (unwrapType text)
          | none => .empty
      else workspace.typeAtRole (workspace.namedNearest row .associationSetMapping
          (.single "TypeName" .association (.layer .conceptual) .mappedType))
        (node.firstText? workspace.options.listSeparator "Name") := by
  unfold Catalog.mappedRowType
  rw [show (Viewpoint.ofRow (some row)).ancestors = row.above from rfl]
  cases row.above.find? fun node => node.kind = .entityTypeMapping ∨ node.kind = .endProperty with
  | none => rfl
  | some node =>
    dsimp only
    rw [← mappedType_eq]
    rfl

theorem symbol_readEnd (symbol : Symbol) :
    (Catalog.readEnd workspace.options.listSeparator symbol (some row)).symbol =
      workspace.namedAt row (.single "Type" .entityType .ownLayer .typeReference) := by
  simp only [Catalog.readEnd, namedAt, ReferenceRule.single]
  cases row.node.firstText? workspace.options.listSeparator "Type" with
  | none => rfl
  | some text => exact qualifyType_scope row.above text

/-- The row of ends stands right below the row of its set, so both see the same containers. -/
theorem holder_mappedAssociationSetEnd {parent : Node} {upper : List Node}
    (above : row.above = parent :: upper) (kind : parent.kind = .associationSetMapping) :
    (workspace.scopeAt row .mappedAssociationSetEnd).holder =
      workspace.namedNearest row .associationSetMapping
        (.single "Name" .associationSet (.layer .conceptual) .mappedContainerMember) := by
  have nearest : nearest? row.above .associationSetMapping = some parent := by
    rw [above, nearest?, List.find?_cons_of_pos (by simpa using kind)]
  have rest : aboveNearest row.above .associationSetMapping = upper := by
    rw [aboveNearest, above, List.dropWhile_cons_of_neg (by simp [kind])]
    rfl
  have containers : (Viewpoint.ofRow (some row)).mappedContainer workspace.options.listSeparator
      "CdmEntityContainer" = (Viewpoint.ofRow (some ⟨row.layer, upper, parent⟩)).mappedContainer
        workspace.options.listSeparator "CdmEntityContainer" := by
    unfold Viewpoint.mappedContainer
    rw [show (Viewpoint.ofRow (some row)).ancestors = row.above from rfl, above, nearest?,
      List.find?_cons_of_neg (by simp [kind])]
    rfl
  simp only [scopeAt, Catalog.scope, Scope.holder, namedNearest, rest]
  rw [show (Viewpoint.ofRow (some row)).ancestors = row.above from rfl, nearest, containers,
    Option.bind_some, Option.map_some, Option.getD_some, namedAt]
  simp only [ReferenceRule.single, scopeAt, Catalog.scope]
  cases parent.firstText? workspace.options.listSeparator "Name" with
  | none => exact (Scope.members _).read_empty
  | some text => rfl

end Scopes

namespace Moved

variable {id : NodeId} {name : String} {f : Node → Node} {before after : Workspace}
  (moved : Moved id name f before after)

include moved

section Row

variable {row : Row} (member : row ∈ before.catalog.rows)

include member

/-- **The first text of a reference stands for the same node.** -/
theorem namedAt_after {rule : ReferenceRule} (listed : rule ∈ row.node.kind.references)
    (moves : ∀ holder, rule.reading.holder? = some holder →
      ScopeMoves f before after row rule.reading holder) {target : Row}
    (there : target ∈ before.catalog.rows) (expected : target.node.kind ∈ rule.expected)
    (counts : before.Counts target)
    (names : target.node.declared? = some (before.namedAt row rule)) :
    (f target.node).declared? = some (after.namedAt (row.map f) rule) := by
  have revised := moved.revised
  obtain ⟨reference, inside, rfl, _⟩ :=
    (revised.earlier.read revised.idle member).exists_reference listed
  have later : (f row.node).firstText? after.options.listSeparator reference.rule.role =
      (row.node.firstText? before.options.listSeparator reference.rule.role).map
        (before.retexted id name row reference.rule) := by
    rw [revised.options]
    exact moved.firstText?_after member inside
  unfold namedAt at names ⊢
  rw [show (row.map f).node = f row.node from rfl, later]
  cases first : row.node.firstText? before.options.listSeparator reference.rule.role with
  | none =>
    rw [first] at names
    exact absurd names target.node.declared?_ne_empty
  | some text =>
    rw [first] at names
    have written : text ∈ reference.texts before.options.listSeparator := by
      have found := (revised.earlier.read revised.idle member).firstText?_of_mem
        before.options.listSeparator inside
      exact List.mem_of_find?_eq_some (found.symm.trans first)
    exact moved.tracks member inside written moves there expected counts names

omit member in
theorem nearest?_after (kind : Kind) :
    nearest? (row.map f).above kind = (nearest? row.above kind).map f :=
  nearest?_map_of_kind (fun node _ => moved.revised.sameKind node) kind

omit member in
theorem aboveNearest_after (kind : Kind) :
    aboveNearest (row.map f).above kind = (aboveNearest row.above kind).map f :=
  aboveNearest_map_of_kind (fun node _ => moved.revised.sameKind node) kind

/-- **What the nearest node of a kind names**, it names after a renaming. -/
theorem namedNearest_after {kind : Kind} {rule : ReferenceRule} (listed : rule ∈ kind.references)
    (moves : ∀ holder, rule.reading.holder? = some holder → ∀ place ∈ before.catalog.rows,
      place.node.kind = kind → ScopeMoves f before after place rule.reading holder) {target : Row}
    (there : target ∈ before.catalog.rows) (expected : target.node.kind ∈ rule.expected)
    (counts : before.Counts target)
    (names : target.node.declared? = some (before.namedNearest row kind rule)) :
    (f target.node).declared? = some (after.namedNearest (row.map f) kind rule) := by
  unfold namedNearest at names ⊢
  rw [moved.nearest?_after, moved.aboveNearest_after]
  cases found : nearest? row.above kind with
  | none =>
    rw [found] at names
    exact absurd names target.node.declared?_ne_empty
  | some node =>
    rw [found] at names
    obtain ⟨isKind, live⟩ := Catalog.exists_nearest member found
    exact moved.namedAt_after live (show rule ∈ node.kind.references from isKind ▸ listed)
      (fun holder held => moves holder held _ live isKind) there expected counts names

/-! ### Scopes that move -/

/-- A node with an identifier for a name declares a symbol after the renaming. -/
theorem exists_declared_after (enclosed : row.node.kind.enclosing?.isSome = true)
    (identifier : row.node.kind.hasIdentifierName = true)
    (counts : before.Counts row) :
    ∃ symbol, (f row.node).declared? = some symbol := by
  obtain ⟨own, named, isPart⟩ := moved.exists_name_after member identifier counts
  obtain ⟨enclosing, enclosed⟩ := Option.isSome_iff_exists.mp enclosed
  rw [← moved.revised.sameKind row.node] at enclosed
  have symbol : (f row.node).symbol = (f row.node).symbolOfName? (row.map f).above own := by
    rw [symbol_eq moved.revised member, Row.declaredSymbol?, Node.declaredSymbol?,
      show (row.map f).node = f row.node from rfl, named, Option.bind_some, if_neg isPart.not_blank]
  exact ⟨_, Node.declared?_eq_some_iff.mpr ⟨symbol.trans (symbolOfName?_part enclosed _ isPart),
    Symbol.isEmpty_append isPart.nonempty none⟩⟩

/-- What declares the symbol of the nearest node of a kind declares it after a renaming, if the symbol
rests on a schema at most. -/
theorem nearestSymbol_after {kind : Kind} (enclosed : kind.enclosing?.isSome = true)
    (identifier : kind.hasIdentifierName = true) (plain : ∀ outer ∈ kind.restsOn, outer = .schema)
    {upper : Row} (there : upper ∈ before.catalog.rows) (isHolder : upper.node.kind = kind)
    (declares : upper.node.declared? = some (nearestSymbol row kind)) :
    (f upper.node).declared? = some (nearestSymbol (row.map f) kind) := by
  unfold nearestSymbol at declares ⊢
  rw [moved.nearest?_after, moved.aboveNearest_after]
  cases found : nearest? row.above kind with
  | none =>
    rw [found] at declares
    exact absurd declares upper.node.declared?_ne_empty
  | some node =>
    obtain ⟨rfl, live⟩ := Catalog.exists_nearest member found
    have symbol : node.symbol = node.declaredSymbol? (aboveNearest row.above node.kind) :=
      moved.revised.earlier.symbol moved.revised.idle live
    have symbolAfter : (f node).symbol =
        (f node).declaredSymbol? ((aboveNearest row.above node.kind).map f) :=
      symbol_eq moved.revised live
    rw [found, Option.bind_some, ← symbol] at declares
    rw [Option.map_some, Option.bind_some, ← symbolAfter]
    cases known : node.symbol with
    | none =>
      rw [known] at declares
      exact absurd declares upper.node.declared?_ne_empty
    | some own =>
      rw [known, Option.getD_some] at declares
      have first : node.declared? = some own :=
        Node.declared?_eq_some_iff.mpr ⟨known, (Node.declared?_eq_some_iff.mp declares).2⟩
      obtain ⟨later, declaresAfter⟩ := moved.exists_declared_after live enclosed identifier (.of_plain plain)
      rw [← moved.same_after live there isHolder.symm enclosed plain first declares, declaresAfter,
        (Node.declared?_eq_some_iff.mp declaresAfter).1, Option.getD_some]

theorem moves_containerMember :
    ScopeMoves f before after row .containerMember .entityContainer := by
  intro upper there isHolder declares
  rw [holder_containerMember] at declares ⊢
  exact moved.nearestSymbol_after member rfl rfl (by decide) there isHolder declares

theorem moves_keyProperty : ScopeMoves f before after row .keyProperty .entityType := by
  intro upper there isHolder declares
  rw [holder_keyProperty] at declares ⊢
  exact moved.nearestSymbol_after member rfl rfl (by decide) there isHolder declares

theorem moves_associationSetRole :
    ScopeMoves f before after row .associationSetRole .association := by
  intro upper there isHolder declares
  rw [holder_associationSetRole] at declares ⊢
  exact moved.namedNearest_after member (show _ ∈ Kind.references .associationSet by decide)
    (by nofun) there (by simp [ReferenceRule.single, isHolder]) (.of_ne (by simp [isHolder])) declares

theorem moves_navigationRole (kind : row.node.kind = .navigationProperty) :
    ScopeMoves f before after row .navigationRole .association := by
  intro upper there isHolder declares
  rw [holder_navigationRole] at declares ⊢
  exact moved.namedAt_after member (by rw [kind]; decide) (by nofun) there
    (by simp [ReferenceRule.single, isHolder]) (.of_ne (by simp [isHolder])) declares

/-- **The container that the mapping around names**, it names after a renaming. -/
theorem mappedContainer_after {role : String} {layer : Layer}
    (listed : .single role .entityContainer (.layer layer) .containerName ∈
      Kind.references .entityContainerMapping) {upper : Row}
    (there : upper ∈ before.catalog.rows) (isHolder : upper.node.kind = .entityContainer)
    (declares : upper.node.declared? = some ((Viewpoint.ofRow (some row)).mappedContainer
      before.options.listSeparator role)) :
    (f upper.node).declared? = some ((Viewpoint.ofRow (some (row.map f))).mappedContainer
      after.options.listSeparator role) := by
  rw [mappedContainer_eq _ _ role layer] at declares ⊢
  exact moved.namedNearest_after member listed (by nofun) there
    (by simp [ReferenceRule.single, isHolder]) (.of_ne (by simp [isHolder])) declares

theorem moves_mappedContainerMember :
    ScopeMoves f before after row .mappedContainerMember .entityContainer :=
  fun _ => moved.mappedContainer_after member
    (show ReferenceRule.single "CdmEntityContainer" _ (.layer .conceptual) _ ∈ _ by decide)

theorem moves_mappedStoreEntitySet :
    ScopeMoves f before after row .mappedStoreEntitySet .entityContainer :=
  fun _ => moved.mappedContainer_after member
    (show ReferenceRule.single "StorageEntityContainer" _ (.layer .storage) _ ∈ _ by decide)

theorem moves_mappedAssociationSetEnd (kind : row.node.kind = .endProperty) :
    ScopeMoves f before after row .mappedAssociationSetEnd .associationSet := by
  intro upper there isHolder declares
  obtain ⟨parent, rest, above, isMapping⟩ := moved.placed.exists_setMapping member kind
  have aboveAfter : (row.map f).above = f parent :: rest.map f := by
    rw [show (row.map f).above = row.above.map f from rfl, above, List.map_cons]
  rw [holder_mappedAssociationSetEnd before row above isMapping] at declares
  rw [holder_mappedAssociationSetEnd after (row.map f) aboveAfter
    ((moved.revised.sameKind parent).trans isMapping)]
  refine moved.namedNearest_after member (show _ ∈ Kind.references .associationSetMapping by decide)
    (fun holder held place live _ => ?_) there (by simp [ReferenceRule.single, isHolder])
    (.of_ne (by simp [isHolder])) declares
  obtain rfl : Kind.entityContainer = holder := Option.some.inj held
  exact moved.moves_mappedContainerMember live

end Row

/-! ### Properties of rows -/

section Ends

variable {row other : Row} (member : row ∈ before.catalog.rows) (there : other ∈ before.catalog.rows)
  (isEnd : row.node.kind = .associationEnd) (isEndToo : other.node.kind = .associationEnd)

include member there isEnd isEndToo

/-- Just the ends that declared the symbol of an end that is not renamed declare its new one. -/
theorem end_declares_iff (number : row.id ≠ id) {symbol next : Symbol}
    (declares : row.node.declared? = some symbol)
    (declaresAfter : (f row.node).declared? = some next) :
    (f other.node).declared? = some next ↔ other.node.declared? = some symbol := by
  have held : row.node.kind.holder? = some .association := by rw [isEnd]; rfl
  have heldToo : other.node.kind.holder? = some .association := by rw [isEndToo]; rfl
  have counts : before.Counts row := .of_ne (by simp [isEnd])
  have countsToo : before.Counts other := .of_ne (by simp [isEndToo])
  obtain ⟨parent, live, isHolder, _, ⟨scope, own, isMember⟩, scopeAfter, ownAfter, isMemberAfter⟩ :=
    moved.exists_member member held counts
  obtain ⟨upper, above, isHolderToo, _, ⟨outer, name, isMemberToo⟩, outerAfter, nameAfter,
    isMemberTooAfter⟩ := moved.exists_member there heldToo countsToo
  have kinds : upper.node.kind = parent.node.kind := isHolderToo.trans isHolder.symm
  have enclosed : upper.node.kind.enclosing?.isSome = true := by rw [isHolderToo]; rfl
  have plain : ∀ kind ∈ upper.node.kind.restsOn, kind = .schema := by rw [isHolderToo]; decide
  have names : other.id ≠ id → own = ownAfter ∧ name = nameAfter := by
    intro numberToo
    have first := moved.name_kept member number counts
    have second := moved.name_kept there numberToo countsToo
    rw [isMember.named, isMemberAfter.named] at first
    rw [isMemberToo.named, isMemberTooAfter.named] at second
    exact ⟨(Option.some.inj first).symm, (Option.some.inj second).symm⟩
  constructor
  · intro second
    have numberToo : other.id ≠ id := fun same => number
      (moved.eq_of_declared_after there member same (isEnd.trans isEndToo.symm) second declaresAfter)
    obtain ⟨rfl, rfl⟩ := names numberToo
    obtain ⟨rfl, rfl⟩ := isMemberTooAfter.eq isMemberAfter.isPart.trimmed
      isMemberAfter.isPart.separator (second.trans (declaresAfter.symm.trans isMemberAfter.declared))
    have scopes := moved.same_before above live kinds enclosed plain isMemberTooAfter.holder
      isMemberAfter.holder
    rw [isMemberToo.holder, isMember.holder] at scopes
    rw [isMemberToo.declared, Option.some.inj scopes, ← isMember.declared, declares]
  · intro second
    have numberToo : other.id ≠ id := by
      intro same
      have symbols : row.node.symbol = other.node.symbol :=
        (Node.declared?_eq_some_iff.mp declares).1.trans
          (Node.declared?_eq_some_iff.mp second).1.symm
      exact number ((moved.eq_of_symbol there same member (isEnd.trans isEndToo.symm) symbols) ▸ same)
    obtain ⟨rfl, rfl⟩ := names numberToo
    obtain ⟨rfl, rfl⟩ := isMemberToo.eq isMember.isPart.trimmed isMember.isPart.separator
      (second.trans (declares.symm.trans isMember.declared))
    have scopes := moved.same_after above live kinds enclosed plain isMemberToo.holder isMember.holder
    rw [isMemberTooAfter.holder, isMemberAfter.holder] at scopes
    rw [isMemberTooAfter.declared, Option.some.inj scopes, ← isMemberAfter.declared, declaresAfter]

end Ends

section Row

variable {row : Row} (member : row ∈ before.catalog.rows)

include member

/-- The role that a row of ends names stays as it is: it leads to the end of a set. -/
theorem role_after (kind : row.node.kind = .endProperty) :
    (f row.node).firstText? before.options.listSeparator "Name" =
        row.node.firstText? before.options.listSeparator "Name" ∧
      ∀ role ∈ row.node.firstText? before.options.listSeparator "Name",
        Text.Trimmed role.toList ∧ '.' ∉ role.toList := by
  have revised := moved.revised
  have coherent := revised.earlier.coherent
  have read := revised.earlier.read revised.idle member
  obtain ⟨reference, inside, rule, _⟩ := read.exists_reference
    (show .single "Name" .associationSetEnd (.layer .conceptual) .mappedAssociationSetEnd ∈
      row.node.kind.references by rw [kind]; decide)
  have role : reference.role = "Name" := congrArg ReferenceRule.role rule
  have stays : ∀ text, before.retexted id name row reference.rule text = text := by
    refine fun text => if_neg fun leads => ?_
    obtain ⟨_, _, found, declares, fits, same⟩ := Catalog.target_of_readSlot
      coherent.numbered coherent.exact rfl leads
    rw [Candidate.fits, Bool.and_eq_true, List.contains_iff_mem, rule] at fits
    exact moved.kind_ne (Catalog.mem_declaring.mp declares).1 same (List.mem_singleton.mp fits.2)
  have later := moved.firstText?_after member inside
  rw [funext stays, Option.map_id', role] at later
  refine ⟨later, fun text first => ?_⟩
  have first : row.node.firstText? before.options.listSeparator reference.role = some text :=
    role ▸ first
  rw [read.firstText?_of_mem _ inside] at first
  have listed := List.mem_of_find?_eq_some first
  have bare := moved.bare_of_slot member inside (by rw [rule]; decide)
    (moved.mem_slots member inside listed)
  rw [Catalog.text_readSlot] at bare
  exact ⟨Reference.trimmed_of_mem_texts listed, bare⟩

omit member in
/-- **The type at an end**, found by an association and a role, is the same type after a renaming. -/
theorem endType_after {association next : Symbol}
    (follows : ∀ upper ∈ before.catalog.rows, upper.node.kind = .association →
      upper.node.declared? = some association → (f upper.node).declared? = some next)
    {role : String} (trimmed : Text.Trimmed role.toList) (bare : '.' ∉ role.toList)
    (unread : id ∉ (before.catalog.consultEnd before.options.listSeparator
      (memberOf association role)).consulted)
    {target : Row} (there : target ∈ before.catalog.rows) (isType : target.node.kind = .entityType)
    (declares : target.node.declared? = some (before.catalog.consultEnd
      before.options.listSeparator (memberOf association role)).symbol) :
    (memberOf next role).isEmpty = false ∧ (f target.node).declared? =
      some (after.catalog.consultEnd after.options.listSeparator (memberOf next role)).symbol := by
  have revised := moved.revised
  have coherent := revised.earlier.coherent
  have later := revised.later.coherent
  rw [Catalog.consultEnd_eq coherent.numbered coherent.exact] at declares unread
  rw [Catalog.consultEnd_eq later.numbered later.exact]
  cases found : before.catalog.end? (memberOf association role) with
  | none =>
    rw [found] at declares
    exact absurd declares target.node.declared?_ne_empty
  | some row =>
    rw [found] at declares unread
    obtain ⟨member, declared⟩ := Catalog.mem_declaring.mp (List.mem_of_find?_eq_some found)
    have isEnd : row.node.kind = .associationEnd := by simpa using List.find?_some found
    have number : row.id ≠ id := by
      rintro rfl
      refine unread ?_
      unfold Catalog.readEnd
      dsimp only
      split <;> exact List.mem_cons_self
    -- the end is the member of an association, with the role as its name
    have counts : before.Counts row := .of_ne (by simp [isEnd])
    obtain ⟨parent, live, isHolder, _, ⟨scope, own, isMember⟩, scopeAfter, ownAfter, isMemberAfter⟩ :=
      moved.exists_member member (show row.node.kind.holder? = some .association by rw [isEnd]; rfl)
        counts
    obtain ⟨rfl, rfl⟩ := isMember.eq trimmed bare declared
    obtain rfl := Option.some.inj
      (isMemberAfter.holder.symm.trans (follows parent live isHolder isMember.holder))
    obtain rfl : role = ownAfter := by
      have names := moved.name_kept member number counts
      rw [isMember.named, isMemberAfter.named] at names
      exact (Option.some.inj names).symm
    have again : after.catalog.end? (memberOf scopeAfter role) = some (row.map f) := by
      rw [@Catalog.map_end? f before.catalog after.catalog revised.rows (memberOf association role)
        (memberOf scopeAfter role) (fun other _ => revised.sameKind other.node) ?_, found]
      · rfl
      · exact fun other there isEndToo => moved.end_declares_iff member there isEnd isEndToo number
          declared isMemberAfter.declared
    rw [again, symbol_readEnd]
    rw [symbol_readEnd] at declares
    refine ⟨(Node.declared?_eq_some_iff.mp isMemberAfter.declared).2, ?_⟩
    exact moved.namedAt_after member (by rw [isEnd]; decide) (by nofun) there
      (by simp [ReferenceRule.single, isType]) (.of_ne (by simp [isType])) declares

omit member in
/-- The same where the role is missing or empty, and then names nothing. -/
theorem roleType_after {association next : Symbol}
    (follows : ∀ upper ∈ before.catalog.rows, upper.node.kind = .association →
      upper.node.declared? = some association → (f upper.node).declared? = some next)
    {role : Option String} (good : ∀ text ∈ role, Text.Trimmed text.toList ∧ '.' ∉ text.toList)
    (unread : id ∉ (before.typeAtRole association role).consulted)
    {target : Row} (there : target ∈ before.catalog.rows) (isType : target.node.kind = .entityType)
    (declares : target.node.declared? = some (before.typeAtRole association role).symbol) :
    (f target.node).declared? = some (after.typeAtRole next role).symbol := by
  have nameless : ∀ scope, memberOf scope "" = .empty := fun scope => (Scope.members scope).read_empty
  unfold typeAtRole at declares unread ⊢
  split at declares
  · exact absurd declares target.node.declared?_ne_empty
  · next real =>
    rw [if_neg real] at unread
    cases role with
    | none => exact absurd (by rw [Option.getD_none, nameless]; rfl) real
    | some text =>
      obtain ⟨trimmed, bare⟩ := good text rfl
      obtain ⟨realAfter, declaresAfter⟩ :=
        moved.endType_after follows trimmed bare unread there isType declares
      rw [Option.getD_some, if_neg (Bool.eq_false_iff.mp realAfter)]
      exact declaresAfter

/-- The scope of properties moves with a type, if it is not found by way of the renamed node. -/
theorem moves_mappedProperty (unread : id ∉ (before.catalog.mappedRowType
      before.options.listSeparator (.ofRow (some row))).consulted) :
    ScopeMoves f before after row .mappedProperty .entityType := by
  intro upper there isHolder declares
  have revised := moved.revised
  have scopes := find?_map_of_kind (fun node (_ : node ∈ row.above) => revised.sameKind node)
    fun kind => kind = .entityTypeMapping ∨ kind = .endProperty
  show (f upper.node).declared? = some (after.catalog.mappedRowType after.options.listSeparator
    (.ofRow (some (row.map f)))).symbol
  replace declares : upper.node.declared? = some (before.catalog.mappedRowType
    before.options.listSeparator (.ofRow (some row))).symbol := declares
  rw [mappedRowType_eq] at declares unread ⊢
  rw [show (row.map f).above = row.above.map f from rfl, scopes]
  cases found : row.above.find? fun node =>
      node.kind = .entityTypeMapping ∨ node.kind = .endProperty with
  | none =>
    rw [found] at declares
    exact absurd declares upper.node.declared?_ne_empty
  | some node =>
    rw [found] at declares unread
    simp only [Option.map_some, revised.sameKind] at declares unread ⊢
    obtain ⟨above, live, _⟩ := Catalog.row_of_mem_line member
      (List.mem_cons_of_mem _ (List.mem_of_find?_eq_some found))
    have either : node.kind = .entityTypeMapping ∨ node.kind = .endProperty := by
      simpa using List.find?_some found
    by_cases typed : node.kind = .entityTypeMapping
    · rw [if_pos typed] at declares ⊢
      exact (moved.namedAt_after live (show _ ∈ node.kind.references by rw [typed]; exact
        List.mem_cons_self) (fun _ held => by cases held) there
          (by simp [ReferenceRule.single, ReferenceRule.toMany, isHolder])
          (.of_ne (by simp [isHolder])) (declares.trans (congrArg some (typeName_eq before ⟨row.layer, above, node⟩)))).trans
            (congrArg some (typeName_eq after (Row.map f ⟨row.layer, above, node⟩)).symm)
    · rw [if_neg typed] at declares unread ⊢
      obtain ⟨same, good⟩ := moved.role_after live (either.resolve_left typed)
      rw [show (f node).firstText? after.options.listSeparator "Name" =
        node.firstText? before.options.listSeparator "Name" by rw [revised.options]; exact same]
      exact moved.roleType_after (fun upper live isAssociation declares =>
        moved.namedNearest_after member (show _ ∈ Kind.references .associationSetMapping by decide)
          (fun _ held => by cases held) live
          (by simp [ReferenceRule.single, isAssociation]) (.of_ne (by simp [isAssociation])) declares)
        good unread there isHolder declares

/-! ### References -/

variable {reference : Reference} (inside : reference ∈ row.node.references)

include inside

/-- **The scope of every text moves** with the holder of what it names. -/
theorem scopeMoves {text : String} (listed : text ∈ reference.texts before.options.listSeparator)
    (written : text.isEmpty = false) {holder : Kind}
    (held : reference.rule.reading.holder? = some holder) :
    ScopeMoves f before after row reference.rule.reading holder := by
  have rule := ((moved.revised.earlier.read moved.revised.idle member).of_mem inside).1
  cases reading : reference.rule.reading with
  | typeReference | containerName | mappedType =>
    rw [reading] at held
    exact absurd held (Option.some_ne_none holder).symm
  | containerMember =>
    rw [reading] at held
    exact Option.some.inj held ▸ moved.moves_containerMember member
  | associationSetRole =>
    rw [reading] at held
    exact Option.some.inj held ▸ moved.moves_associationSetRole member
  | navigationRole =>
    rw [reading] at held
    exact Option.some.inj held ▸
      moved.moves_navigationRole member (kind_of_navigationRole rule reading)
  | keyProperty =>
    rw [reading] at held
    exact Option.some.inj held ▸ moved.moves_keyProperty member
  | mappedContainerMember =>
    rw [reading] at held
    exact Option.some.inj held ▸ moved.moves_mappedContainerMember member
  | mappedStoreEntitySet =>
    rw [reading] at held
    exact Option.some.inj held ▸ moved.moves_mappedStoreEntitySet member
  | mappedAssociationSetEnd =>
    rw [reading] at held
    exact Option.some.inj held ▸
      moved.moves_mappedAssociationSetEnd member (kind_of_mappedAssociationSetEnd rule reading)
  | mappedProperty =>
    rw [reading] at held
    refine Option.some.inj held ▸ moved.moves_mappedProperty member fun consulted => ?_
    -- what is consulted for the scope is consulted for the reference
    refine moved.not_consulted member inside ?_
    rw [Workspace.evaluate, Catalog.evaluate_of_texts _ _ (List.ne_nil_of_mem listed),
      moved.revised.earlier.coherent.numbered.row?_of_mem member]
    refine List.mem_flatMap.mpr ⟨_, List.mem_map_of_mem listed, ?_⟩
    rw [Catalog.readSlot, written, if_neg Bool.false_ne_true, reading]
    exact consulted

/-- **A reference that was known is known.** -/
theorem known_after (known : reference.status = .known) : ∃ later ∈ (f row.node).references,
    later.role = reference.role ∧ later.status = .known := by
  have revised := moved.revised
  have earlier := revised.earlier.coherent
  have coherent := revised.later.coherent
  have rule := ((revised.earlier.read revised.idle member).of_mem inside).1
  have written := revised.earlier.texts_of_known revised.idle moved.rebinds member inside known
  obtain ⟨later, there, sameRule, same⟩ := moved.exists_texts member inside
  have texts : later.texts after.options.listSeparator =
      (reference.texts before.options.listSeparator).map
        (before.retexted id name row reference.rule) := by
    rw [revised.options]
    exact same
  have answer := revised.later.answer_of_texts revised.idleAfter
    (revised.options.symm ▸ moved.rebinds) (row_after revised member) there
    (by rw [texts]; exact fun none => written (List.map_eq_nil_iff.mp none))
  refine ⟨later, there, congrArg ReferenceRule.role sameRule,
    Reference.status_eq_known_iff.mpr ⟨by rw [answer]; rfl, fun slot kept => ?_⟩⟩
  rw [show later.slots = _ from congrArg (Option.getD · []) answer, texts, List.map_map] at kept
  obtain ⟨text, listed, rfl⟩ := List.mem_map.mp kept
  -- the text was found a node for, which declares what the new text is read as
  have found := (Reference.status_eq_known_iff.mp known).2 _ (moved.mem_slots member inside listed)
  obtain ⟨target, leads⟩ := Option.isSome_iff_exists.mp found
  obtain ⟨real, _, declared, declares, fits, rfl⟩ := Catalog.target_of_readSlot
    earlier.numbered earlier.exact (Catalog.readName_scope ..) leads
  obtain ⟨live, reads⟩ := Catalog.mem_declaring.mp declares
  have counts : before.Counts declared := by
    intro _
    obtain ⟨site, place, rfl⟩ := List.mem_map.mp (Catalog.map_row_sites _ ▸ member)
    exact ⟨site, place, reference, inside,
      List.mem_filterMap.mpr ⟨_, moved.mem_slots member inside listed, leads⟩⟩
  have expected : declared.node.kind ∈ reference.rule.expected := by
    rw [Candidate.fits, Bool.and_eq_true, List.contains_iff_mem] at fits
    exact fits.2
  have readsAfter := moved.tracks member inside listed
    (fun holder held => moved.scopeMoves member inside listed real held) live expected
    counts reads
  have candidate : (declared.map f).candidate = declared.candidate :=
    (Candidate.mk.injEq ..).mpr ⟨revised.sameId _, revised.sameKind _, rfl⟩
  obtain ⟨next, again⟩ := @Catalog.exists_target_readSlot after.catalog
    after.options.listSeparator coherent.numbered coherent.exact (some (row.map f)) reference.rule
    (before.retexted id name row reference.rule text) _ (Catalog.readName_scope ..)
    (by rw [moved.isEmpty_retexted listed, real]) (Node.declared?_eq_some_iff.mp readsAfter).2
    (declared.map f) (Catalog.mem_declaring.mpr ⟨row_after revised live, readsAfter⟩)
    (candidate ▸ fits)
  rw [Function.comp_apply, sameRule]
  exact Slot.isKnown_of_target again

end Row

end Moved

end Workspace

/-- **Renaming a node leaves no reference unresolved**, whatever it leads to. After every history of
transactions in which waiting references are looked at again, when a node that cannot be mistaken for
another, and whose name is written for nothing else that is referred to, is given an identifier for a
name that leads to a symbol of its own: the commit does not fail, and every reference that was known
is known. -/
theorem references_unbroken {options : Options} (rebinds : options.rebindWaiting = true)
    {commands : List Command} (plain : ∀ command ∈ commands, command.isTransactional = true)
    (closed : ((Workspace.ofOptions options).after commands).transaction = none)
    {id : NodeId} {name : String}
    (renamable : ((Workspace.ofOptions options).after commands).Renamable id name)
    {renamed : Workspace} {written : List ReferenceId}
    (done : ((Workspace.ofOptions options).after commands).renameWithReferences id name =
      .ok (renamed, written)) :
    ∃ after report, renamed.commit = .ok (after, report) ∧ ∀ referencer reference,
      ((Workspace.ofOptions options).after commands).reference? referencer = some reference →
        reference.status = .known →
          ∃ later, after.reference? referencer = some later ∧ later.status = .known := by
  have tended := Workspace.tended_after rebinds plain
  obtain ⟨f, after, report, committed, revised⟩ := Workspace.exists_revised_renameAll tended.toSteady
    (Workspace.current_of_closed closed) (List.cons_ne_nil _ _) (Workspace.renameAll_singleton done)
  have moved : Workspace.Moved id name f ((Workspace.ofOptions options).after commands) after :=
    ⟨renamable, revised, tended.rebinds, Workspace.placed_after options commands⟩
  refine ⟨after, report, committed, fun referencer reference found known => ?_⟩
  obtain ⟨row, member, owner, inside, role⟩ := tended.coherent.reference?_eq_some_iff.mp found
  obtain ⟨later, kept, same, again⟩ := moved.known_after member inside known
  refine ⟨later, revised.later.coherent.reference?_eq_some_iff.mpr
    ⟨row.map f, Workspace.row_after revised member, ?_, kept, same.trans role⟩, again⟩
  exact (revised.sameId row.node).trans owner

/-- A type, an association with one end, and a set of it with an end of the same name, to which nothing
refers. -/
def packedItems : List Command :=
  [.load "shop.csdl" .conceptual (.node ⟨"Schema", none,
      .ofList [("Namespace", "Shop"), ("Alias", "Self")], none, none⟩
    [.node ⟨"EntityType", none, .ofList [("Name", "Item")], none, none⟩ [],
      .node ⟨"Association", none, .ofList [("Name", "Contents")], none, none⟩
        [.node ⟨"End", none, .ofList [("Role", "Whole"), ("Type", "Self.Item")], none, none⟩ []],
      .node ⟨"EntityContainer", none, .ofList [("Name", "Store")], none, none⟩
        [.node ⟨"AssociationSet", none, .ofList [("Name", "Packed"),
            ("Association", "Self.Contents")], none, none⟩
          [.node ⟨"End", none, .ofList [("Role", "Whole")], none, none⟩ []]]]), .commit]

/-- The end of the association is renamed, and the end of the set by that. The references of both are
known still. -/
theorem references_unbroken_packedItems : ∃ renamed written after report,
    ((Workspace.ofOptions .standard).after packedItems).renameWithReferences ⟨3⟩ "Box" =
        .ok (renamed, written) ∧
      renamed.commit = .ok (after, report) ∧
        ∀ referencer ∈ [⟨⟨3⟩, "Type"⟩, ⟨⟨6⟩, "Role"⟩], ∃ later,
          after.reference? referencer = some later ∧ later.status = .known := by
  have plain : ∀ command ∈ packedItems, command.isTransactional = true := by decide
  have closed : ((Workspace.ofOptions .standard).after packedItems).transaction = none :=
    Option.not_isSome_iff_eq_none.mp (by decide +kernel)
  have renamable : ((Workspace.ofOptions .standard).after packedItems).Renamable ⟨3⟩ "Box" := by
    decide +kernel
  have renames : (((Workspace.ofOptions .standard).after packedItems).renameWithReferences ⟨3⟩
      "Box").isOk = true := by
    decide +kernel
  have known : ∀ referencer ∈ [⟨⟨3⟩, "Type"⟩, ⟨⟨6⟩, "Role"⟩], ∃ reference ∈
      ((Workspace.ofOptions .standard).after packedItems).reference? referencer,
        reference.status = .known := by
    decide +kernel
  cases done : ((Workspace.ofOptions .standard).after packedItems).renameWithReferences ⟨3⟩
      "Box" with
  | error refused =>
    rw [done] at renames
    exact nomatch renames
  | ok taken =>
    rcases taken with ⟨renamed, written⟩
    obtain ⟨after, report, committed, stays⟩ :=
      references_unbroken rfl plain closed renamable done
    refine ⟨renamed, written, after, report, rfl, committed, fun referencer listed => ?_⟩
    obtain ⟨reference, found, status⟩ := known referencer listed
    exact stays referencer reference found status

end EntityModel
