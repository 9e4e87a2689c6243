import EntityModel.Proofs.Resolution.Targets
import EntityModel.Proofs.Workspace.Reachable

/-
**A resolution depends on what it reports and on what stands around the owner.**

An evaluation reports the nodes it consults and the symbols it looks up. Whoever keeps these, the
symbols of the slots and the nodes around the owner can tell when to evaluate again: as long as all
of them look the same, the resolution is the same, in two workspaces with histories of their own.

* `Catalog.standing`, `found`, `shown` — how the owner, a symbol and a consulted node look.
* `Catalog.Shows` — a catalog in which everything a resolution has read looks the same.
* `evaluate_of_shows` — such a catalog gives the same resolution.
-/

namespace EntityModel

/-- What is read of a node around the owner of a reference; the content is as written. -/
structure Traits where
  id : NodeId
  kind : Kind
  tag : String
  content : Option Content

-- the fields are compared as they are, without a cast along the equality of earlier ones
instance : DecidableEq Traits := fun first second =>
  decidable_of_iff (first.id = second.id ∧ first.kind = second.kind ∧ first.tag = second.tag ∧
    first.content = second.content) (by cases first; cases second; simp)

/-- The traits of a node. -/
def Node.traits (node : Node) : Traits :=
  ⟨node.id, node.kind, node.head.tag, node.content.map Content.written⟩

/-- How an owner stands: the layer of its document, and the traits of the node and of those above
it. -/
structure Standing where
  layer : Layer
  line : List Traits

instance : DecidableEq Standing := fun first second =>
  decidable_of_iff (first.layer = second.layer ∧ first.line = second.line)
    (by cases first; cases second; simp)

namespace Catalog

/-- How the node stands. -/
def standing (catalog : Catalog) (id : NodeId) : Option Standing :=
  (catalog.site? id).map fun site =>
    ⟨site.document.layer, (site.node :: site.ancestors).map Node.traits⟩

/-- The nodes that declare the symbol, the first in document order first, each with its kind and the
layer of its document. -/
def found (catalog : Catalog) (symbol : Symbol) : List (NodeId × Option (Kind × Layer)) :=
  (catalog.lookup symbol).map fun id =>
    (id, (catalog.site? id).map fun site => (site.node.kind, site.document.layer))

/-- The content of the node as written, and the numbers and kinds of the nodes above it. -/
def shown (catalog : Catalog) (id : NodeId) : Option (Option Content × List (NodeId × Kind)) :=
  (catalog.site? id).map fun site =>
    (site.node.content.map Content.written, site.ancestors.map fun node => (node.id, node.kind))

/-- All that the owner's resolution in the first catalog has read looks the same in the second. -/
structure Shows (second first : Catalog) (owner : NodeId) (resolution : Resolution) : Prop where
  standing : second.standing owner = first.standing owner
  found : ∀ slot ∈ resolution.slots, slot.symbol.isEmpty = false →
    second.found slot.symbol = first.found slot.symbol
  looked : ∀ symbol ∈ resolution.lookups, second.found symbol = first.found symbol
  shown : ∀ id ∈ resolution.consulted, second.shown id = first.shown id

/-! ### The same looks -/

section Looks

variable {first second : Catalog}

/-- A node that stands the same has the same outlines around it. -/
theorem outlines_of_standing {number : NodeId}
    (same : second.standing number = first.standing number) :
    (second.row? number).map (Row.map (Node.outline id)) =
      (first.row? number).map (Row.map (Node.outline id)) := by
  have asRows : ∀ catalog : Catalog, catalog.standing number = (catalog.row? number).map
      fun row => ⟨row.layer, (row.node :: row.above).map Node.traits⟩ := by
    intro catalog
    rw [row?_eq, Option.map_map]
    rfl
  -- an outline is made of the traits
  have outlines : ∀ nodes others : List Node, nodes.map Node.traits = others.map Node.traits →
      nodes.map (Node.outline id) = others.map (Node.outline id) := by
    intro nodes others equal
    have read := congrArg (List.map fun (traits : Traits) => (⟨traits.id, traits.kind,
      .ofTag traits.tag, [], .unparsed, none, traits.content, []⟩ : Node)) equal
    rw [List.map_map, List.map_map] at read
    exact read
  rw [asRows, asRows] at same
  cases here : first.row? number with
  | none =>
    rw [here] at same
    rw [Option.map_eq_none_iff.mp same]
  | some row =>
    rw [here] at same
    obtain ⟨other, there, equal⟩ := Option.map_eq_some_iff.mp same
    obtain ⟨layers, traits⟩ := Standing.mk.inj equal
    obtain ⟨own, above⟩ := List.cons.inj (outlines _ _ traits)
    rw [there]
    refine congrArg some ?_
    unfold Row.map
    rw [layers, own, above]

/-- Lists with the same numbers and kinds have the nearest node of a kind under the same number. -/
theorem nearest?_of_kinds {above other : List Node}
    (same : (other.map fun node => (node.id, node.kind)) =
      above.map fun node => (node.id, node.kind)) (kind : Kind) :
    (nearest? other kind).map Node.id = (nearest? above kind).map Node.id := by
  have found : ∀ nodes : List Node, (nearest? nodes kind).map Node.id =
      ((nodes.map fun node => (node.id, node.kind)).find? fun pair => pair.2 = kind).map
        Prod.fst := by
    intro nodes
    rw [List.find?_map, Option.map_map]
    rfl
  rw [found, found, same]

section Exact

variable (numbered : first.Numbered) (exact : first.SymbolsExact)
  (twinNumbered : second.Numbered) (twinExact : second.SymbolsExact)

include numbered exact

omit twinNumbered twinExact in
/-- What is found under a symbol is the candidates for it. -/
theorem found_eq (symbol : Symbol) : first.found symbol =
    (first.candidates symbol).map fun candidate =>
      (candidate.id, some (candidate.kind, candidate.layer)) := by
  rw [found, lookup_eq numbered exact, candidates, List.map_map, List.map_map]
  refine List.map_congr_left fun row member => ?_
  have place : (first.site? row.id).map Site.row = some row :=
    (row?_eq _ _).symm.trans (numbered.row?_of_mem (mem_declaring.mp member).1)
  obtain ⟨site, here, rfl⟩ := Option.map_eq_some_iff.mp place
  rw [Function.comp_apply, here]
  rfl

include twinNumbered twinExact

theorem candidates_of_found {symbol : Symbol} (same : second.found symbol = first.found symbol) :
    second.candidates symbol = first.candidates symbol := by
  rw [found_eq numbered exact, found_eq twinNumbered twinExact] at same
  refine List.map_injective_iff.mpr (fun one other equal => ?_) same
  rcases one with ⟨number, kind, layer⟩
  rcases other with ⟨otherNumber, otherKind, otherLayer⟩
  obtain ⟨rfl, pair⟩ := Prod.mk.inj equal
  obtain ⟨rfl, rfl⟩ := Prod.mk.inj (Option.some.inj pair)
  rfl

omit exact twinExact in
/-- Nodes of one number, shown the same, have the same content and the same numbers and kinds above
them. -/
theorem alike_of_shown {row other : Row} (member : row ∈ first.rows) (twin : other ∈ second.rows)
    (number : other.id = row.id) (same : second.shown row.id = first.shown row.id) :
    other.node.content.map Content.written = row.node.content.map Content.written ∧
      (other.above.map fun node => (node.id, node.kind)) =
        row.above.map fun node => (node.id, node.kind) := by
  have asRows : ∀ catalog : Catalog, catalog.shown row.id = (catalog.row? row.id).map fun row =>
      (row.node.content.map Content.written, row.above.map fun node => (node.id, node.kind)) := by
    intro catalog
    rw [row?_eq, Option.map_map]
    rfl
  rw [asRows, asRows, numbered.row?_of_mem member, ← number, twinNumbered.row?_of_mem twin] at same
  exact Prod.mk.inj (Option.some.inj same)

omit exact twinExact in
/-- The nearest schema is the same where the numbers and kinds above are, and it has the same
content if it is shown the same. -/
theorem schema_of_shown {row other : Row} (member : row ∈ first.rows) (twin : other ∈ second.rows)
    (above : (other.above.map fun node => (node.id, node.kind)) =
      row.above.map fun node => (node.id, node.kind))
    (shows : ∀ schema, nearest? row.above .schema = some schema →
      second.shown schema.id = first.shown schema.id) :
    (nearest? other.above .schema).map
        (fun node => (node.id, node.content.map Content.written)) =
      (nearest? row.above .schema).map
        (fun node => (node.id, node.content.map Content.written)) := by
  have numbers := nearest?_of_kinds above .schema
  cases here : nearest? row.above .schema with
  | none =>
    rw [here] at numbers
    rw [Option.map_eq_none_iff.mp numbers]
  | some schema =>
    rw [here] at numbers
    obtain ⟨twinSchema, there, number⟩ := Option.map_eq_some_iff.mp numbers
    obtain ⟨upper, inside, _⟩ := row_of_mem_line member
      (List.mem_cons_of_mem _ (List.mem_of_find?_eq_some here))
    obtain ⟨twinUpper, within, _⟩ := row_of_mem_line twin
      (List.mem_cons_of_mem _ (List.mem_of_find?_eq_some there))
    obtain ⟨contents, _⟩ :=
      alike_of_shown numbered twinNumbered inside within number (shows schema here)
    rw [there, Option.map_some, Option.map_some, number, contents]

/-- **An end is read the same** where its symbol leads to the same nodes, and the end and its schema
are shown the same. -/
theorem consultEnd_of_shown {separator : Char} {symbol : Symbol}
    (looked : second.found symbol = first.found symbol)
    (shows : ∀ number ∈ (first.consultEnd separator symbol).consulted,
      second.shown number = first.shown number) :
    second.consultEnd separator symbol = first.consultEnd separator symbol := by
  have ends : ∀ catalog : Catalog, (catalog.end? symbol).map Row.candidate =
      (catalog.candidates symbol).find? fun candidate => candidate.kind = .associationEnd := by
    intro catalog
    rw [candidates, List.find?_map]
    rfl
  have same := ends second
  rw [candidates_of_found numbered exact twinNumbered twinExact looked, ← ends first] at same
  rw [consultEnd_eq numbered exact] at shows ⊢
  rw [consultEnd_eq twinNumbered twinExact]
  cases here : first.end? symbol with
  | none =>
    rw [here] at same
    rw [Option.map_eq_none_iff.mp same]
  | some row =>
    rw [here] at same shows
    obtain ⟨other, there, equal⟩ := Option.map_eq_some_iff.mp same
    have number : other.id = row.id := congrArg Candidate.id equal
    have member : row ∈ first.rows := (mem_declaring.mp (List.mem_of_find?_eq_some here)).1
    have twin : other ∈ second.rows := (mem_declaring.mp (List.mem_of_find?_eq_some there)).1
    obtain ⟨contents, above⟩ := alike_of_shown numbered twinNumbered member twin number
      (shows _ (mem_consulted_readEnd separator symbol row))
    have read := @readEnd_of_contents id row other separator symbol number contents fun typed =>
      schema_of_shown numbered twinNumbered member twin above fun schema nearest =>
        shows _ (mem_consulted_readEnd_of_schema separator symbol typed nearest)
    rw [NameReading.renumber_id] at read
    rw [there]
    exact read

end Exact

end Looks

end Catalog

namespace Workspace

variable {workspace other : Workspace}

/-- **A resolution comes out the same** wherever all it has read looks the same. -/
theorem evaluate_of_shows (coherent : workspace.Coherent) (twin : other.Coherent)
    (separator : other.options.listSeparator = workspace.options.listSeparator) {owner : NodeId}
    {reference again : Reference} (rule : again.rule = reference.rule)
    (text : again.text = reference.text)
    (shows : other.catalog.Shows workspace.catalog owner (workspace.evaluate owner reference)) :
    other.evaluate owner again = workspace.evaluate owner reference := by
  have ends : ∀ symbol ∈ (workspace.evaluate owner reference).lookups,
      other.catalog.consultEnd workspace.options.listSeparator symbol =
        (workspace.catalog.consultEnd workspace.options.listSeparator symbol).renumber id := by
    intro symbol looked
    rw [NameReading.renumber_id]
    refine Catalog.consultEnd_of_shown coherent.numbered coherent.exact twin.numbered twin.exact
      (shows.looked symbol looked) fun number consulted => ?_
    exact shows.shown number (Catalog.consulted_of_lookup looked consulted)
  have found : ∀ slot ∈ (workspace.evaluate owner reference).slots, slot.symbol.isEmpty = false →
      other.catalog.candidates slot.symbol =
        (workspace.catalog.candidates slot.symbol).map (Candidate.renumber id) := by
    intro slot member real
    rw [Catalog.candidates_of_found coherent.numbered coherent.exact twin.numbered twin.exact
      (shows.found slot member real)]
    exact (List.map_id _).symm
  unfold evaluate at ends found ⊢
  rw [separator, Catalog.evaluate_congr coherent.numbered coherent.exact twin.numbered twin.exact
    rule text (Catalog.outlines_of_standing shows.standing) ends found, Resolution.renumber_id]
  rfl

end Workspace

/-- **What a resolution reports is all it depends on.** Two histories may differ in everything else:
if the owner stands the same in the workspaces they lead to, the symbols looked up are found the
same and the nodes consulted are shown the same, a reference with the same text has the same
resolution. -/
theorem dependencies_complete {options twinOptions : Options} {commands twinCommands : List Command}
    (separator : ((Workspace.ofOptions twinOptions).after twinCommands).options.listSeparator =
      ((Workspace.ofOptions options).after commands).options.listSeparator)
    {owner : NodeId} {reference again : Reference} (rule : again.rule = reference.rule)
    (text : again.text = reference.text)
    (shows : ((Workspace.ofOptions twinOptions).after twinCommands).catalog.Shows
      ((Workspace.ofOptions options).after commands).catalog owner
      (((Workspace.ofOptions options).after commands).evaluate owner reference)) :
    ((Workspace.ofOptions twinOptions).after twinCommands).evaluate owner again =
      ((Workspace.ofOptions options).after commands).evaluate owner reference :=
  Workspace.evaluate_of_shows (Workspace.coherent_after options commands)
    (Workspace.coherent_after twinOptions twinCommands) separator rule text shows

/-- A property is mapped at an end of an association, whose type is named by the short name of its
schema. -/
def mappedEnd : List Command :=
  [.load "sales.csdl" .conceptual
    (.node { Head.ofTag "Schema" with
        attributes := .ofList [("Namespace", "Sales"), ("Alias", "Self")] }
      [.node { Head.ofTag "EntityType" with attributes := .ofList [("Name", "Customer")] }
        [.node { Head.ofTag "Property" with attributes := .ofList [("Name", "Number")] } []],
        .node { Head.ofTag "Association" with attributes := .ofList [("Name", "Places")] }
          [.node { Head.ofTag "End" with
            attributes := .ofList [("Role", "Buyer"), ("Type", "Self.Customer")] } []]]),
    .load "sales.msl" .mapping
      (.node (Head.ofTag "Mapping")
        [.node (Head.ofTag "EntityContainerMapping")
          [.node { Head.ofTag "AssociationSetMapping" with
              attributes := .ofList [("Name", "Placed"), ("TypeName", "Sales.Places")] }
            [.node { Head.ofTag "EndProperty" with attributes := .ofList [("Name", "Buyer")] }
              [.node { Head.ofTag "ScalarProperty" with
                attributes := .ofList [("Name", "Number")] } []]]]]),
    .commit]

/-- Another property comes in front of the mapped one, and the mapped one is given a type. -/
def furtherProperty : List Command :=
  [.insertElement ⟨1⟩ (some 0)
      (.node { Head.ofTag "Property" with attributes := .ofList [("Name", "Street")] } []),
    .setAttribute ⟨2⟩ "Type" "Int32", .commit]

/-- The reference of the mapping to the property. -/
def mappedName : Reference :=
  .written (.single "Name" .property (.layer .conceptual) .mappedProperty) (some "Number")

theorem dependencies_complete_mappedEnd :
    ((Workspace.ofOptions .standard).after mappedEnd).evaluate ⟨9⟩ mappedName =
        ⟨[⟨"Number", .ofText "Sales.Customer.Number", .known ⟨2⟩ 1⟩], [⟨4⟩, ⟨0⟩],
          [.ofText "Sales.Places.Buyer"]⟩ ∧
      ((Workspace.ofOptions .standard).after (mappedEnd ++ furtherProperty)).evaluate ⟨9⟩
          mappedName =
        ((Workspace.ofOptions .standard).after mappedEnd).evaluate ⟨9⟩ mappedName := by
  have separator :
      ((Workspace.ofOptions .standard).after (mappedEnd ++ furtherProperty)).options.listSeparator =
        ((Workspace.ofOptions .standard).after mappedEnd).options.listSeparator := by
    decide +kernel
  have resolution : ((Workspace.ofOptions .standard).after mappedEnd).evaluate ⟨9⟩ mappedName =
      ⟨[⟨"Number", .ofText "Sales.Customer.Number", .known ⟨2⟩ 1⟩], [⟨4⟩, ⟨0⟩],
        [.ofText "Sales.Places.Buyer"]⟩ := by
    decide +kernel
  have shows : ((Workspace.ofOptions .standard).after (mappedEnd ++ furtherProperty)).catalog.Shows
      ((Workspace.ofOptions .standard).after mappedEnd).catalog ⟨9⟩
      (((Workspace.ofOptions .standard).after mappedEnd).evaluate ⟨9⟩ mappedName) := by
    rw [resolution]
    exact ⟨by decide +kernel, by decide +kernel, by decide +kernel, by decide +kernel⟩
  exact ⟨resolution, @dependencies_complete .standard .standard mappedEnd
    (mappedEnd ++ furtherProperty) separator ⟨9⟩ mappedName mappedName rfl rfl shows⟩

end EntityModel
