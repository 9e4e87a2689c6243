import EntityModel.Proofs.Naming.Members

/-
**Kinds whose place leaves no choice.**

The vocabulary admits most kinds at one place of a document only, so that the kinds of all nodes above
are known from the kind of the node. No two such nodes of one kind stand in one line.

* `Kind.lineage?` — the kinds above a node of the kind; `exists_lineage?_ofNested` — one step of
  the vocabulary leads from lineage to lineage, and `Classified.lineage` — by induction over the line these
  are the kinds that are there.
* `Classified.nearest_of_mem` — **the node of such a kind above another one is the nearest of its
  kind**, wherever it stands.
* `Classified.nearest_typeMapping` — a type mapping is nearer than any row of ends.
* `Classified.nearest_holder`, `Classified.ancestors_of_member` — the same with the places of both.
-/

namespace EntityModel

namespace Kind

/-- The kinds of the nodes above a node of the kind, the nearest first, where its place leaves no
choice. -/
def lineage? : Kind → Option (List Kind)
  | .schema | .mapping | .designer => some []
  | .entityContainer | .entityType | .association | .function => some [.schema]
  | .entitySet | .associationSet | .functionImport => some [.entityContainer, .schema]
  | .associationSetEnd => some [.associationSet, .entityContainer, .schema]
  | .key | .property | .navigationProperty => some [.entityType, .schema]
  | .associationEnd => some [.association, .schema]
  | .entityContainerMapping => some [.mapping]
  | .entitySetMapping | .associationSetMapping | .functionImportMapping =>
    some [.entityContainerMapping, .mapping]
  | .endProperty => some [.associationSetMapping, .entityContainerMapping, .mapping]
  | _ => none

theorem lineage?_ofRoot {layer : Layer} {tag : String} {kinds : List Kind}
    (known : (ofRoot layer tag).lineage? = some kinds) : kinds = [] := by
  unfold ofRoot at known
  cases layer
  all_goals
    dsimp only at known
    split at known
    · exact (Option.some.inj known).symm
    · exact nomatch known

/-- Below a parent of a kind that leaves a choice nothing is known of the kinds above. -/
theorem exists_lineage?_ofNested {parent : Kind} {outer : Option Kind} {tag : String}
    {kinds : List Kind} (known : (parent.ofNested outer tag).lineage? = some kinds) :
    ∃ upper, parent.lineage? = some upper ∧ kinds = parent :: upper := by
  have each : ∀ entry ∈ parent.vocabulary, ∀ kinds ∈ entry.2.lineage?,
      ∃ upper ∈ parent.lineage?, kinds = parent :: upper := by
    cases parent <;> decide
  have nothing : ∀ kind ∈ [unmodelled, documentation, misplaced, scalarProperty],
      kind.lineage? = none := by decide
  rcases ofNested_cases parent outer tag with other | ⟨entry, listed, same⟩
  · rw [nothing _ other] at known
    exact nomatch known
  · exact each entry listed kinds (same ▸ known)

theorem lineage?_of_holder {kind holder : Kind} (held : kind.holder? = some holder) :
    holder.lineage?.isSome = true := by
  cases kind <;> cases held <;> decide

end Kind

namespace Catalog

section Lines

variable {catalog : Catalog} {admits : Kind → String → Prop} (classified : catalog.Classified admits)

include classified

/-- **The kinds above a node are those of its lineage.** -/
theorem Classified.lineage {row : Row} (member : row ∈ catalog.rows) {kinds : List Kind}
    (known : row.node.kind.lineage? = some kinds) : row.above.map Node.kind = kinds := by
  rcases row with ⟨layer, above, node⟩
  induction above generalizing node kinds with
  | nil =>
    have placed : Placed admits layer [] node.kind node.head.tag := (classified _ member).placed
    rw [show node.kind = _ from placed] at known
    exact (Kind.lineage?_ofRoot known).symm
  | cons parent upper ih =>
    have placed : Placed admits layer ((parent :: upper).map Node.kind) node.kind node.head.tag :=
      (classified _ member).placed
    rw [show node.kind = _ from placed.2] at known
    obtain ⟨higher, parentKnown, rfl⟩ := Kind.exists_lineage?_ofNested known
    rw [List.map_cons, ih parent (row_of_above member rfl) parentKnown]

variable {row : Row} (member : row ∈ catalog.rows)

include member

/-- **Above a node there is one node of such a kind**: wherever it stands, it is the nearest. -/
theorem Classified.nearest_of_mem {node : Node} (inside : node ∈ row.above) {kinds : List Kind}
    (known : node.kind.lineage? = some kinds) : nearest? row.above node.kind = some node := by
  obtain ⟨front, upper, line⟩ := List.append_of_mem inside
  refine List.find?_eq_some_iff_append.mpr ⟨by simp, front, upper, line, fun other nearer => ?_⟩
  -- another one nearer by would have more kinds above it than its lineage
  rw [Bool.not_eq_true', decide_eq_false_iff_not]
  intro twin
  obtain ⟨before, between, rfl⟩ := List.append_of_mem nearer
  have own := classified.lineage (row_of_suffix member line) known
  rw [List.append_assoc, List.cons_append] at line
  have longer := classified.lineage (row_of_suffix member line) (twin ▸ known)
  have lengths := congrArg List.length (longer.trans own.symm)
  simp only [List.length_map, List.length_append, List.length_cons] at lengths
  omega

/-- The same with the place of the node. -/
theorem Classified.row_of_mem {node : Node} (inside : node ∈ row.above) {kinds : List Kind}
    (known : node.kind.lineage? = some kinds) :
    ⟨row.layer, aboveNearest row.above node.kind, node⟩ ∈ catalog.rows :=
  (exists_nearest member (classified.nearest_of_mem member inside known)).2

/-- The same with the kind given. -/
theorem Classified.nearest_above {node : Node} (inside : node ∈ row.above) {kind : Kind}
    (isKind : node.kind = kind) {kinds : List Kind} (known : kind.lineage? = some kinds) :
    nearest? row.above kind = some node := by
  subst isKind
  exact classified.nearest_of_mem member inside known

/-- No row of ends is nearer than a type mapping. -/
theorem Classified.nearest_typeMapping {mapping : Node}
    (nearest : nearest? row.above .entityTypeMapping = some mapping) :
    (row.above.find? fun node => node.kind = .entityTypeMapping ∨ node.kind = .endProperty) =
      some mapping := by
  obtain ⟨isMapping, front, upper, line, others⟩ := List.find?_eq_some_iff_append.mp nearest
  have kind : mapping.kind = .entityTypeMapping := of_decide_eq_true isMapping
  refine List.find?_eq_some_iff_append.mpr ⟨by simp [kind], front, upper, line, fun other nearer => ?_⟩
  have notMapping : other.kind ≠ .entityTypeMapping := by simpa using others other nearer
  rw [Bool.not_eq_true', decide_eq_false_iff_not]
  rintro (same | isEnd)
  · exact notMapping same
  · obtain ⟨before, between, rfl⟩ := List.append_of_mem nearer
    rw [List.append_assoc, List.cons_append] at line
    have above := classified.lineage (row_of_suffix member line) (show other.kind.lineage? = _ by
      rw [isEnd]; rfl)
    have within : Kind.entityTypeMapping ∈
        [Kind.associationSetMapping, .entityContainerMapping, .mapping] := by
      rw [← above, ← kind]
      exact List.mem_map_of_mem (List.mem_append_right _ List.mem_cons_self)
    exact absurd within (by decide)

end Lines

/-! ### Places -/

section Holders

variable {catalog : Catalog} {admits : Kind → String → Prop} (classified : catalog.Classified admits)
  (numbered : catalog.Numbered) {site holder : Site} (live : site ∈ catalog.sites)
  (holds : holder ∈ catalog.sites) (above : holder.node ∈ site.ancestors)

include classified numbered live holds above

/-- A node above another one is found there as the nearest of its kind, with what is above it. -/
theorem Classified.nearest_holder {kinds : List Kind}
    (known : holder.node.kind.lineage? = some kinds) :
    nearest? site.ancestors holder.node.kind = some holder.node ∧
      aboveNearest site.ancestors holder.node.kind = holder.ancestors := by
  have there := classified.row_of_mem (row_mem_rows live) above known
  exact ⟨classified.nearest_of_mem (row_mem_rows live) above known,
    congrArg Row.above (numbered.eq_of_id there (row_mem_rows holds) rfl)⟩

/-- A member stands right below its holder. -/
theorem Classified.ancestors_of_member (held : site.node.kind.holder? = some holder.node.kind) :
    site.ancestors = holder.node :: holder.ancestors := by
  obtain ⟨kinds, known⟩ := Option.isSome_iff_exists.mp (Kind.lineage?_of_holder held)
  obtain ⟨nearest, higher⟩ := classified.nearest_holder numbered live holds above known
  obtain ⟨parent, upper, line, isKind, _⟩ := classified.exists_holder (row_mem_rows live) held
  replace line : site.ancestors = parent :: upper := line
  rw [line, nearest?, List.find?_cons_of_pos (by simp [isKind])] at nearest
  rw [line, aboveNearest, List.dropWhile_cons_of_neg (by simp [isKind]), List.tail_cons] at higher
  rw [line, Option.some.inj nearest, higher]

end Holders

/-- A node above another one with the number of a place is the node at that place. -/
theorem Numbered.eq_node_above {catalog : Catalog} (numbered : catalog.Numbered)
    {site holder : Site} (live : site ∈ catalog.sites) (holds : holder ∈ catalog.sites) {node : Node}
    (above : node ∈ site.ancestors) (same : node.id = holder.id) : node = holder.node := by
  obtain ⟨upper, there, _⟩ := row_of_mem_line (row_mem_rows live) (List.mem_cons_of_mem _ above)
  exact congrArg Row.node (numbered.eq_of_id there (row_mem_rows holds) same)

end Catalog

end EntityModel
