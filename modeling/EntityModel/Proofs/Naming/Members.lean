import EntityModel.Proofs.Catalog.Classified
import EntityModel.Proofs.Naming.Surroundings

/-
**Members: nodes that are named within others.**

* `Kind.holder?` — the kind of the nodes that hold the nodes of a kind as their members;
  `Catalog.Classified.exists_holder` — a member stands right below its holder.
* `declaredSymbol?_within` — **the symbol of a member is the one that its name stands for in the scope
  of the holder**, and `IsMember.eq` — scope and name can be told from it.
* `NameRule.holder?` — the kind whose members a reading names; `Scope.holder`, `scope_eq_members` — the
  symbol within which it does so.
-/

namespace EntityModel

open Text

/-! ### Holders -/

namespace Kind

/-- The kind of the nodes whose members the nodes of the kind are. -/
def holder? : Kind → Option Kind
  | .entitySet | .associationSet | .functionImport => some .entityContainer
  | .associationSetEnd => some .associationSet
  | .property | .navigationProperty => some .entityType
  | .associationEnd => some .association
  | _ => none

/-- A member is named by the nodes that name its holder, and by the holder. -/
theorem enclosing?_of_holder {kind holder : Kind} (held : kind.holder? = some holder) :
    ∃ outer, holder.enclosing? = some outer ∧ kind.enclosing? = some (outer ++ [holder]) ∧
      holder ∉ outer := by
  cases kind <;> cases held <;> exact ⟨_, rfl, rfl, by decide⟩

theorem hasIdentifierName_of_holder {kind holder : Kind} (held : kind.holder? = some holder) :
    kind.hasIdentifierName = true ∧ holder.hasIdentifierName = true := by
  cases kind <;> cases held <;> decide

/-- Ends of sets hold no members. -/
theorem ne_associationSetEnd_of_holder {kind holder : Kind} (held : kind.holder? = some holder) :
    holder ≠ associationSetEnd := by
  cases kind <;> cases held <;> decide

theorem holder?_ofRoot (layer : Layer) (tag : String) : (ofRoot layer tag).holder? = none := by
  cases layer <;> unfold ofRoot <;> dsimp only <;> split <;> rfl

theorem ofRoot_ne_endProperty (layer : Layer) (tag : String) : ofRoot layer tag ≠ endProperty := by
  cases layer <;> unfold ofRoot <;> dsimp only <;> split <;> decide

/-- What an element is below its parent, if it is anything of interest, the vocabulary says. -/
theorem ofChild_cases (parent : Kind) (tag : String) :
    parent.ofChild tag ∈ [unmodelled, documentation, misplaced] ∨
      (tag, parent.ofChild tag) ∈ parent.vocabulary := by
  unfold ofChild
  split
  · exact Or.inl (by decide)
  split
  · exact Or.inl (by decide)
  cases found : parent.vocabulary.lookup tag with
  | some kind =>
    obtain ⟨front, back, listed, _⟩ := List.lookup_eq_some_iff.mp found
    exact Or.inr (listed ▸ List.mem_append_right _ List.mem_cons_self)
  | none =>
    refine Or.inl ?_
    dsimp only
    split <;> decide

theorem ofNested_cases (parent : Kind) (outer : Option Kind) (tag : String) :
    parent.ofNested outer tag ∈ [unmodelled, documentation, misplaced, scalarProperty] ∨
      ∃ entry ∈ parent.vocabulary, entry.2 = parent.ofNested outer tag := by
  unfold ofNested
  split
  · exact Or.inl (by decide)
  · rcases ofChild_cases parent tag with other | listed
    · exact Or.inl (List.mem_append_left [scalarProperty] other)
    · exact Or.inr ⟨_, listed, rfl⟩

/-- A member is a child of its holder. -/
theorem eq_of_holder?_ofNested {parent holder : Kind} {outer : Option Kind} {tag : String}
    (held : (parent.ofNested outer tag).holder? = some holder) : parent = holder := by
  have each : ∀ entry ∈ parent.vocabulary, ∀ holder ∈ entry.2.holder?, parent = holder := by
    cases parent <;> decide
  have nothing : ∀ kind ∈ [unmodelled, documentation, misplaced, scalarProperty],
      kind.holder? = none := by decide
  rcases ofNested_cases parent outer tag with other | ⟨entry, listed, same⟩
  · rw [nothing _ other] at held
    exact nomatch held
  · exact each entry listed holder (same ▸ held)

/-- A row of ends is a child of the row of a set. -/
theorem eq_of_ofNested_endProperty {parent : Kind} {outer : Option Kind} {tag : String}
    (isEnd : parent.ofNested outer tag = endProperty) : parent = associationSetMapping := by
  have each : ∀ entry ∈ parent.vocabulary, entry.2 = endProperty →
      parent = associationSetMapping := by
    cases parent <;> decide
  rcases ofNested_cases parent outer tag with other | ⟨entry, listed, same⟩
  · rw [isEnd] at other
    exact absurd other (by decide)
  · exact each entry listed (same.trans isEnd)

end Kind

namespace Catalog

section Above

variable {catalog : Catalog} {row : Row} (member : row ∈ catalog.rows)

include member

/-- What stands above a row from some node on is the line of a row. -/
theorem row_of_suffix {front : List Node} {node : Node} {upper : List Node}
    (line : row.above = front ++ node :: upper) : ⟨row.layer, upper, node⟩ ∈ catalog.rows := by
  rcases row with ⟨layer, above, own⟩
  obtain rfl : above = front ++ node :: upper := line
  induction front generalizing own with
  | nil => exact row_of_above member rfl
  | cons parent front ih => exact ih parent (row_of_above member rfl)

/-- The nearest node of a kind as a row. -/
theorem exists_nearest {kind : Kind} {node : Node} (found : nearest? row.above kind = some node) :
    node.kind = kind ∧ ⟨row.layer, aboveNearest row.above kind, node⟩ ∈ catalog.rows := by
  obtain ⟨isKind, front, upper, above, others⟩ := List.find?_eq_some_iff_append.mp found
  have rest : aboveNearest row.above kind = upper := by
    unfold aboveNearest
    rw [above, List.dropWhile_append_of_pos, List.dropWhile_cons_of_neg]
    · rfl
    · simpa using isKind
    · simpa using others
  rw [rest]
  exact ⟨by simpa using isKind, row_of_suffix member above⟩

/-- **A member stands right below its holder.** -/
theorem Classified.exists_holder {admits : Kind → String → Prop}
    (classified : catalog.Classified admits) {holder : Kind}
    (held : row.node.kind.holder? = some holder) : ∃ parent upper, row.above = parent :: upper ∧
      parent.kind = holder ∧ ⟨row.layer, upper, parent⟩ ∈ catalog.rows := by
  have placed : Placed admits row.layer (row.above.map Node.kind) row.node.kind _ :=
    (classified row member).placed
  cases above : row.above with
  | nil =>
    rw [above] at placed
    rw [show row.node.kind = _ from placed, Kind.holder?_ofRoot] at held
    exact nomatch held
  | cons parent upper =>
    rw [above] at placed
    rw [placed.2] at held
    exact ⟨parent, upper, rfl, Kind.eq_of_holder?_ofNested held, row_of_above member above⟩

/-- A row of ends stands right below the row of a set. -/
theorem Classified.exists_setMapping {admits : Kind → String → Prop}
    (classified : catalog.Classified admits) (isEnd : row.node.kind = .endProperty) :
    ∃ parent upper, row.above = parent :: upper ∧ parent.kind = .associationSetMapping := by
  have placed : Placed admits row.layer (row.above.map Node.kind) row.node.kind _ :=
    (classified row member).placed
  rw [isEnd] at placed
  cases above : row.above with
  | nil =>
    rw [above] at placed
    exact absurd placed.symm (Kind.ofRoot_ne_endProperty _ _)
  | cons parent upper =>
    rw [above] at placed
    exact ⟨parent, upper, rfl, Kind.eq_of_ofNested_endProperty placed.2.symm⟩

end Above

end Catalog

/-! ### Symbols of members -/

theorem isEmpty_trim {text : String} (written : isBlank text ≠ true) :
    (trim text).isEmpty = false := by
  rw [← Bool.not_eq_true, String.isEmpty_iff, ← String.toList_eq_nil_iff, trim, String.toList_ofList,
    trimChars_eq_nil_iff]
  exact written

namespace Symbol

theorem qualifier_concat (parts : List String) {last : String} (written : isBlank last ≠ true) :
    qualifier (parts ++ [last]) = qualifier parts ++ (trim last).toList ++ ['.'] := by
  unfold qualifier
  rw [List.map_append, List.map_singleton, List.filter_append,
    List.filter_cons_of_pos (by simp [isEmpty_trim written]), List.filter_nil, List.flatMap_append,
    List.flatMap_singleton, List.append_assoc]
  rfl

theorem isEmpty_ofParts (parts : List String) {last : String} (written : isBlank last ≠ true) :
    (ofParts (parts ++ [last])).isEmpty = false := by
  have real := isEmpty_trim written
  rw [← Bool.not_eq_true, String.isEmpty_iff, ← String.toList_eq_nil_iff] at real
  rw [isEmpty, ← Bool.not_eq_true, String.isEmpty_iff, ← String.toList_eq_nil_iff,
    toList_ofParts parts (isEmpty_trim written), List.append_eq_nil_iff]
  exact fun none => real none.2

/-- **A part more at the end is a member**, if neither it nor the part before is blank. -/
theorem memberOf_ofParts (parts : List String) {outer name : String}
    (outerWritten : isBlank outer ≠ true) (written : isBlank name ≠ true) :
    memberOf (ofParts (parts ++ [outer])) name = ofParts (parts ++ [outer] ++ [name]) := by
  have real := isEmpty_ofParts parts outerWritten
  have named : (ofParts (parts ++ [outer])).name.isEmpty ≠ true := Bool.eq_false_iff.mp real
  unfold memberOf child
  rw [if_neg (Bool.eq_false_iff.mp real), if_neg written, if_neg named]
  have whole := toList_ofParts (parts ++ [outer]) (isEmpty_trim written)
  rw [qualifier_concat parts outerWritten, ← toList_ofParts parts (isEmpty_trim outerWritten)] at whole
  refine (Symbol.mk.injEq ..).mpr ⟨String.toList_inj.mp ?_, rfl⟩
  rw [String.toList_append, String.toList_append]
  exact whole.symm

end Symbol

/-- **The symbol of a member** is the one that its name stands for in the scope of its holder, whatever
stands around the two. -/
theorem declaredSymbol?_within {node parent : Node} {upper : List Node}
    (held : node.kind.holder? = some parent.kind) {name outer : String}
    (named : node.name = some name) (written : isBlank name ≠ true)
    (outerNamed : parent.name = some outer) (outerWritten : isBlank outer ≠ true) :
    ∃ scope, parent.declaredSymbol? upper = some scope ∧ scope.isEmpty = false ∧
      node.declaredSymbol? (parent :: upper) = some (memberOf scope name) := by
  obtain ⟨kinds, enclosed, enclosedToo, apart⟩ := Kind.enclosing?_of_holder held
  have own : nearestName (parent :: upper) parent.kind = outer := by
    rw [nearestName, nearest?, List.find?_cons_of_pos (by simp), Option.bind_some, outerNamed,
      Option.getD_some]
  have outside : kinds.map (nearestName (parent :: upper)) = kinds.map (nearestName upper) := by
    refine List.map_congr_left fun kind inside => ?_
    rw [nearestName, nearestName, nearest?, List.find?_cons_of_neg, nearest?]
    simp only [decide_eq_true_eq]
    rintro rfl
    exact apart inside
  refine ⟨_, ?_, Symbol.isEmpty_ofParts (kinds.map (nearestName upper)) outerWritten, ?_⟩
  · rw [Node.declaredSymbol?, outerNamed, Option.bind_some, if_neg outerWritten,
      symbolOfName?_enclosing enclosed]
  · rw [Node.declaredSymbol?, named, Option.bind_some, if_neg written,
      symbolOfName?_enclosing enclosedToo, List.map_append, List.map_singleton, own, outside,
      Symbol.memberOf_ofParts _ outerWritten written]

/-- The same where both names are parts of a symbol as they are. -/
theorem declaredSymbol?_member {node parent : Node} {upper : List Node}
    (held : node.kind.holder? = some parent.kind) {name outer : String}
    (named : node.name = some name) (isPart : IsPart name.toList)
    (outerNamed : parent.name = some outer) (outerPart : IsPart outer.toList) :
    ∃ scope, parent.declaredSymbol? upper = some scope ∧ scope.isEmpty = false ∧
      node.declaredSymbol? (parent :: upper) = some (memberOf scope name) :=
  declaredSymbol?_within held named isPart.not_blank outerNamed outerPart.not_blank

theorem isEmpty_memberOf {scope : Symbol} (real : scope.isEmpty = false) {name : String}
    (written : isBlank name ≠ true) : (memberOf scope name).isEmpty = false := by
  have named : scope.name.isEmpty ≠ true := Bool.eq_false_iff.mp real
  unfold memberOf Symbol.child
  rw [if_neg (Bool.eq_false_iff.mp real), if_neg written, if_neg named, Symbol.isEmpty,
    ← Bool.not_eq_true, String.isEmpty_iff, ← String.toList_eq_nil_iff, String.toList_append,
    String.toList_append]
  simp

theorem memberOf_real {scope : Symbol} (real : scope.isEmpty = false) {name : String}
    (isPart : IsPart name.toList) : (memberOf scope name).isEmpty = false :=
  isEmpty_memberOf real isPart.not_blank

/-- A node is named so within another one, which declares the scope. -/
structure IsMember (node parent : Node) (scope : Symbol) (name : String) : Prop where
  holder : parent.declared? = some scope
  named : node.name = some name
  isPart : IsPart name.toList
  declared : node.declared? = some (memberOf scope name)

/-- The scope and the name can be told from the symbol of a member. -/
theorem IsMember.eq {node parent : Node} {scope other : Symbol} {name text : String}
    (isMember : IsMember node parent scope name) (trimmed : Trimmed text.toList)
    (bare : '.' ∉ text.toList) (same : node.declared? = some (memberOf other text)) :
    other = scope ∧ text = name := by
  have isPart := isMember.isPart
  have real := (Node.declared?_eq_some_iff.mp isMember.declared).2
  replace same : memberOf other text = memberOf scope name :=
    Option.some.inj (same.symm.trans isMember.declared)
  obtain ⟨_, first⟩ := memberOf_eq (same ▸ real) trimmed
  obtain ⟨_, second⟩ := memberOf_eq real isPart.trimmed
  rw [first, second] at same
  obtain ⟨names, scopes⟩ := (Symbol.mk.injEq ..).mp same
  rw [← String.toList_inj] at names
  simp only [String.toList_append] at names
  obtain ⟨stems, lasts⟩ := stem_unique (Or.inr ⟨_, rfl⟩) (Or.inr ⟨_, rfl⟩) bare isPart.separator names
  refine ⟨(Symbol.mk.injEq ..).mpr ⟨?_, scopes⟩, String.toList_inj.mp lasts⟩
  exact String.toList_inj.mp (List.append_cancel_right stems)

/-! ### Readings of members -/

/-- The kind of the nodes whose members the texts read so name; missing where a text is a name of its
own. -/
def NameRule.holder? : NameRule → Option Kind
  | .typeReference | .containerName | .mappedType => none
  | .containerMember | .mappedContainerMember | .mappedStoreEntitySet => some .entityContainer
  | .associationSetRole | .navigationRole => some .association
  | .mappedAssociationSetEnd => some .associationSet
  | .keyProperty | .mappedProperty => some .entityType

/-- The symbol within which texts name members; empty for other ways of reading. -/
def Scope.holder : Scope → Symbol
  | .members of => of
  | _ => .empty

/-- Nothing is read as nothing. -/
theorem Scope.read_empty (scope : Scope) : scope.read "" = .empty := by
  have bare : unwrapType "" = String.ofList [] := by decide +kernel
  have blank : isBlank "" = true := rfl
  cases scope with
  | whole => rfl
  | types short => rw [read, bare, expandShort_empty]
  | members of =>
    show memberOf of "" = .empty
    unfold memberOf Symbol.child
    rw [if_pos blank, ite_self]

namespace Catalog

theorem scope_eq_members (catalog : Catalog) (separator : Char) (view : Viewpoint) {rule : NameRule}
    {holder : Kind} (held : rule.holder? = some holder) :
    catalog.scope separator view rule = .members (catalog.scope separator view rule).holder := by
  cases rule with
  | typeReference => exact absurd held (Option.some_ne_none _).symm
  | containerName => exact absurd held (Option.some_ne_none _).symm
  | mappedType => exact absurd held (Option.some_ne_none _).symm
  | _ => simp only [scope, Scope.holder]

/-- The symbol of a slot is what the scope makes of the text, blank or not. -/
theorem symbol_readSlot (catalog : Catalog) (separator : Char) (row : Option Row)
    (rule : ReferenceRule) (text : String) : (catalog.readSlot separator row rule text).1.symbol =
      (catalog.scope separator (.ofRow row) rule.reading).read text := by
  unfold readSlot
  split
  · next blank => rw [String.isEmpty_iff.mp blank, Scope.read_empty]
  · exact readName_scope ..

end Catalog

/-- Only rows of ends name ends of sets. -/
theorem kind_of_mappedAssociationSetEnd {kind : Kind} {rule : ReferenceRule}
    (member : rule ∈ kind.references) (reading : rule.reading = .mappedAssociationSetEnd) :
    kind = .endProperty := by
  have each : ∀ rule ∈ kind.references, rule.reading = .mappedAssociationSetEnd →
      kind = .endProperty := by
    cases kind <;> decide
  exact each rule member reading

section Rules

variable {kind target : Kind} {rule : ReferenceRule} (member : rule ∈ kind.references)
  (expected : target ∈ rule.expected)

include member expected

/-- Names of members lead to members of what the reading looks into. -/
theorem holder?_of_rule {holder : Kind} (held : rule.reading.holder? = some holder) :
    target.holder? = some holder := by
  have each : ∀ rule ∈ kind.references, ∀ holder ∈ rule.reading.holder?,
      ∀ target ∈ rule.expected, target.holder? = some holder := by
    cases kind <;> decide
  exact each rule member holder held target expected

/-- What has a name of its own rests on a schema at most. -/
theorem restsOn_of_rule_plain (plain : rule.reading.holder? = none) :
    ∀ outer ∈ target.restsOn, outer = .schema := by
  have each : ∀ rule ∈ kind.references, rule.reading.holder? = none →
      ∀ target ∈ rule.expected, ∀ outer ∈ target.restsOn, outer = .schema := by
    cases kind <;> decide
  exact each rule member plain target expected

end Rules

end EntityModel
