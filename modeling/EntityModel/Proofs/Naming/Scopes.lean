import EntityModel.Proofs.Naming.LastPart

/-
**How the text of a reference becomes a symbol.**

What stands around a reference decides how its text is read; the text itself only gives the last
parts of the symbol.

* `Scope` — a way of reading a text; `Catalog.scope` — the way the rule of a reference asks for, and
  `readName_scope`, which says that nothing else goes into the symbol.
* `Symbol.qualifier`, `toList_ofParts` — a symbol is a qualifier and a last part.
* `Scope.read_replaceLastPart` — **a text with another last part is read as the same symbol with
  another last part.**
-/

namespace EntityModel

open Text

/-! ### Ways of reading -/

/-- A way of reading a text as a symbol. -/
inductive Scope where
  /-- The text is the whole name. -/
  | whole
  /-- The text is the name of a type, perhaps in its wrapper; the short name of a namespace may stand
  for the namespace. -/
  | types (short : Option (String × String))
  /-- The text is the name of a member of the symbol. -/
  | members (of : Symbol)

/-- The symbol of a type by its name: the short name stands for the namespace. -/
def expandShort (short : Option (String × String)) (bare : String) : Symbol :=
  match short with
  | none => .ofText bare
  | some (namespaceName, shortName) =>
    match cutFirst? Symbol.separator bare.toList with
    | some (front, back) =>
      if String.ofList front = shortName then .ofParts [namespaceName, String.ofList back]
      else .ofText bare
    | none => .ofText bare

theorem expandShort_none (bare : String) : expandShort none bare = .ofText bare := rfl

theorem expandShort_empty (short : Option (String × String)) :
    expandShort short (String.ofList []) = .empty := by
  have blank : Symbol.ofText (String.ofList []) = .empty := by decide +kernel
  rcases short with _ | ⟨namespaceName, shortName⟩
  · exact blank
  · rw [expandShort, String.toList_ofList]
    exact blank

/-- The symbol that the text is read as. -/
def Scope.read : Scope → String → Symbol
  | .whole, text => .ofText text
  | .types short, text => expandShort short (unwrapType text)
  | .members of, text => memberOf of text

/-- The short name of a schema, as last read. -/
def Node.shortName? (node : Node) : Option String :=
  match node.content with
  | some ⟨_, _, .schema shortName⟩ => shortName
  | _ => none

/-- The namespace of the nearest schema with its short name. -/
def shortNames (ancestors : List Node) : Option (String × String) :=
  (nearest? ancestors .schema).bind fun node =>
    node.name.bind fun name => node.shortName?.map fun shortName => (name, trim shortName)

theorem qualifyType_scope (ancestors : List Node) (text : String) :
    qualifyType ancestors text = (Scope.types (shortNames ancestors)).read text := by
  rw [Scope.read]
  unfold qualifyType shortNames
  generalize unwrapType text = bare
  cases nearest? ancestors .schema with
  | none => rfl
  | some node =>
    rw [Option.bind_some, Option.bind_some, Node.name, Node.shortName?]
    rcases node.content with _ | ⟨_ | name, references, fields⟩
    · rfl
    · rfl
    · cases fields with
      | schema shortName =>
        cases shortName with
        | none => rfl
        | some shortName =>
          cases cut : cutFirst? Symbol.separator bare.toList with
          | none => simp only [Option.bind_some, Option.map_some, expandShort, cut]
          | some sides => simp only [Option.bind_some, Option.map_some, expandShort, cut]
      | _ => rfl

namespace Catalog

/-- The way the rule asks for, seen from the owner. -/
def scope (catalog : Catalog) (separator : Char) (view : Viewpoint) : NameRule → Scope
  | .typeReference => .types (shortNames view.ancestors)
  | .containerMember => .members (.ofText (nearestName view.ancestors .entityContainer))
  | .associationSetRole =>
    .members <| (((nearest? view.ancestors .associationSet).bind fun node =>
      node.firstText? separator "Association").map
        (qualifyType (aboveNearest view.ancestors .associationSet))).getD .empty
  | .navigationRole =>
    .members <| ((view.owner.bind fun node => node.firstText? separator "Relationship").map
      (qualifyType view.ancestors)).getD .empty
  | .keyProperty =>
    .members (((nearest? view.ancestors .entityType).bind fun node =>
      node.declaredSymbol? (aboveNearest view.ancestors .entityType)).getD .empty)
  | .containerName => .whole
  | .mappedType => .types none
  | .mappedContainerMember => .members (view.mappedContainer separator "CdmEntityContainer")
  | .mappedStoreEntitySet => .members (view.mappedContainer separator "StorageEntityContainer")
  | .mappedAssociationSetEnd =>
    .members <| memberOf (view.mappedContainer separator "CdmEntityContainer")
      (((nearest? view.ancestors .associationSetMapping).bind fun node =>
        node.firstText? separator "Name").getD "")
  | .mappedProperty => .members (catalog.mappedRowType separator view).symbol

/-- **The symbol of a text is what the scope makes of it.** -/
theorem readName_scope (catalog : Catalog) (separator : Char) (view : Viewpoint) (rule : NameRule)
    (text : String) : (catalog.readName separator view rule text).symbol =
      (catalog.scope separator view rule).read text := by
  cases rule with
  | typeReference => exact qualifyType_scope view.ancestors text
  | mappedType => exact (expandShort_none (unwrapType text)).symm
  | associationSetRole =>
    simp only [readName, NameReading.plain, scope, Scope.read]
    cases (nearest? view.ancestors .associationSet).bind fun node =>
        node.firstText? separator "Association" with
    | none => rfl
    | some written => rfl
  | navigationRole =>
    simp only [readName, NameReading.plain, scope, Scope.read]
    cases view.owner.bind fun node => node.firstText? separator "Relationship" with
    | none => rfl
    | some written => rfl
  | _ => simp only [readName, NameReading.plain, scope, Scope.read]

end Catalog

/-! ### Qualifiers -/

namespace Symbol

/-- What the parts of a name put before its last part. -/
def qualifier (parts : List String) : List Char :=
  ((parts.map trim).filter (!·.isEmpty)).flatMap fun part => part.toList ++ [separator]

theorem isStem_qualifier (parts : List String) : IsStem '.' (qualifier parts) := by
  unfold qualifier
  cases List.eq_nil_or_concat ((parts.map trim).filter (!·.isEmpty)) with
  | inl none =>
    rw [none]
    exact Or.inl rfl
  | inr found =>
    obtain ⟨front, last, same⟩ := found
    rw [same, List.concat_eq_append, List.flatMap_append, List.flatMap_singleton]
    exact Or.inr ⟨_, (List.append_assoc ..).symm⟩

theorem intercalate_concat (parts : List (List Char)) (last : List Char) :
    ['.'].intercalate (parts ++ [last]) = parts.flatMap (fun part => part ++ ['.']) ++ last := by
  induction parts with
  | nil => exact List.intercalate_singleton
  | cons part parts ih =>
    rw [List.flatMap_cons, List.append_assoc, ← ih, List.cons_append]
    cases both : parts ++ [last] with
    | nil => simp at both
    | cons next rest => rw [List.intercalate_cons_cons]

/-- **A name made of parts is a qualifier with the last part**, if that is not blank. -/
theorem toList_ofParts (parts : List String) {last : String} (real : (trim last).isEmpty = false) :
    (ofParts (parts ++ [last])).name.toList = qualifier parts ++ (trim last).toList := by
  have kept : ((parts ++ [last]).map trim).filter (!·.isEmpty) =
      (parts.map trim).filter (!·.isEmpty) ++ [trim last] := by
    rw [List.map_append, List.filter_append, List.map_singleton, List.filter_cons_of_pos (by simp [real]),
      List.filter_nil]
  unfold ofParts qualifier
  rw [kept, String.toList_intercalate, List.map_append, List.map_singleton,
    show ".".toList = ['.'] from rfl, intercalate_concat, List.flatMap_map]
  rfl

theorem ofText_eq (chars : List Char) : ofText (String.ofList chars) =
    ⟨String.ofList (trimChars chars), none⟩ := by
  rw [ofText, trim, String.toList_ofList]

theorem ofParts_eq (parts : List String) {chars stem part : List Char}
    (trimmed : trimChars chars = stem ++ part) (nonempty : part ≠ []) :
    ofParts (parts ++ [String.ofList chars]) = ⟨String.ofList (qualifier parts ++ stem ++ part), none⟩ := by
  have last : (trim (String.ofList chars)).toList = stem ++ part := by
    rw [trim, String.toList_ofList, String.toList_ofList, trimmed]
  have real : (trim (String.ofList chars)).isEmpty = false := by
    rw [← Bool.not_eq_true, String.isEmpty_iff, ← String.toList_eq_nil_iff, last]
    simp [nonempty]
  have name := toList_ofParts parts real
  rw [last, ← List.append_assoc] at name
  refine (Symbol.mk.injEq ..).mpr ⟨?_, rfl⟩
  rw [← String.toList_inj, String.toList_ofList]
  exact name

end Symbol

/-! ### Another last part -/

/-- Whatever stands behind the stem of a text as its last part is read as the last part of a symbol,
behind one stem. -/
structure ReadsBehind (read : List Char → Symbol) (stem symbolStem : List Char) : Prop where
  isStem : IsStem '.' symbolStem
  parts : ∀ part, IsPart part → read (stem ++ part) = ⟨String.ofList (symbolStem ++ part), none⟩
  others : ∀ last, last ≠ [] → '.' ∉ last → (∀ c, last.getLast? = some c → isBlankChar c = false) →
    ∃ rest, '.' ∉ rest ∧ read (stem ++ last) = ⟨String.ofList (symbolStem ++ rest), none⟩

theorem exists_ofText_behind {stem : List Char} (isStem : IsStem '.' stem) :
    ∃ symbolStem, ReadsBehind (fun chars => .ofText (String.ofList chars)) stem symbolStem := by
  obtain ⟨kept, isKept, parts, others⟩ := exists_trimmed_stem isStem
  refine ⟨kept, isKept, fun part isPart => ?_, fun last nonempty absent final => ?_⟩
  · rw [Symbol.ofText_eq, parts part isPart]
  · obtain ⟨rest, _, without, trimmed⟩ := others last nonempty absent final
    exact ⟨rest, without, by rw [Symbol.ofText_eq, trimmed]⟩

theorem exists_ofParts_behind (parts : List String) {stem : List Char} (isStem : IsStem '.' stem) :
    ∃ symbolStem, ReadsBehind (fun chars => .ofParts (parts ++ [String.ofList chars])) stem
      symbolStem := by
  obtain ⟨kept, isKept, trimmed, others⟩ := exists_trimmed_stem isStem
  refine ⟨Symbol.qualifier parts ++ kept, (Symbol.isStem_qualifier parts).append isKept,
    fun part isPart => ?_, fun last nonempty absent final => ?_⟩
  · exact Symbol.ofParts_eq parts (trimmed part isPart) isPart.nonempty
  · obtain ⟨rest, there, without, same⟩ := others last nonempty absent final
    exact ⟨rest, without, Symbol.ofParts_eq parts same there⟩

theorem ReadsBehind.congr {read other : List Char → Symbol} {stem lower symbolStem : List Char}
    (behind : ReadsBehind read lower symbolStem)
    (same : ∀ last, '.' ∉ last → other (stem ++ last) = read (lower ++ last)) :
    ReadsBehind other stem symbolStem :=
  ⟨behind.isStem, fun part isPart => (same part isPart.separator).trans (behind.parts part isPart),
    fun last nonempty absent final => by
      rw [same last absent]
      exact behind.others last nonempty absent final⟩

/-- The name of a type is read behind one stem, whatever its last part is. -/
theorem exists_expandShort_behind (short : Option (String × String)) {stem : List Char}
    (isStem : IsStem '.' stem) :
    ∃ symbolStem, ReadsBehind (fun chars => expandShort short (String.ofList chars)) stem
      symbolStem := by
  obtain ⟨plainStem, plain⟩ := exists_ofText_behind isStem
  rcases short with _ | ⟨namespaceName, shortName⟩
  · exact ⟨plainStem, plain⟩
  by_cases dotted : '.' ∈ stem
  · obtain ⟨front, back, rfl, without⟩ := List.eq_append_cons_of_mem dotted
    have cut : ∀ last, cutFirst? Symbol.separator
        (String.ofList (front ++ '.' :: back ++ last)).toList = some (front, back ++ last) := by
      intro last
      rw [String.toList_ofList, List.append_assoc, List.cons_append]
      exact cutFirst?_append without _
    by_cases isShort : String.ofList front = shortName
    · obtain ⟨symbolStem, behind⟩ := exists_ofParts_behind [namespaceName] isStem.of_behind
      refine ⟨symbolStem, behind.congr fun last _ => ?_⟩
      rw [expandShort]
      simp only [cut last]
      exact if_pos isShort
    · refine ⟨plainStem, plain.congr fun last _ => ?_⟩
      rw [expandShort]
      simp only [cut last]
      exact if_neg isShort
  · refine ⟨plainStem, plain.congr fun last absent => ?_⟩
    have uncut : cutFirst? Symbol.separator (String.ofList (stem ++ last)).toList = none := by
      rw [String.toList_ofList]
      exact cutFirst?_of_not_mem (by simp [Symbol.separator, dotted, absent])
    rw [expandShort]
    simp only [uncut]

/-- A name that ends in a part has no closing bracket at its end. -/
theorem getLast?_ne_closing {stem part : List Char} (isPart : IsPart part) :
    (stem ++ part).getLast? ≠ some ')' := by
  intro closed
  rw [List.getLast?_append] at closed
  obtain ⟨last, isLast⟩ := Option.ne_none_iff_exists'.mp fun none =>
    isPart.nonempty (List.getLast?_eq_none_iff.mp none)
  rw [isLast] at closed
  obtain rfl : last = ')' := Option.some.inj closed
  exact isPart.closing (List.mem_of_getLast? isLast)

theorem memberOf_eq {scope : Symbol} {text : String} (real : (memberOf scope text).isEmpty = false)
    (trimmed : Trimmed text.toList) :
    scope.isEmpty = false ∧ memberOf scope text = ⟨scope.name ++ "." ++ text, scope.scope⟩ := by
  unfold memberOf at real ⊢
  cases blank : scope.isEmpty with
  | true =>
    rw [blank, if_pos rfl] at real
    exact nomatch real
  | false =>
    rw [blank, if_neg Bool.false_ne_true] at real
    refine ⟨rfl, ?_⟩
    rw [if_neg Bool.false_ne_true]
    unfold Symbol.child at real ⊢
    by_cases blankText : isBlank text = true
    · rw [if_pos blankText] at real
      exact nomatch real
    · have named : scope.name.isEmpty ≠ true := Bool.eq_false_iff.mp blank
      rw [if_neg blankText, if_neg named, trimmed.trim]

theorem memberOf_of_real {scope : Symbol} {text : String} (real : scope.isEmpty = false)
    (trimmed : Trimmed text.toList) (nonempty : text.toList ≠ []) :
    memberOf scope text = ⟨scope.name ++ "." ++ text, scope.scope⟩ := by
  have written : isBlank text ≠ true := by
    intro blank
    rw [← trimChars_eq_nil_iff, trimmed.trimChars] at blank
    exact nonempty blank
  have named : scope.name.isEmpty ≠ true := Bool.eq_false_iff.mp real
  unfold memberOf Symbol.child
  rw [if_neg (Bool.eq_false_iff.mp real), if_neg written, if_neg named, trimmed.trim]

section Replacing

variable {text : String} {stem part : List Char} (trimmed : Trimmed text.toList)
  (isStem : IsStem '.' stem) (isPart : IsPart part) {name : String} (newPart : IsPart name.toList)

include trimmed isStem isPart newPart

/-- A text that ends in a part is its own name, and so is the text with another one. -/
theorem toList_replaceLastPart_of_part (whole : text.toList = stem ++ part) :
    (replaceLastPart text name).toList = stem ++ name.toList ∧ Trimmed (stem ++ name.toList) := by
  have bare : unwrapTypeChars text.toList = text.toList :=
    unwrapTypeChars_of_last trimmed (whole ▸ getLast?_ne_closing isPart)
  obtain ⟨wrapped, replaced, _, alone⟩ := toList_replaceLastPart trimmed
    (bare.trans whole) isStem isPart.separator
  rw [replaced, alone bare]
  refine ⟨rfl, newPart.trimmed_append fun c found => trimmed.head c ?_⟩
  rw [whole, List.head?_append, found]
  rfl

/-- The name inside a text that is read as a symbol with a last part has a last part of its own,
unless it ends in a separator; with another one, the name inside is the same with that one. -/
theorem expandShort_replaceLastPart {short : Option (String × String)}
    (ended : (unwrapTypeChars text.toList).getLast? ≠ some '.')
    (reads : (expandShort short (unwrapType text)).name.toList = stem ++ part) :
    expandShort short (unwrapType (replaceLastPart text name)) =
      ⟨String.ofList (stem ++ name.toList), none⟩ := by
  obtain ⟨bareStem, last, bare, isBareStem, absent⟩ := exists_stem '.' (unwrapTypeChars text.toList)
  obtain ⟨wrapped, replaced, _, _⟩ := toList_replaceLastPart trimmed bare isBareStem absent
  obtain ⟨symbolStem, behind⟩ := exists_expandShort_behind short isBareStem
  have inner : Trimmed (bareStem ++ last) := bare ▸ trimmed_unwrapTypeChars trimmed
  have old : unwrapType text = String.ofList (bareStem ++ last) := by
    rw [unwrapType, bare]
  have there : last ≠ [] := by
    rintro rfl
    rcases isBareStem with rfl | ⟨front, rfl⟩
    · -- nothing is written
      rw [old, List.nil_append, expandShort_empty, Symbol.empty, String.toList_empty] at reads
      exact isPart.nonempty (List.append_eq_nil_iff.mp reads.symm).2
    · rw [bare, List.append_nil] at ended
      exact ended List.getLast?_concat
  have final : ∀ c, last.getLast? = some c → isBlankChar c = false := by
    intro c found
    refine inner.last c ?_
    rw [List.getLast?_append, found]
    rfl
  obtain ⟨rest, without, same⟩ := behind.others last there absent final
  rw [old, same, String.toList_ofList] at reads
  obtain ⟨rfl, rfl⟩ := stem_unique behind.isStem isStem without isPart.separator reads
  have fresh : Trimmed (bareStem ++ name.toList) := by
    refine newPart.trimmed_append fun c found => inner.head c ?_
    rw [List.head?_append, found]
    rfl
  rw [unwrapType, replaced, unwrapTypeChars_wrapType wrapped newPart fresh]
  exact behind.parts name.toList newPart

/-- **A text with another last part is read as the same symbol with another last part**, unless the
name in the text ends in a separator. -/
theorem Scope.read_replaceLastPart {scope : Scope}
    (ended : (unwrapTypeChars text.toList).getLast? ≠ some '.')
    (reads : (scope.read text).name.toList = stem ++ part) :
    scope.read (replaceLastPart text name) =
      ⟨String.ofList (stem ++ name.toList), (scope.read text).scope⟩ := by
  cases scope with
  | whole =>
    rw [Scope.read, Symbol.ofText, trimmed.trim] at reads
    obtain ⟨same, fresh⟩ := toList_replaceLastPart_of_part trimmed isStem isPart newPart reads
    rw [← same] at fresh ⊢
    rw [Scope.read, Symbol.ofText, fresh.trim, String.ofList_toList]
    rfl
  | types short =>
    have plain : (expandShort short (unwrapType text)).scope = none := by
      unfold expandShort
      split
      · rfl
      · split
        · split
          · rfl
          · rfl
        · rfl
    rw [Scope.read, Scope.read, plain]
    exact expandShort_replaceLastPart trimmed isStem isPart newPart ended reads
  | members of =>
    have real : (memberOf of text).isEmpty = false := by
      unfold Symbol.isEmpty
      rw [← Bool.not_eq_true, String.isEmpty_iff, ← String.toList_eq_nil_iff]
      rw [Scope.read] at reads
      rw [reads]
      simp [isPart.nonempty]
    obtain ⟨realScope, same⟩ := memberOf_eq real trimmed
    obtain ⟨textStem, last, whole, isTextStem, absent⟩ := exists_stem '.' text.toList
    rw [Scope.read, same, String.toList_append, String.toList_append, whole,
      show ".".toList = ['.'] from rfl, List.append_assoc, List.singleton_append,
      ← List.cons_append, ← List.append_assoc] at reads
    obtain ⟨rfl, rfl⟩ := stem_unique (isTextStem.behind of.name.toList) isStem absent
      isPart.separator reads
    obtain ⟨replaced, fresh⟩ := toList_replaceLastPart_of_part trimmed isTextStem isPart newPart whole
    have written : (replaceLastPart text name).toList ≠ [] := by
      rw [replaced]
      simp [newPart.nonempty]
    rw [Scope.read, Scope.read, same, memberOf_of_real realScope (replaced ▸ fresh) written]
    refine (Symbol.mk.injEq ..).mpr ⟨?_, rfl⟩
    rw [← String.toList_inj, String.toList_append, String.toList_append, replaced,
      String.toList_ofList]
    simp

end Replacing

end EntityModel
