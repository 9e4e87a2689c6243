import EntityModel.Proofs.Workspace.Renaming

/-
**References that follow the nodes they lead to.**

* `Suits` — a name that a node may get; `Apart` — names for several nodes that do not meet.
* `name_of_renamed`, `symbol_of_renamed` — a node that is renamed has the name, and the symbol that
  goes with it; `only_declares` — nothing else of its kind has that symbol.
* `leads_retargeted`, `slot_follows` — what is found for a text, slot by slot.
* `leadsAgain` — every reference that led to a renamed node leads to it again, slot by slot;
  `exists_followed` — for nodes that are renamed in turn and committed.
* `references_followed` — **after every history of transactions the commit of a renaming succeeds, and
  every reference that led to the node leads to it again.**
-/

namespace EntityModel

/-- Slot by slot, the second reference leads to the node where the first one does, and it is known if
the first one is. -/
structure Reference.LeadsAgain (target : NodeId) (before after : Reference) : Prop where
  slots : List.Forall₂ (fun slot next => slot.target? = some target → next.target? = some target)
    before.slots after.slots
  known : before.status = .known → after.status = .known

namespace Workspace

/-! ### Names for nodes -/

/-- The name may be given to the node: the name it has and the new one are identifiers, the new one
does not hold the separator of lists, and no node declares the symbol it leads to. -/
structure Suits (workspace : Workspace) (id : NodeId) (name : String) : Prop where
  old : ∀ site ∈ workspace.catalog.site? id,
    ∃ before ∈ site.node.name, Text.isIdentifier before = true
  identifier : Text.isIdentifier name = true
  apart : workspace.options.listSeparator ∉ name.toList
  fresh : ∀ site ∈ workspace.catalog.site? id,
    ∀ symbol ∈ site.node.symbolOfName? site.ancestors name,
      workspace.catalog.declarations symbol = []

instance (workspace : Workspace) (id : NodeId) (name : String) :
    Decidable (workspace.Suits id name) :=
  decidable_of_iff (_ ∧ _ ∧ _ ∧ _)
    ⟨fun parts => ⟨parts.1, parts.2.1, parts.2.2.1, parts.2.2.2⟩,
      fun suits => ⟨suits.old, suits.identifier, suits.apart, suits.fresh⟩⟩

/-- Every text that leads to the node has a last part. -/
def EndsInPart (workspace : Workspace) (id : NodeId) : Prop :=
  ∀ site ∈ workspace.catalog.sites, ∀ reference ∈ site.node.references,
    ∀ slot ∈ reference.slots, slot.target? = some id →
      (unwrapType slot.text).toList.getLast? ≠ some Symbol.separator

instance (workspace : Workspace) (id : NodeId) : Decidable (workspace.EndsInPart id) :=
  inferInstanceAs (Decidable (∀ site ∈ workspace.catalog.sites,
    ∀ reference ∈ site.node.references, ∀ slot ∈ reference.slots, slot.target? = some id →
      (unwrapType slot.text).toList.getLast? ≠ some Symbol.separator))

/-- The names are for different nodes, whose kinds do not enter into the symbols of each other. The
symbols they lead to differ, and no reference leads to two of the nodes. -/
structure Apart (workspace : Workspace) (names : List (NodeId × String)) : Prop where
  distinct : (names.map Prod.fst).Nodup
  kinds : ∀ change ∈ names, ∀ site ∈ workspace.catalog.site? change.1,
    ∀ other ∈ names, ∀ place ∈ workspace.catalog.site? other.1,
      place.node.kind ∉ site.node.kind.restsOn
  symbols : ∀ change ∈ names, ∀ site ∈ workspace.catalog.site? change.1,
    ∀ other ∈ names, ∀ place ∈ workspace.catalog.site? other.1, change.1 ≠ other.1 →
      ∀ symbol ∈ site.node.symbolOfName? site.ancestors change.2,
        place.node.symbolOfName? place.ancestors other.2 ≠ some symbol
  references : ∀ site ∈ workspace.catalog.sites, ∀ reference ∈ site.node.references,
    ∀ change ∈ names, ∀ other ∈ names,
      change.1 ∈ reference.targets → other.1 ∈ reference.targets → change.1 = other.1

theorem apart_singleton (workspace : Workspace) (id : NodeId) (name : String) :
    workspace.Apart [(id, name)] := by
  refine ⟨List.nodup_singleton _, ?_, ?_, ?_⟩
  · intro change listed site located other also place there
    obtain rfl := List.mem_singleton.mp listed
    obtain rfl := List.mem_singleton.mp also
    obtain rfl : site = place := Option.some.inj (located.symm.trans there)
    exact Kind.not_restsOn_self _
  · intro change listed site _ other also place _ different
    obtain rfl := List.mem_singleton.mp listed
    obtain rfl := List.mem_singleton.mp also
    exact absurd rfl different
  · intro _ _ reference _ change listed other also _ _
    rw [List.mem_singleton.mp listed, List.mem_singleton.mp also]

section Rows

variable {workspace : Workspace} (coherent : workspace.Coherent) {row : Row}
  (member : row ∈ workspace.catalog.rows)

include coherent member

theorem exists_site_of_row : ∃ site, workspace.catalog.site? row.id = some site ∧ site.row = row :=
  Option.map_eq_some_iff.mp
    ((Catalog.row?_eq ..).symm.trans (coherent.numbered.row?_of_mem member))

omit coherent in
theorem EndsInPart.ended {id : NodeId} (ends : workspace.EndsInPart id) {reference : Reference}
    (inside : reference ∈ row.node.references) {slot : Slot} (kept : slot ∈ reference.slots)
    (leads : slot.target? = some id) :
    (unwrapType slot.text).toList.getLast? ≠ some Symbol.separator := by
  obtain ⟨site, live, rfl⟩ := List.mem_map.mp (Catalog.map_row_sites _ ▸ member)
  exact ends site live reference inside slot kept leads

theorem Suits.name {id : NodeId} {name : String} (suits : workspace.Suits id name)
    (number : row.id = id) :
    ∃ before, row.node.name = some before ∧ Text.isIdentifier before = true := by
  obtain ⟨site, located, rfl⟩ := exists_site_of_row coherent member
  exact suits.old site (number ▸ located)

theorem Suits.unused {id : NodeId} {name : String} (suits : workspace.Suits id name)
    (number : row.id = id) {symbol : Symbol}
    (symbolOfName : row.node.symbolOfName? row.above name = some symbol) :
    workspace.catalog.declaring symbol = [] := by
  obtain ⟨site, located, rfl⟩ := exists_site_of_row coherent member
  rw [← Catalog.declarations_eq coherent.numbered coherent.exact,
    suits.fresh site (number ▸ located) symbol symbolOfName, List.map_nil]

variable {names : List (NodeId × String)} (apart : workspace.Apart names)
  {change : NodeId × String} (listed : change ∈ names)

include apart listed

omit coherent in
theorem Apart.eq_of_leads {reference : Reference} (inside : reference ∈ row.node.references)
    {other : NodeId × String} (also : other ∈ names) (leads : change.1 ∈ reference.targets)
    (same : other.1 ∈ reference.targets) : other = change := by
  obtain ⟨site, live, rfl⟩ := List.mem_map.mp (Catalog.map_row_sites _ ▸ member)
  exact List.inj_on_of_nodup_map apart.distinct also listed
    (apart.references site live reference inside other also change listed same leads)

variable (number : row.id = change.1)

include number

theorem Apart.spared : workspace.Spared names row.node.kind.restsOn := by
  obtain ⟨site, located, rfl⟩ := exists_site_of_row coherent member
  intro other also place there same
  obtain ⟨second, found, rfl⟩ := exists_site_of_row coherent there
  exact apart.kinds change listed site (number ▸ located) other also second (same ▸ found)

theorem Apart.symbol_ne {other : NodeId × String} (also : other ∈ names) {second : Row}
    (there : second ∈ workspace.catalog.rows) (same : second.id = other.1)
    (different : second.id ≠ row.id) {symbol : Symbol}
    (first : row.node.symbolOfName? row.above change.2 = some symbol) :
    second.node.symbolOfName? second.above other.2 ≠ some symbol := by
  obtain ⟨site, located, rfl⟩ := exists_site_of_row coherent member
  obtain ⟨place, found, rfl⟩ := exists_site_of_row coherent there
  refine apart.symbols change listed site (number ▸ located) other also place (same ▸ found) ?_
    symbol first
  rw [← number, ← same]
  exact different.symm

end Rows

/-! ### The nodes that are renamed -/

section Revised

variable {names : List (NodeId × String)} {f : Node → Node} {before after : Workspace}
  (revised : Revised (before.renamingWrites names) f before after)
  (suits : ∀ change ∈ names, before.Suits change.1 change.2) (apart : before.Apart names)
  {row : Row} (member : row ∈ before.catalog.rows) {change : NodeId × String}
  (listed : change ∈ names) (number : row.id = change.1)

  {enclosing : List Kind} (enclosed : row.node.kind.enclosing? = some enclosing)

include revised suits apart member listed number enclosed

/-- A node that is renamed has the name. -/
theorem name_of_renamed : (f row.node).name = some change.2 := by
  have steady := revised.earlier
  have read := steady.read revised.idle member
  have later := read_after revised member
  obtain ⟨key, isKey⟩ := Option.isSome_iff_exists.mp (Kind.nameAttribute?_of_enclosing enclosed)
  have kind : (row.map f).node.kind = row.node.kind := revised.sameKind row.node
  -- nothing but this name is written for the attribute
  have only : ∀ value, ⟨row.id, key, value⟩ ∈ before.renamingWrites names → value = change.2 := by
    intro value written
    obtain ⟨other, also, inside⟩ := List.mem_flatMap.mp written
    rcases (mem_renameWrites steady.coherent revised.idle).mp inside with
      ⟨_, _, _, _, _, same⟩ | ⟨owner, there, reference, held, leads, same⟩
    · obtain ⟨own, _, rfl⟩ := (Write.mk.injEq ..).mp same
      exact congrArg Prod.snd
        (List.inj_on_of_nodup_map apart.distinct also listed (own.symm.trans number))
    · obtain ⟨own, rfl, _⟩ := (Write.mk.injEq ..).mp same
      obtain rfl := steady.coherent.numbered.eq_of_id there member own.symm
      obtain ⟨isEnd, expected⟩ := eq_associationSetEnd (read.of_mem held).1 isKey
      obtain ⟨found, live, same, fits⟩ := steady.exists_target revised.idle there held leads
      rw [expected] at fits
      exact absurd fits (spared_ends (apart.spared steady.coherent there listed number)
        (Or.inr isEnd) other also found live same)
  have written : ⟨row.id, key, change.2⟩ ∈ before.renamingWrites names := by
    refine List.mem_flatMap.mpr ⟨change, listed, ?_⟩
    exact (mem_renameWrites steady.coherent revised.idle).mpr
      (Or.inl ⟨row, member, number, key, isKey, by rw [number]⟩)
  have held : (f row.node).head.attribute? key = some change.2 :=
    (revised.holds row.node key).trans (written_of_only written only _)
  have isPart := Text.isPart_of_isIdentifier (suits change listed).identifier
  rw [show (f row.node).name = (row.map f).node.name from rfl, later.name, kind, isKey,
    Option.map_some, show (row.map f).node.head = (f row.node).head from rfl, held,
    Option.getD_some, isPart.trimmed.trim]

/-- **A node that is renamed declares the symbol that goes with the name.** -/
theorem symbol_of_renamed : (f row.node).symbol = row.node.symbolOfName? row.above change.2 := by
  have spared := apart.spared revised.earlier.coherent member listed number
  have above : ∀ node ∈ row.above,
      Spares row.node.kind.restsOn before.options.listSeparator f node := by
    intro node inside
    obtain ⟨upper, there, _⟩ := Catalog.row_of_mem_line member (List.mem_cons_of_mem _ inside)
    exact spares_renaming revised there spared
  have real := (Text.isPart_of_isIdentifier (suits change listed).identifier).not_blank
  have names : enclosing.map (nearestName (row.above.map f)) =
      enclosing.map (nearestName row.above) :=
    List.map_congr_left fun kind inside =>
      nearestName_map above (Kind.restsOn_of_enclosing enclosed kind inside)
  rw [symbol_eq revised member]
  show (f row.node).declaredSymbol? (row.above.map f) = _
  rw [Node.declaredSymbol?, name_of_renamed revised suits apart member listed number enclosed,
    Option.bind_some, if_neg real, symbolOfName?_enclosing enclosed,
    symbolOfName?_enclosing ((revised.sameKind row.node).symm ▸ enclosed), names]

/-- Nothing else of the kind declares the symbol of a node that is renamed. -/
theorem only_declares {symbol : Symbol}
    (symbolOfName : row.node.symbolOfName? row.above change.2 = some symbol) {other : Row}
    (declares : other ∈ after.catalog.declaring symbol)
    (sameKind : other.node.kind = row.node.kind) : other.id = row.id := by
  have coherent := revised.earlier.coherent
  have spared := apart.spared coherent member listed number
  obtain ⟨live, declared⟩ := Catalog.mem_declaring.mp declares
  obtain ⟨own, real⟩ := Node.declared?_eq_some_iff.mp declared
  rw [revised.rows] at live
  obtain ⟨second, there, rfl⟩ := List.mem_map.mp live
  have kind : second.node.kind = row.node.kind := (revised.sameKind second.node).symm.trans sameKind
  have enclosedToo : second.node.kind.enclosing? = some enclosing := kind ▸ enclosed
  rw [show (second.map f).id = second.id from revised.sameId second.node]
  by_contra different
  have unnamed : ∀ given ∈ names, given.1 ≠ second.id := by
    intro given also same
    refine apart.symbol_ne coherent member listed number also there same.symm different
      symbolOfName ?_
    rw [← symbol_of_renamed revised suits apart there also same.symm enclosedToo]
    exact own
  have sameName : (f second.node).name = second.node.name :=
    name_after revised there unnamed
      (name_unread revised there fun isEnd => spared_ends spared (Or.inr (kind ▸ isEnd)))
  have same := symbol_after revised there spared enclosedToo
    (Kind.restsOn_of_enclosing enclosed) sameName
  have earlier : second ∈ before.catalog.declaring symbol :=
    Catalog.mem_declaring.mpr ⟨there, Node.declared?_eq_some_iff.mpr ⟨same.symm.trans own, real⟩⟩
  rw [(suits change listed).unused coherent member number symbolOfName] at earlier
  exact absurd earlier List.not_mem_nil

/-- What a node that is renamed declares, is the symbol that goes with the name. -/
theorem declared_of_renamed : ∃ symbol, row.node.symbolOfName? row.above change.2 = some symbol ∧
    (f row.node).declared? = some symbol ∧ symbol.name.toList =
      Symbol.qualifier (enclosing.map (nearestName row.above)) ++ change.2.toList ∧
        symbol.scope = none := by
  have newPart := Text.isPart_of_isIdentifier (suits change listed).identifier
  have symbolOfName := symbolOfName?_part enclosed row.above newPart
  have own := (symbol_of_renamed revised suits apart member listed number enclosed).trans symbolOfName
  exact ⟨_, symbolOfName, Node.declared?_eq_some_iff.mpr
    ⟨own, Symbol.isEmpty_append newPart.nonempty none⟩, String.toList_ofList, rfl⟩

omit enclosed in
/-- **A text that stands for a renamed node stands for it again** with the name as its last part. -/
theorem read_retargeted {owner : Row} (there : owner ∈ before.catalog.rows)
    {reference : Reference} (inside : reference ∈ owner.node.references) {text : String}
    (trimmed : Text.Trimmed text.toList)
    (ended : (unwrapTypeChars text.toList).getLast? ≠ some '.')
    (expected : row.node.kind ∈ reference.rule.expected)
    (reads : row.node.declared? = some ((before.catalog.scope before.options.listSeparator
      (.ofRow (some owner)) reference.rule.reading).read text)) :
    ∃ symbol, row.node.symbolOfName? row.above change.2 = some symbol ∧
      (f row.node).declared? = some symbol ∧
        (after.catalog.scope after.options.listSeparator (.ofRow (some (owner.map f)))
          reference.rule.reading).read (replaceLastPart text change.2) = symbol := by
  have steady := revised.earlier
  have suited := suits change listed
  have rule := ((steady.read revised.idle there).of_mem inside).1
  obtain ⟨enclosing, enclosed⟩ := Option.isSome_iff_exists.mp (enclosing?_isSome rule expected)
  have spared := apart.spared steady.coherent member listed number
  obtain ⟨old, named, identifier⟩ := suited.name steady.coherent member number
  have isPart := Text.isPart_of_isIdentifier identifier
  -- the text is read as the symbol with the old name, so the new one is read as that with the new
  have symbolBefore := (Node.declared?_eq_some_iff.mp reads).1
  rw [steady.symbol revised.idle member, Row.declaredSymbol?, Node.declaredSymbol?, named,
    Option.bind_some, if_neg isPart.not_blank, symbolOfName?_part enclosed _ isPart] at symbolBefore
  have same := Option.some.inj symbolBefore
  have replaced := Scope.read_replaceLastPart trimmed (Symbol.isStem_qualifier _) isPart
    (Text.isPart_of_isIdentifier suited.identifier) ended (by rw [← same, String.toList_ofList])
  rw [← same] at replaced
  obtain ⟨symbol, symbolOfName, declares, chars, scope⟩ :=
    declared_of_renamed revised suits apart member listed number enclosed
  refine ⟨symbol, symbolOfName, declares, ?_⟩
  rw [scope_after revised there spared inside expected, replaced]
  refine (Symbol.mk.injEq ..).mpr ⟨?_, scope.symm⟩
  rw [← String.toList_inj, String.toList_ofList, chars]

omit enclosed in
/-- **A text that leads to a renamed node leads to it again** with the name as its last part. -/
theorem leads_retargeted {owner : Row} (there : owner ∈ before.catalog.rows)
    {reference : Reference} (inside : reference ∈ owner.node.references) {text : String}
    (trimmed : Text.Trimmed text.toList)
    (ended : (unwrapTypeChars text.toList).getLast? ≠ some '.')
    (leads : (before.catalog.readSlot before.options.listSeparator (some owner) reference.rule
      text).1.target? = some row.id) :
    (after.catalog.readSlot after.options.listSeparator (some (owner.map f)) reference.rule
      (replaceLastPart text change.2)).1.target? = some row.id := by
  have steady := revised.earlier
  have later := revised.later
  obtain ⟨_, _, declared, declares, fits, same⟩ := Catalog.target_of_readSlot
    steady.coherent.numbered steady.coherent.exact (Catalog.readName_scope ..) leads
  obtain ⟨live, isDeclared⟩ := Catalog.mem_declaring.mp declares
  obtain rfl := steady.coherent.numbered.eq_of_id live member same
  have expected : declared.node.kind ∈ reference.rule.expected := by
    rw [Candidate.fits, Bool.and_eq_true, List.contains_iff_mem] at fits
    exact fits.2
  have rule := ((steady.read revised.idle there).of_mem inside).1
  obtain ⟨enclosing, enclosed⟩ := Option.isSome_iff_exists.mp (enclosing?_isSome rule expected)
  obtain ⟨symbol, symbolOfName, declaresAfter, readsAfter⟩ := read_retargeted revised suits apart
    member listed number there inside trimmed ended expected isDeclared
  have real := (Node.declared?_eq_some_iff.mp declaresAfter).2
  have written : (replaceLastPart text change.2).isEmpty = false := by
    rw [← Bool.not_eq_true, String.isEmpty_iff]
    exact replaceLastPart_ne_empty trimmed
      (Text.isPart_of_isIdentifier (suits change listed).identifier)
  have declaring : declared.map f ∈ after.catalog.declaring symbol :=
    Catalog.mem_declaring.mpr ⟨row_after revised member, declaresAfter⟩
  have candidate : (declared.map f).candidate = declared.candidate :=
    (Candidate.mk.injEq ..).mpr ⟨revised.sameId _, revised.sameKind _, rfl⟩
  refine (Catalog.target_readSlot later.coherent.numbered later.coherent.exact
    ((Catalog.readName_scope ..).trans readsAfter) written real declaring (candidate ▸ fits)
      fun other declares fits => ?_).trans (congrArg some (revised.sameId declared.node))
  rw [Candidate.fits, Bool.and_eq_true, List.contains_iff_mem, expected_eq rule expected,
    List.mem_singleton] at fits
  exact (only_declares revised suits apart member listed number enclosed symbolOfName declares
    fits.2).trans (revised.sameId declared.node).symm

end Revised

/-! ### The references -/

section References

variable {names : List (NodeId × String)} {f : Node → Node} {before after : Workspace}
  (revised : Revised (before.renamingWrites names) f before after) (apart : before.Apart names)
  {row : Row} (member : row ∈ before.catalog.rows) {reference : Reference}
  (inside : reference ∈ row.node.references) {change : NodeId × String}
  (listed : change ∈ names) (leads : change.1 ∈ reference.targets)

include revised apart member inside listed leads

/-- The reference gets the text that the renaming of its target writes, and is evaluated again. -/
theorem exists_retargeted : ∃ later ∈ (f row.node).references, later.rule = reference.rule ∧
    later.text = some (reference.retarget before.options.listSeparator change.1 change.2) ∧
      later.answer = some (after.evaluate row.id later).slots := by
  have steady := revised.earlier
  have coherent := steady.coherent
  have read := steady.read revised.idle member
  have rule := (read.of_mem inside).1
  have found : before.reference? ⟨row.id, reference.role⟩ = some reference :=
    coherent.reference?_eq_some_iff.mpr ⟨row, member, rfl, inside, rfl⟩
  have written : ⟨row.id, reference.role,
      reference.retarget before.options.listSeparator change.1 change.2⟩ ∈
        before.renamingWrites names :=
    List.mem_flatMap.mpr ⟨change, listed, (mem_renameWrites coherent revised.idle).mpr
      (Or.inr ⟨row, member, reference, inside, leads, rfl⟩)⟩
  -- no other value is written there
  have only : ∀ value, ⟨row.id, reference.role, value⟩ ∈ before.renamingWrites names →
      value = reference.retarget before.options.listSeparator change.1 change.2 := by
    intro value other
    obtain ⟨given, also, taken⟩ := List.mem_flatMap.mp other
    rcases (mem_renameWrites coherent revised.idle).mp taken with
      ⟨owner, there, number, key, named, same⟩ | ⟨owner, there, second, held, target, same⟩
    · obtain ⟨own, rfl, _⟩ := (Write.mk.injEq ..).mp same
      obtain rfl := coherent.numbered.eq_of_id there member (number.trans own.symm)
      obtain ⟨isEnd, expected⟩ := eq_associationSetEnd rule named
      obtain ⟨target, live, here, fits⟩ := steady.exists_target revised.idle there inside leads
      rw [expected] at fits
      exact absurd fits (spared_ends (apart.spared coherent there also number)
        (Or.inr isEnd) change listed target live here)
    · obtain ⟨own, role, rfl⟩ := (Write.mk.injEq ..).mp same
      obtain rfl := coherent.numbered.eq_of_id there member own.symm
      obtain rfl : second = reference := Option.some.inj
        ((coherent.reference?_eq_some_iff.mpr ⟨owner, there, rfl, held, role.symm⟩).symm.trans found)
      rw [apart.eq_of_leads member listed inside also leads target]
  have held : (f row.node).head.attribute? reference.role =
      some (reference.retarget before.options.listSeparator change.1 change.2) :=
    (revised.holds row.node reference.role).trans (written_of_only written only _)
  have kind : (row.map f).node.kind = row.node.kind := revised.sameKind row.node
  obtain ⟨later, there, same, text⟩ :=
    (read_after revised member).exists_reference (kind.symm ▸ rule)
  refine ⟨later, there, same, text.trans held, ?_⟩
  exact revised.answers row member ⟨_, written, rfl⟩ later there

/-- The slots of the reference with that text, one for each of its new entries. -/
theorem exists_slots (isPart : Text.IsPart change.2.toList)
    (separated : before.options.listSeparator ∉ change.2.toList) :
    ∃ later ∈ (f row.node).references, later.role = reference.role ∧
      later.answer = some ((reference.retargeted before.options.listSeparator change.1
        change.2).map fun text => (after.catalog.readSlot after.options.listSeparator
          (some (row.map f)) reference.rule text).1) := by
  obtain ⟨later, there, sameRule, text, answer⟩ :=
    exists_retargeted revised apart member inside listed leads
  obtain ⟨slot, kept, isTarget⟩ := List.mem_filterMap.mp leads
  obtain ⟨written, _⟩ := revised.earlier.aligned revised.idle member inside kept
    (Slot.isKnown_of_target isTarget)
  have texts : later.texts after.options.listSeparator =
      reference.retargeted before.options.listSeparator change.1 change.2 := by
    rw [revised.options]
    exact Reference.texts_retarget written isPart separated sameRule text
  have present : later.texts after.options.listSeparator ≠ [] := by
    rw [texts, Ne, ← List.length_eq_zero_iff, Reference.length_retargeted, List.length_eq_zero_iff]
    exact written
  have place := revised.later.coherent.numbered.row?_of_mem (row_after revised member)
  rw [show (row.map f).id = row.id from revised.sameId row.node] at place
  refine ⟨later, there, congrArg ReferenceRule.role sameRule, ?_⟩
  rw [answer, Workspace.evaluate, Catalog.evaluate_of_texts _ _ present, texts, place, sameRule,
    Catalog.gather, List.map_map]
  rfl

variable (suits : ∀ change ∈ names, before.Suits change.1 change.2)
  (ends : before.EndsInPart change.1)

include suits ends

/-- What was found for a text is found for what becomes of it. -/
theorem slot_follows {slot : Slot} (kept : slot ∈ reference.slots) {text : String}
    (trimmed : Text.Trimmed text.toList) (lasts : slot.Lasts before.options.rebindWaiting
      (before.catalog.readSlot before.options.listSeparator (some row) reference.rule text).1)
    {next : Slot} (isNext : next = (after.catalog.readSlot after.options.listSeparator
      (some (row.map f)) reference.rule
        (if slot.target? = some change.1 then replaceLastPart text change.2 else text)).1) :
    (slot.target? = some change.1 → next.target? = some change.1) ∧
      (slot.isKnown = true → next.isKnown = true) := by
  have steady := revised.earlier
  have coherent := steady.coherent
  obtain ⟨target, live, number, expected⟩ :=
    steady.exists_target revised.idle member inside leads
  by_cases isTarget : slot.target? = some change.1
  · have fresh := lasts.eq (Or.inr (Slot.isKnown_of_target isTarget))
    have ended := ends.ended member inside kept isTarget
    rw [lasts.text, Catalog.text_readSlot, toList_unwrapType] at ended
    have again := leads_retargeted revised suits apart live listed number member inside trimmed ended
      (by rw [← fresh, number]; exact isTarget)
    rw [if_pos isTarget] at isNext
    rw [isNext, again, number]
    exact ⟨fun _ => rfl, fun _ => Slot.isKnown_of_target again⟩
  · refine ⟨fun same => absurd same isTarget, fun known => ?_⟩
    obtain ⟨other, isOther⟩ := Option.isSome_iff_exists.mp known
    have unnamed : ∀ given ∈ names, given.1 ≠ other := by
      rintro given also rfl
      have same := apart.eq_of_leads member listed inside also leads
        (List.mem_filterMap.mpr ⟨_, kept, isOther⟩)
      exact isTarget (same ▸ isOther)
    obtain ⟨_, again⟩ := found_after revised member (apart.spared coherent live listed number)
      inside expected (by rw [← lasts.eq (Or.inr known)]; exact isOther) unnamed
    rw [if_neg isTarget] at isNext
    rw [isNext]
    exact Slot.isKnown_of_target again

/-- **A reference that led to a renamed node leads to it again**, slot by slot. -/
theorem leadsAgain : ∃ later ∈ (f row.node).references, later.role = reference.role ∧
    reference.LeadsAgain change.1 later := by
  have suited := suits change listed
  obtain ⟨later, there, role, answer⟩ := exists_slots revised apart member inside listed leads
    (Text.isPart_of_isIdentifier suited.identifier) suited.apart
  obtain ⟨slot, kept, isTarget⟩ := List.mem_filterMap.mp leads
  obtain ⟨_, aligned⟩ := revised.earlier.aligned revised.idle member inside kept
    (Slot.isKnown_of_target isTarget)
  have each : List.Forall₂ (fun slot next =>
      (slot.target? = some change.1 → next.target? = some change.1) ∧
        (slot.isKnown = true → next.isKnown = true)) reference.slots later.slots := by
    rw [show later.slots = _ from congrArg (Option.getD · []) answer]
    refine List.forall₂_map_right_iff.mpr ((List.forall₂_and_left _ _).mpr
      ⟨fun _ kept => kept, Reference.forall₂_retargeted aligned⟩ |>.imp ?_)
    rintro slot entry ⟨kept, text, listedText, lasts, rfl⟩
    exact slot_follows revised apart member inside listed leads suits ends kept
      (Reference.trimmed_of_mem_texts listedText) lasts rfl
  refine ⟨later, there, role, each.imp fun _ _ both => both.1, fun status => ?_⟩
  refine Reference.status_eq_known_iff.mpr ⟨by rw [answer]; rfl, fun next final => ?_⟩
  obtain ⟨slot, kept, both⟩ := exists_of_forall₂ each.flip final
  exact both.2 ((Reference.status_eq_known_iff.mp status).2 slot kept)

end References

section Committed

variable {names : List (NodeId × String)} {workspace renamed : Workspace} (steady : workspace.Steady)
  (idle : workspace.current = .empty) (nonempty : names ≠ [])
  (done : workspace.renameAll names = .ok renamed)

include steady idle nonempty done

/-- When nodes have been renamed in turn, the commit makes their names and the texts of the references
to them count. -/
theorem exists_revised_renameAll : ∃ f after report, renamed.commit = .ok (after, report) ∧
    Revised (workspace.renamingWrites names) f workspace after := by
  obtain ⟨there, f, overwritten⟩ := overwritten_renameAll names done
  obtain ⟨first, listed⟩ := List.exists_mem_of_ne_nil names nonempty
  obtain ⟨row, member, number, named⟩ := there first listed
  obtain ⟨key, isKey⟩ := Option.isSome_iff_exists.mp named
  have written : ⟨first.1, key, first.2⟩ ∈ workspace.renamingWrites names :=
    List.mem_flatMap.mpr ⟨first, listed, (mem_renameWrites steady.coherent idle).mpr
      (Or.inl ⟨row, member, number, key, isKey, rfl⟩)⟩
  exact exists_revised steady idle (steady.edits (@edits_renameAll (fun _ _ => True) _ _ _ done))
    overwritten (overwritten.inTransaction written)

/-- What the renaming of nodes in turn and a commit lead to: the commit does not fail, and slots that
led to the nodes do so again. -/
theorem exists_followed (suits : ∀ change ∈ names, workspace.Suits change.1 change.2)
    (apart : workspace.Apart names) (ends : ∀ change ∈ names, workspace.EndsInPart change.1) :
    ∃ after report, renamed.commit = .ok (after, report) ∧
      ∀ id reference, workspace.reference? id = some reference →
        ∀ change ∈ names, change.1 ∈ reference.targets →
          ∃ later, after.reference? id = some later ∧ reference.LeadsAgain change.1 later := by
  obtain ⟨f, after, report, committed, revised⟩ :=
    exists_revised_renameAll steady idle nonempty done
  refine ⟨after, report, committed, fun id reference found change given leads => ?_⟩
  obtain ⟨row, member, owner, inside, role⟩ := steady.coherent.reference?_eq_some_iff.mp found
  obtain ⟨later, kept, same, again⟩ :=
    leadsAgain revised apart member inside given leads suits (ends change given)
  refine ⟨later, revised.later.coherent.reference?_eq_some_iff.mpr
    ⟨row.map f, row_after revised member, ?_, kept, same.trans role⟩, again⟩
  exact (revised.sameId row.node).trans owner

end Committed

theorem renameAll_singleton {workspace renamed : Workspace} {id : NodeId} {name : String}
    {written : List ReferenceId}
    (done : workspace.renameWithReferences id name = .ok (renamed, written)) :
    workspace.renameAll [(id, name)] = .ok renamed := by
  rw [renameAll, List.foldlM_cons, done]
  rfl

end Workspace

/-- **References follow the node they lead to when it is renamed.** After every history of
transactions, when a node with an identifier for a name is given another one that leads to a symbol of
its own, and no text that leads to the node breaks off after a separator: the commit does not fail,
every reference that led to the node has as many slots as before, those that led to the node lead to
it again, and the reference is known if it was. -/
theorem references_followed (options : Options) {commands : List Command}
    (plain : ∀ command ∈ commands, command.isTransactional = true)
    (closed : ((Workspace.ofOptions options).after commands).transaction = none)
    {id : NodeId} {name : String}
    (suits : ((Workspace.ofOptions options).after commands).Suits id name)
    (ends : ((Workspace.ofOptions options).after commands).EndsInPart id)
    {renamed : Workspace} {written : List ReferenceId}
    (done : ((Workspace.ofOptions options).after commands).renameWithReferences id name =
      .ok (renamed, written)) :
    ∃ after report, renamed.commit = .ok (after, report) ∧ ∀ referencer reference,
      ((Workspace.ofOptions options).after commands).reference? referencer = some reference →
        id ∈ reference.targets → ∃ later, after.reference? referencer = some later ∧
          reference.LeadsAgain id later := by
  have suitsAll : ∀ change ∈ [(id, name)],
      ((Workspace.ofOptions options).after commands).Suits change.1 change.2 := by
    intro change listed
    rw [List.mem_singleton.mp listed]
    exact suits
  have endsAll : ∀ change ∈ [(id, name)],
      ((Workspace.ofOptions options).after commands).EndsInPart change.1 := by
    intro change listed
    rw [List.mem_singleton.mp listed]
    exact ends
  obtain ⟨after, report, committed, follows⟩ := Workspace.exists_followed
    (Workspace.steady_after options plain) (Workspace.current_of_closed closed)
    (List.cons_ne_nil _ _) (Workspace.renameAll_singleton done) suitsAll
    (Workspace.apart_singleton _ id name) endsAll
  exact ⟨after, report, committed, fun referencer reference found leads =>
    follows referencer reference found (id, name) List.mem_cons_self leads⟩

/-- A type, and another one that is derived from it by the short name of the namespace. -/
def derivedType : List Command :=
  [.load "shop.edmx" .conceptual (.node ⟨"Schema", none,
      .ofList [("Namespace", "Shop"), ("Alias", "Self")], none, none⟩
    [.node ⟨"EntityType", none, .ofList [("Name", "Item")], none, none⟩ [],
      .node ⟨"EntityType", none, .ofList [("Name", "Book"), ("BaseType", "Self.Item")], none, none⟩
        []]), .commit]

theorem references_followed_derivedType : ∃ renamed written after report,
    ((Workspace.ofOptions .standard).after derivedType).renameWithReferences ⟨1⟩ "Article" =
        .ok (renamed, written) ∧
      renamed.commit = .ok (after, report) ∧ ∃ reference later,
        ((Workspace.ofOptions .standard).after derivedType).reference? ⟨⟨2⟩, "BaseType"⟩ =
            some reference ∧
          after.reference? ⟨⟨2⟩, "BaseType"⟩ = some later ∧ reference.LeadsAgain ⟨1⟩ later := by
  have plain : ∀ command ∈ derivedType, command.isTransactional = true := by decide
  have closed : ((Workspace.ofOptions .standard).after derivedType).transaction = none :=
    Option.not_isSome_iff_eq_none.mp (by decide +kernel)
  have suits : ((Workspace.ofOptions .standard).after derivedType).Suits ⟨1⟩ "Article" := by
    decide +kernel
  have ends : ((Workspace.ofOptions .standard).after derivedType).EndsInPart ⟨1⟩ := by
    decide +kernel
  have renames : (((Workspace.ofOptions .standard).after derivedType).renameWithReferences ⟨1⟩
      "Article").isOk = true := by
    decide +kernel
  have leads : ∃ reference ∈ ((Workspace.ofOptions .standard).after derivedType).reference?
      ⟨⟨2⟩, "BaseType"⟩, ⟨1⟩ ∈ reference.targets := by
    decide +kernel
  obtain ⟨reference, found, target⟩ := leads
  cases done : ((Workspace.ofOptions .standard).after derivedType).renameWithReferences ⟨1⟩
      "Article" with
  | error refused =>
    rw [done] at renames
    exact nomatch renames
  | ok taken =>
    rcases taken with ⟨renamed, written⟩
    obtain ⟨after, report, committed, follows⟩ :=
      references_followed .standard plain closed suits ends done
    obtain ⟨later, there, again⟩ := follows _ reference found target
    exact ⟨renamed, written, after, report, rfl, committed, reference, later, found, there, again⟩

end EntityModel
