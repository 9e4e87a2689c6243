import EntityModel.Proofs.Naming.Members
import EntityModel.Proofs.Workspace.Following

/-
**What moves along with a node that is renamed.**

The symbols of all that is named within the node change with it, and so must the readings of all
references that look into it.

* `Unmistakable`, `Detached`, `WellNamed` — where a node can be renamed without a reference being lost.
  `Counts` — ends of sets may change their names along with it, if nothing refers to them.
* `Moved` — a node has been renamed in such a workspace. `exists_member`, `same_after`, `same_before` —
  what becomes of the symbols: those that were equal are, and no others.
* `exists_texts`, `firstText?_after` — what becomes of the texts, those among them with which others
  are read.
* `tracks` — **a text that stood for a node stands for it again**, if the scope it is read in moves with
  the node that the scope stands for.
-/

namespace EntityModel

namespace Workspace

/-! ### Nodes that can be renamed -/

/-- The node cannot be mistaken for another: nothing else of its kind declares its symbol, and every
text that is read as this symbol, where a node of the kind is looked for, leads to it. -/
structure Unmistakable (workspace : Workspace) (id : NodeId) : Prop where
  only : ∀ site ∈ workspace.catalog.site? id, ∀ other ∈ workspace.catalog.sites,
    other.node.kind = site.node.kind → other.node.symbol = site.node.symbol → other.id = id
  meant : ∀ site ∈ workspace.catalog.site? id, ∀ owner ∈ workspace.catalog.sites,
    ∀ reference ∈ owner.node.references, site.node.kind ∈ reference.rule.expected →
      ∀ slot ∈ reference.slots, some slot.symbol = site.node.symbol → slot.target? = some id

instance (workspace : Workspace) (id : NodeId) : Decidable (workspace.Unmistakable id) :=
  decidable_of_iff (_ ∧ _)
    ⟨fun parts => ⟨parts.1, parts.2⟩, fun clear => ⟨clear.only, clear.meant⟩⟩

/-- Some reference leads to the node. -/
def Referred (workspace : Workspace) (id : NodeId) : Prop :=
  ∃ owner ∈ workspace.catalog.sites, ∃ reference ∈ owner.node.references, id ∈ reference.targets

instance (workspace : Workspace) (id : NodeId) : Decidable (workspace.Referred id) :=
  inferInstanceAs (Decidable (∃ owner ∈ workspace.catalog.sites,
    ∃ reference ∈ owner.node.references, id ∈ reference.targets))

/-- The name of the node counts: it is not an end of a set that nothing refers to. -/
def Counts (workspace : Workspace) (row : Row) : Prop :=
  row.node.kind = .associationSetEnd → workspace.Referred row.id

theorem Counts.of_ne {workspace : Workspace} {row : Row}
    (other : row.node.kind ≠ .associationSetEnd) : workspace.Counts row :=
  fun set => absurd set other

/-- The symbol of an end of a set rests on more than a schema. -/
theorem Counts.of_plain {workspace : Workspace} {row : Row}
    (plain : ∀ kind ∈ row.node.kind.restsOn, kind = .schema) : workspace.Counts row :=
  .of_ne fun set => nomatch plain _ (Kind.associationEnd_mem_restsOn (Or.inr set))

/-- The name of the node is not written for another purpose as well: it is not an end of an
association set, no such end that is referred to itself takes its name from it, and no reference to
anything else is read by way of it. -/
structure Detached (workspace : Workspace) (id : NodeId) : Prop where
  own : ∀ site ∈ workspace.catalog.site? id, site.node.kind ≠ .associationSetEnd
  names : ∀ owner ∈ workspace.catalog.sites, ∀ reference ∈ owner.node.references,
    owner.node.kind.nameAttribute? = some reference.role → id ∈ reference.targets →
      ¬ workspace.Referred owner.id
  readings : ∀ owner ∈ workspace.catalog.sites, ∀ reference ∈ owner.node.references,
    id ∉ (workspace.evaluate owner.id reference).consulted

instance (workspace : Workspace) (id : NodeId) : Decidable (workspace.Detached id) :=
  decidable_of_iff (_ ∧ _ ∧ _)
    ⟨fun parts => ⟨parts.1, parts.2.1, parts.2.2⟩,
      fun detached => ⟨detached.own, detached.names, detached.readings⟩⟩

/-- Names are identifiers, and members are referred to by their bare names. -/
structure WellNamed (workspace : Workspace) : Prop where
  names : ∀ site ∈ workspace.catalog.sites, site.node.kind.hasIdentifierName = true →
    ∃ name ∈ site.node.name, Text.isIdentifier name = true
  members : ∀ owner ∈ workspace.catalog.sites, ∀ reference ∈ owner.node.references,
    reference.rule.reading.holder? ≠ none → ∀ slot ∈ reference.slots,
      Symbol.separator ∉ slot.text.toList

instance (workspace : Workspace) : Decidable workspace.WellNamed :=
  decidable_of_iff (_ ∧ _)
    ⟨fun parts => ⟨parts.1, parts.2⟩, fun named => ⟨named.names, named.members⟩⟩

/-- What becomes of a text of a reference when a node is renamed. -/
def retexted (workspace : Workspace) (id : NodeId) (name : String) (owner : Row)
    (rule : ReferenceRule) (text : String) : String :=
  if (workspace.catalog.readSlot workspace.options.listSeparator (some owner) rule text).1.target? =
      some id then replaceLastPart text name
  else text

/-- The scope in which the texts of a reference are read. -/
def scopeAt (workspace : Workspace) (row : Row) (reading : NameRule) : Scope :=
  workspace.catalog.scope workspace.options.listSeparator (.ofRow (some row)) reading

/-- The symbol within which members are named is that of a node before the change and after it, for
every node of the kind. -/
def ScopeMoves (f : Node → Node) (before after : Workspace) (row : Row) (reading : NameRule)
    (holder : Kind) : Prop :=
  ∀ upper ∈ before.catalog.rows, upper.node.kind = holder →
    upper.node.declared? = some (before.scopeAt row reading).holder →
      (f upper.node).declared? = some (after.scopeAt (row.map f) reading).holder

section Exact

variable {workspace : Workspace} (steady : workspace.Steady) (idle : workspace.current = .empty)
  (rebinds : workspace.options.rebindWaiting = true) {row : Row}
  (member : row ∈ workspace.catalog.rows) {reference : Reference}
  (inside : reference ∈ row.node.references)

include steady idle rebinds member inside

/-- Where all references are kept up to date, answers are evaluations. -/
theorem Steady.answer_eq : reference.answer = some (workspace.evaluate row.id reference).slots := by
  have lasting := steady.lasting idle member inside
  unfold Lasting at lasting
  rw [rebinds] at lasting
  exact (lasting.exact (steady.coherent.recorded row member reference inside)).1

/-- Slots are what is found for the texts. -/
theorem Steady.answer_of_texts (written : reference.texts workspace.options.listSeparator ≠ []) :
    reference.answer = some ((reference.texts workspace.options.listSeparator).map fun text =>
      (workspace.catalog.readSlot workspace.options.listSeparator (some row) reference.rule
        text).1) := by
  rw [steady.answer_eq idle rebinds member inside, evaluate, Catalog.evaluate_of_texts _ _ written,
    steady.coherent.numbered.row?_of_mem member, Catalog.gather, List.map_map]
  rfl

/-- A reference that is known has texts. -/
theorem Steady.texts_of_known (known : reference.status = .known) :
    reference.texts workspace.options.listSeparator ≠ [] := by
  intro absent
  have all := (Reference.status_eq_known_iff.mp known).2
  have slots : reference.slots = [⟨"", .empty, .undefined .empty⟩] := by
    rw [Reference.slots, steady.answer_eq idle rebinds member inside, Option.getD_some, evaluate,
      Catalog.evaluate_of_no_texts _ _ absent]
  rw [slots] at all
  exact absurd (all _ List.mem_cons_self) Bool.false_ne_true

end Exact

/-- A node that can be renamed without a reference being lost. -/
structure Renamable (workspace : Workspace) (id : NodeId) (name : String) : Prop where
  suits : workspace.Suits id name
  ends : workspace.EndsInPart id
  clear : workspace.Unmistakable id
  detached : workspace.Detached id
  named : workspace.WellNamed
  referred : workspace.Referred id

instance (workspace : Workspace) (id : NodeId) (name : String) :
    Decidable (workspace.Renamable id name) :=
  decidable_of_iff (workspace.Suits id name ∧ workspace.EndsInPart id ∧
      workspace.Unmistakable id ∧ workspace.Detached id ∧ workspace.WellNamed ∧
      workspace.Referred id)
    ⟨fun ⟨suits, ends, clear, detached, named, referred⟩ =>
        ⟨suits, ends, clear, detached, named, referred⟩,
      fun ⟨suits, ends, clear, detached, named, referred⟩ =>
        ⟨suits, ends, clear, detached, named, referred⟩⟩

/-- The node has been renamed with the references to it, and the change is committed. -/
structure Moved (id : NodeId) (name : String) (f : Node → Node) (before after : Workspace) :
    Prop extends Renamable before id name where
  revised : Revised (before.renamingWrites [(id, name)]) f before after
  rebinds : before.options.rebindWaiting = true
  placed : before.catalog.Classified fun _ _ => True

namespace Moved

variable {id : NodeId} {name : String} {f : Node → Node} {before after : Workspace}
  (moved : Moved id name f before after)

include moved

/-! ### Rows -/

theorem exists_target : ∃ row ∈ before.catalog.rows, row.id = id ∧
    row.node.kind.enclosing?.isSome = true ∧ row.node.kind ≠ .schema := by
  obtain ⟨site, live, reference, inside, leads⟩ := moved.referred
  have steady := moved.revised.earlier
  have member := row_of_site live
  obtain ⟨row, there, number, expected⟩ :=
    steady.exists_target moved.revised.idle member inside leads
  have rule := ((steady.read moved.revised.idle member).of_mem inside).1
  refine ⟨row, there, number, enclosing?_isSome rule expected, ?_⟩
  have each : ∀ kind : Kind, ∀ rule ∈ kind.references, .schema ∉ rule.expected := by
    intro kind
    cases kind <;> decide
  intro schema
  exact each _ _ rule (schema ▸ expected)

theorem suitsAll : ∀ change ∈ [(id, name)], before.Suits change.1 change.2 := by
  intro change listed
  rw [List.mem_singleton.mp listed]
  exact moved.suits

/-- No schema is renamed. -/
theorem spared {kinds : List Kind} (schema : ∀ kind ∈ kinds, kind = .schema) :
    before.Spared [(id, name)] kinds := by
  intro change listed row member number inside
  obtain ⟨target, there, same, _, other⟩ := moved.exists_target
  rw [List.mem_singleton.mp listed] at number
  obtain rfl := moved.revised.earlier.coherent.numbered.eq_of_id there member (same.trans number.symm)
  exact other (schema _ inside)

section Row

variable {row : Row} (member : row ∈ before.catalog.rows)

include member

theorem kind_ne (number : row.id = id) : row.node.kind ≠ .associationSetEnd := by
  obtain ⟨site, located, rfl⟩ := exists_site_of_row moved.revised.earlier.coherent member
  exact moved.detached.own site (number ▸ located)

theorem eq_of_symbol (number : row.id = id) {other : Row} (there : other ∈ before.catalog.rows)
    (kind : other.node.kind = row.node.kind) (symbol : other.node.symbol = row.node.symbol) :
    other = row := by
  have coherent := moved.revised.earlier.coherent
  obtain ⟨site, located, rfl⟩ := exists_site_of_row coherent member
  obtain ⟨place, live, rfl⟩ := List.mem_map.mp (Catalog.map_row_sites _ ▸ there)
  refine coherent.numbered.eq_of_id there member ?_
  exact (moved.clear.only site (number ▸ located) place live kind symbol).trans number.symm

theorem leads_of_symbol (number : row.id = id) {owner : Row} (there : owner ∈ before.catalog.rows)
    {reference : Reference} (inside : reference ∈ owner.node.references)
    (expected : row.node.kind ∈ reference.rule.expected) {slot : Slot}
    (kept : slot ∈ reference.slots) (symbol : some slot.symbol = row.node.symbol) :
    slot.target? = some id := by
  obtain ⟨site, located, rfl⟩ := exists_site_of_row moved.revised.earlier.coherent member
  obtain ⟨place, live, rfl⟩ := List.mem_map.mp (Catalog.map_row_sites _ ▸ there)
  exact moved.clear.meant site (number ▸ located) place live reference inside expected slot kept symbol

/-- A node that references lead to is not named by a reference to the renamed one. -/
theorem not_named (counts : before.Counts row) {reference : Reference}
    (inside : reference ∈ row.node.references)
    (named : row.node.kind.nameAttribute? = some reference.role) : id ∉ reference.targets := by
  intro leads
  have listed := ((moved.revised.earlier.read moved.revised.idle member).of_mem inside).1
  obtain ⟨site, live, rfl⟩ := List.mem_map.mp (Catalog.map_row_sites _ ▸ member)
  exact moved.detached.names site live reference inside named leads
    (counts (eq_associationSetEnd listed named).1)

theorem not_consulted {reference : Reference} (inside : reference ∈ row.node.references) :
    id ∉ (before.evaluate row.id reference).consulted := by
  obtain ⟨site, live, rfl⟩ := List.mem_map.mp (Catalog.map_row_sites _ ▸ member)
  exact moved.detached.readings site live reference inside

theorem bare_of_slot {reference : Reference} (inside : reference ∈ row.node.references)
    (held : reference.rule.reading.holder? ≠ none) {slot : Slot} (kept : slot ∈ reference.slots) :
    '.' ∉ slot.text.toList := by
  obtain ⟨site, live, rfl⟩ := List.mem_map.mp (Catalog.map_row_sites _ ▸ member)
  exact moved.named.members site live reference inside held slot kept

/-! ### Names -/

theorem exists_name (identifier : row.node.kind.hasIdentifierName = true) :
    ∃ own, row.node.name = some own ∧ Text.IsPart own.toList := by
  obtain ⟨site, live, rfl⟩ := List.mem_map.mp (Catalog.map_row_sites _ ▸ member)
  obtain ⟨own, named, isIdentifier⟩ := moved.named.names site live identifier
  exact ⟨own, named, Text.isPart_of_isIdentifier isIdentifier⟩

/-- All other nodes keep their names, but for ends of sets that nothing refers to. -/
theorem name_kept (other : row.id ≠ id) (counts : before.Counts row) :
    (f row.node).name = row.node.name := by
  refine name_after moved.revised member (fun change listed => ?_)
    fun reference inside named change listed => ?_
  · rw [List.mem_singleton.mp listed]
    exact other.symm
  · rw [List.mem_singleton.mp listed]
    exact moved.not_named member counts inside named

theorem exists_name_after (identifier : row.node.kind.hasIdentifierName = true)
    (counts : before.Counts row) :
    ∃ own, (f row.node).name = some own ∧ Text.IsPart own.toList := by
  by_cases number : row.id = id
  · obtain ⟨target, there, same, enclosed, _⟩ := moved.exists_target
    obtain rfl := moved.revised.earlier.coherent.numbered.eq_of_id there member
      (same.trans number.symm)
    obtain ⟨enclosing, enclosed⟩ := Option.isSome_iff_exists.mp enclosed
    exact ⟨name, name_of_renamed moved.revised moved.suitsAll (apart_singleton before id name) there
      List.mem_cons_self same enclosed, Text.isPart_of_isIdentifier moved.suits.identifier⟩
  · rw [moved.name_kept member number counts]
    exact moved.exists_name member identifier

/-! ### Symbols -/

/-- **A member stays a member of its holder**, under the names that they have then. -/
theorem exists_member {holder : Kind} (held : row.node.kind.holder? = some holder)
    (counts : before.Counts row) :
    ∃ parent ∈ before.catalog.rows, parent.node.kind = holder ∧
      row.above = parent.node :: parent.above ∧
        (∃ scope own, IsMember row.node parent.node scope own) ∧
          ∃ scope own, IsMember (f row.node) (f parent.node) scope own := by
  have revised := moved.revised
  obtain ⟨parent, upper, above, rfl, there⟩ := moved.placed.exists_holder member held
  obtain ⟨identifier, identifierToo⟩ := Kind.hasIdentifierName_of_holder held
  have declares : ∀ {node : Node} {symbol : Option Symbol} {known : Symbol}, node.symbol = symbol →
      symbol = some known → known.isEmpty = false → node.declared? = some known :=
    fun same found real => Node.declared?_eq_some_iff.mpr ⟨same.trans found, real⟩
  refine ⟨_, there, rfl, above, ?_, ?_⟩
  · obtain ⟨own, named, isPart⟩ := moved.exists_name member identifier
    obtain ⟨outer, outerNamed, outerPart⟩ := moved.exists_name there identifierToo
    obtain ⟨scope, declared, real, symbol⟩ :=
      @declaredSymbol?_member _ _ upper held _ _ named isPart outerNamed outerPart
    refine ⟨scope, own, declares (revised.earlier.symbol revised.idle there) declared real, named,
      isPart, declares (revised.earlier.symbol revised.idle member) ?_ (memberOf_real real isPart)⟩
    rw [Row.declaredSymbol?, above, symbol]
  · obtain ⟨own, named, isPart⟩ := moved.exists_name_after member identifier counts
    obtain ⟨outer, outerNamed, outerPart⟩ := moved.exists_name_after there identifierToo
      (.of_ne (Kind.ne_associationSetEnd_of_holder held))
    have heldAfter : (f row.node).kind.holder? = some (f parent).kind := by
      rw [revised.sameKind, revised.sameKind, held]
    obtain ⟨scope, declared, real, symbol⟩ :=
      @declaredSymbol?_member _ _ (upper.map f) heldAfter _ _ named isPart outerNamed outerPart
    refine ⟨scope, own, declares (symbol_eq revised there) declared real, named, isPart,
      declares (symbol_eq revised member) ?_ (memberOf_real real isPart)⟩
    show (f row.node).declaredSymbol? (row.above.map f) = _
    rw [above, List.map_cons, symbol]

/-- The symbol stays of another node that rests on a schema at most. -/
theorem declared_kept (other : row.id ≠ id) (enclosed : row.node.kind.enclosing?.isSome = true)
    (plain : ∀ kind ∈ row.node.kind.restsOn, kind = .schema) :
    (f row.node).declared? = row.node.declared? := by
  obtain ⟨enclosing, enclosed⟩ := Option.isSome_iff_exists.mp enclosed
  have name := moved.name_kept member other (.of_plain plain)
  unfold Node.declared?
  rw [symbol_after moved.revised member (moved.spared plain) enclosed
    (Kind.restsOn_of_enclosing enclosed) name]

end Row

section Pairs

variable {row other : Row} (member : row ∈ before.catalog.rows) (there : other ∈ before.catalog.rows)
  (kind : row.node.kind = other.node.kind)

include member there kind

/-- Symbols that are equal stay equal, where they rest on a schema at most. -/
theorem same_after (enclosed : row.node.kind.enclosing?.isSome = true)
    (plain : ∀ kind ∈ row.node.kind.restsOn, kind = .schema) {symbol : Symbol}
    (first : row.node.declared? = some symbol) (second : other.node.declared? = some symbol) :
    (f row.node).declared? = (f other.node).declared? := by
  have same : row.node.symbol = other.node.symbol :=
    (Node.declared?_eq_some_iff.mp first).1.trans (Node.declared?_eq_some_iff.mp second).1.symm
  by_cases number : row.id = id
  · rw [moved.eq_of_symbol member number there kind.symm same.symm]
  by_cases numberToo : other.id = id
  · rw [moved.eq_of_symbol there numberToo member kind same]
  rw [moved.declared_kept member number enclosed plain,
    moved.declared_kept there numberToo (kind ▸ enclosed) (kind ▸ plain), first, second]

omit kind in
/-- No other node comes to declare what the renamed node declares then. -/
theorem eq_of_declared_after (number : row.id = id) (kind : other.node.kind = row.node.kind)
    {symbol : Symbol} (first : (f row.node).declared? = some symbol)
    (second : (f other.node).declared? = some symbol) : other.id = id := by
  have revised := moved.revised
  obtain ⟨target, live, same, enclosed, _⟩ := moved.exists_target
  obtain rfl := revised.earlier.coherent.numbered.eq_of_id live member (same.trans number.symm)
  obtain ⟨enclosing, enclosed⟩ := Option.isSome_iff_exists.mp enclosed
  have apart := apart_singleton before id name
  obtain ⟨new, symbolOfName, declares, _⟩ := declared_of_renamed revised moved.suitsAll apart live
    List.mem_cons_self same enclosed
  obtain rfl : symbol = new := Option.some.inj (first.symm.trans declares)
  refine ((revised.sameId other.node).symm.trans (only_declares revised moved.suitsAll apart live
    List.mem_cons_self same enclosed symbolOfName
      (Catalog.mem_declaring.mpr ⟨row_after revised there, second⟩) ?_)).trans number
  exact (revised.sameKind other.node).trans kind

/-- Symbols that are equal then have been equal, where they rest on a schema at most. -/
theorem same_before (enclosed : row.node.kind.enclosing?.isSome = true)
    (plain : ∀ kind ∈ row.node.kind.restsOn, kind = .schema) {symbol : Symbol}
    (first : (f row.node).declared? = some symbol)
    (second : (f other.node).declared? = some symbol) :
    row.node.declared? = other.node.declared? := by
  have unique := moved.revised.earlier.coherent.numbered
  by_cases number : row.id = id
  · have numberToo := moved.eq_of_declared_after member there number kind.symm first second
    rw [unique.eq_of_id member there (number.trans numberToo.symm)]
  by_cases numberToo : other.id = id
  · exact absurd (moved.eq_of_declared_after there member numberToo kind second first) number
  rw [← moved.declared_kept member number enclosed plain,
    ← moved.declared_kept there numberToo (kind ▸ enclosed) (kind ▸ plain), first, second]

end Pairs

/-! ### Texts -/

section Texts

variable {row : Row} (member : row ∈ before.catalog.rows) {reference : Reference}
  (inside : reference ∈ row.node.references)

include member inside

theorem slots_eq (written : reference.texts before.options.listSeparator ≠ []) :
    reference.slots = (reference.texts before.options.listSeparator).map fun text =>
      (before.catalog.readSlot before.options.listSeparator (some row) reference.rule text).1 :=
  congrArg (Option.getD · []) (moved.revised.earlier.answer_of_texts moved.revised.idle moved.rebinds
    member inside written)

/-- The slot of a text is one of the slots. -/
theorem mem_slots {text : String} (listed : text ∈ reference.texts before.options.listSeparator) :
    (before.catalog.readSlot before.options.listSeparator (some row) reference.rule text).1 ∈
      reference.slots := by
  rw [moved.slots_eq member inside (List.ne_nil_of_mem listed)]
  exact List.mem_map_of_mem listed

/-- **The texts of a reference after the renaming**, one by one. -/
theorem exists_texts : ∃ later ∈ (f row.node).references, later.rule = reference.rule ∧
    later.texts before.options.listSeparator =
      (reference.texts before.options.listSeparator).map
        (before.retexted id name row reference.rule) := by
  have revised := moved.revised
  by_cases leads : id ∈ reference.targets
  · obtain ⟨later, there, rule, text, _⟩ := exists_retargeted revised (apart_singleton before id name)
      member inside List.mem_cons_self leads
    obtain ⟨slot, kept, isTarget⟩ := List.mem_filterMap.mp leads
    obtain ⟨written, _⟩ := revised.earlier.aligned revised.idle member inside kept
      (Slot.isKnown_of_target isTarget)
    exact ⟨later, there, rule, (Reference.texts_retarget written
      (Text.isPart_of_isIdentifier moved.suits.identifier) moved.suits.apart rule text).trans
        (Reference.retargeted_eq_map (moved.slots_eq member inside written))⟩
  · have read := revised.earlier.read revised.idle member
    obtain ⟨listed, held⟩ := read.of_mem inside
    have same : (f row.node).head.attribute? reference.role =
        row.node.head.attribute? reference.role := by
      refine attribute?_after revised member (fun named change only => ?_)
        fun other there role change only => ?_
      · rw [List.mem_singleton.mp only]
        rintro rfl
        exact moved.kind_ne member rfl (eq_associationSetEnd listed named).1
      · rw [List.mem_singleton.mp only]
        rwa [List.inj_on_of_nodup_map read.roles there inside role]
    have kind : (row.map f).node.kind = row.node.kind := revised.sameKind row.node
    obtain ⟨later, there, rule, text⟩ :=
      (read_after revised member).exists_reference (kind.symm ▸ listed)
    refine ⟨later, there, rule, ?_⟩
    have unchanged : (reference.texts before.options.listSeparator).map
        (before.retexted id name row reference.rule) =
          reference.texts before.options.listSeparator := by
      refine (List.map_congr_left fun text listed => if_neg fun isTarget => leads ?_).trans
        (List.map_id _)
      exact List.mem_filterMap.mpr ⟨_, moved.mem_slots member inside listed, isTarget⟩
    rw [unchanged]
    unfold Reference.texts
    rw [rule, text, show (row.map f).node.head.attribute? reference.rule.role = _ from same, held]

omit member inside in
/-- A text is written after the renaming just where one was. -/
theorem isEmpty_retexted {text : String}
    (listed : text ∈ reference.texts before.options.listSeparator) :
    (before.retexted id name row reference.rule text).isEmpty = text.isEmpty := by
  have coherent := moved.revised.earlier.coherent
  unfold retexted
  split
  · next leads =>
    obtain ⟨written, _⟩ := Catalog.target_of_readSlot coherent.numbered coherent.exact rfl leads
    rw [written, ← Bool.not_eq_true, String.isEmpty_iff]
    exact replaceLastPart_ne_empty (Reference.trimmed_of_mem_texts listed)
      (Text.isPart_of_isIdentifier moved.suits.identifier)
  · rfl

/-- **What becomes of the first text**, with which others are read. -/
theorem firstText?_after : (f row.node).firstText? before.options.listSeparator reference.role =
    (row.node.firstText? before.options.listSeparator reference.role).map
      (before.retexted id name row reference.rule) := by
  have revised := moved.revised
  obtain ⟨later, there, rule, texts⟩ := moved.exists_texts member inside
  have role : later.role = reference.role := congrArg ReferenceRule.role rule
  rw [(revised.earlier.read revised.idle member).firstText?_of_mem _ inside, ← role]
  refine ((read_after revised member).firstText?_of_mem _ there).trans ?_
  rw [texts, List.find?_map, ← List.head?_filter, ← List.head?_filter]
  congr 2
  refine List.filter_congr fun text listed => ?_
  rw [Function.comp_apply, moved.isEmpty_retexted listed]

/-- A text that stands for another node stays as it is. -/
theorem retexted_of_ne {text : String} {target : Row} (there : target ∈ before.catalog.rows)
    (other : target.id ≠ id) (expected : target.node.kind ∈ reference.rule.expected)
    (reads : target.node.declared? =
      some ((before.scopeAt row reference.rule.reading).read text)) :
    before.retexted id name row reference.rule text = text := by
  have earlier := moved.revised.earlier
  have rule := ((earlier.read moved.revised.idle member).of_mem inside).1
  refine if_neg fun leads => other ?_
  obtain ⟨_, _, found, declares, fits, same⟩ := Catalog.target_of_readSlot
    earlier.coherent.numbered earlier.coherent.exact (Catalog.readName_scope ..) leads
  obtain ⟨live, declared⟩ := Catalog.mem_declaring.mp declares
  rw [Candidate.fits, Bool.and_eq_true, List.contains_iff_mem, expected_eq rule expected,
    List.mem_singleton] at fits
  rw [moved.eq_of_symbol live same there fits.2.symm]
  · exact same
  · exact (Node.declared?_eq_some_iff.mp reads).1.trans
      (Node.declared?_eq_some_iff.mp declared).1.symm

/-- **A text that stood for a node stands for it again**, if its scope moves with the holder of the
node. -/
theorem tracks {text : String} (listed : text ∈ reference.texts before.options.listSeparator)
    (moves : ∀ holder, reference.rule.reading.holder? = some holder →
      ScopeMoves f before after row reference.rule.reading holder) {target : Row}
    (there : target ∈ before.catalog.rows) (expected : target.node.kind ∈ reference.rule.expected)
    (counts : before.Counts target)
    (reads : target.node.declared? =
      some ((before.scopeAt row reference.rule.reading).read text)) :
    (f target.node).declared? = some ((after.scopeAt (row.map f) reference.rule.reading).read
      (before.retexted id name row reference.rule text)) := by
  have revised := moved.revised
  have rule := ((revised.earlier.read revised.idle member).of_mem inside).1
  have trimmed := Reference.trimmed_of_mem_texts listed
  have kept := moved.mem_slots member inside listed
  have symbol := Catalog.symbol_readSlot before.catalog before.options.listSeparator (some row)
    reference.rule text
  by_cases number : target.id = id
  · -- the text leads to the renamed node, and gets its name
    have leads := moved.leads_of_symbol there number member inside expected kept
      (by rw [symbol, (Node.declared?_eq_some_iff.mp reads).1]; rfl)
    have ended := moved.ends.ended member inside kept leads
    rw [Catalog.text_readSlot, toList_unwrapType] at ended
    obtain ⟨new, _, declares, readsAfter⟩ := read_retargeted revised moved.suitsAll
      (apart_singleton before id name) there List.mem_cons_self number member inside trimmed ended
        expected reads
    rw [retexted, if_pos leads, declares]
    exact congrArg some readsAfter.symm
  · rw [moved.retexted_of_ne member inside there number expected reads]
    cases held : reference.rule.reading.holder? with
    | none =>
      have plain := restsOn_of_rule_plain rule expected held
      have scope : after.scopeAt (row.map f) reference.rule.reading =
          before.scopeAt row reference.rule.reading :=
        scope_after revised member (moved.spared plain) inside expected
      rw [scope, moved.declared_kept there number (enclosing?_isSome rule expected) plain, reads]
    | some holder =>
      obtain ⟨parent, live, isHolder, _, ⟨scope, own, isMember⟩, scopeAfter, ownAfter, isMemberAfter⟩ :=
        moved.exists_member there (holder?_of_rule rule expected held) counts
      have members := fun (workspace : Workspace) (place : Row) =>
        Catalog.scope_eq_members workspace.catalog workspace.options.listSeparator
          (.ofRow (some place)) held
      have bare := moved.bare_of_slot member inside (by simp [held]) kept
      rw [Catalog.text_readSlot] at bare
      rw [scopeAt, members before row] at reads
      obtain ⟨same, rfl⟩ := isMember.eq trimmed bare reads
      have follows := moves holder held parent live isHolder
        (isMember.holder.trans (congrArg some same.symm))
      obtain rfl := Option.some.inj (isMemberAfter.holder.symm.trans follows)
      obtain rfl : text = ownAfter := by
        have names := moved.name_kept there number counts
        rw [isMember.named, isMemberAfter.named] at names
        exact (Option.some.inj names).symm
      rw [isMemberAfter.declared, scopeAt, members after (row.map f)]
      rfl

end Texts

end Moved

end Workspace

end EntityModel
