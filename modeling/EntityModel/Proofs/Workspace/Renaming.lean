import EntityModel.Proofs.Naming.Retarget
import EntityModel.Proofs.Naming.Surroundings
import EntityModel.Proofs.Resolution.Targets
import EntityModel.Proofs.Workspace.Revised

/-
**What renaming nodes leaves as it was, and what it changes.**

Nodes of a steady workspace are renamed, and the change is committed.

* `mem_renameWrites` — the values written: the names, and the texts of the references that lead to
  the nodes.
* `Spared` — no renamed node is of these kinds; `spares_renaming` — then what is read of the nodes
  around a place stays.
* `name_after`, `symbol_after`, `scope_after` — names, symbols and scopes that stay; `found_after` —
  **what a text leads to stays found**, if no renamed node enters into it.
-/

namespace EntityModel

/-! ### Names that are references -/

section Tables

variable {kind : Kind} {rule : ReferenceRule} (listed : rule ∈ kind.references)

include listed

/-- Only ends of association sets take their name from what is written for a reference. -/
theorem eq_associationSetEnd (named : kind.nameAttribute? = some rule.role) :
    kind = .associationSetEnd ∧ rule.expected = [.associationEnd] := by
  have each : ∀ rule ∈ kind.references, kind.nameAttribute? = some rule.role →
      kind = .associationSetEnd ∧ rule.expected = [.associationEnd] := by
    cases kind <;> decide
  exact each rule listed named

theorem role_ne_alias : rule.role ≠ "Alias" := by
  have each : ∀ rule ∈ kind.references, rule.role ≠ "Alias" := by
    cases kind <;> decide
  exact each rule listed

end Tables

theorem Kind.nameAttribute?_ne_alias (kind : Kind) : kind.nameAttribute? ≠ some "Alias" := by
  cases kind <;> decide

/-- Whatever rests on the ends of association sets rests on the ends of associations. -/
theorem Kind.associationEnd_mem_restsOn {kind : Kind}
    (member : .associationSetEnd ∈ kind.restsOn ∨ kind = .associationSetEnd) :
    .associationEnd ∈ kind.restsOn := by
  revert member
  cases kind <;> decide

namespace Workspace

variable {workspace : Workspace}

/-! ### References -/

theorem Sound.reference?_eq_some_iff (sound : workspace.Sound) {id : ReferenceId}
    {reference : Reference} : workspace.reference? id = some reference ↔
      ∃ row ∈ workspace.catalog.rows, row.id = id.owner ∧ reference ∈ row.node.references ∧
        reference.role = id.role := by
  constructor
  · intro found
    obtain ⟨site, member, owner, inside, role⟩ := exists_site_of_reference found
    exact ⟨site.row, row_of_site member, owner, inside, role⟩
  · rintro ⟨row, member, owner, inside, role⟩
    unfold Workspace.reference?
    rw [← owner, sound.numbered.node?_of_mem member, Option.bind_some, ← role]
    cases found : row.node.reference? reference.role with
    | none => exact absurd (decide_eq_true rfl) (List.find?_eq_none.mp found reference inside)
    | some other =>
      have there := List.mem_of_find?_eq_some found
      have same : other.role = reference.role := by simpa using List.find?_some found
      exact congrArg some (List.inj_on_of_nodup_map (sound.roles row member) there inside same)

/-- The references that lead to a node are the ones the ledger has for it. -/
theorem Coherent.mem_referencers (coherent : workspace.Coherent) {target : NodeId}
    {id : ReferenceId} : id ∈ workspace.ledger.referencers target ↔
      ∃ reference, workspace.reference? id = some reference ∧ target ∈ reference.targets := by
  have targets := coherent.targets_eq id
  rw [Ledger.mem_referencers coherent.indexed, OrderedSet.mem_iff]
  show target ∈ workspace.ledger.targets id ↔ _
  rw [targets, List.mem_eraseDups]
  cases workspace.reference? id with
  | none => simp
  | some reference => simp

/-- The texts that renaming a node writes: those of the references that lead to it, but for owners
that go with the commit. -/
theorem mem_keptTexts (coherent : workspace.Coherent) {id : NodeId} {name : String}
    {change : ReferenceId × String} :
    change ∈ workspace.keptTexts (workspace.retargetedTexts id name) ↔
      ∃ reference, workspace.reference? change.1 = some reference ∧ id ∈ reference.targets ∧
        workspace.isPendingDelete change.1.owner = false ∧
          change.2 = reference.retarget workspace.options.listSeparator id name := by
  unfold keptTexts retargetedTexts
  rw [List.mem_filter, List.mem_filterMap, Bool.not_eq_true']
  constructor
  · rintro ⟨⟨referencer, leads, taken⟩, kept⟩
    obtain ⟨reference, found, rfl⟩ := Option.map_eq_some_iff.mp taken
    obtain ⟨other, same, target⟩ := coherent.mem_referencers.mp leads
    obtain rfl : reference = other := Option.some.inj (found.symm.trans same)
    exact ⟨reference, found, target, kept, rfl⟩
  · rintro ⟨reference, found, target, kept, text⟩
    refine ⟨⟨change.1, coherent.mem_referencers.mpr ⟨reference, found, target⟩, ?_⟩, kept⟩
    rw [found, Option.map_some, ← text]

/-- The values that renaming a node writes where no edits wait. -/
theorem mem_renameWrites (coherent : workspace.Coherent) (idle : workspace.current = .empty)
    {id : NodeId} {name : String} {write : Write} : write ∈ workspace.renameWrites id name ↔
      (∃ row ∈ workspace.catalog.rows, row.id = id ∧
        ∃ key, row.node.kind.nameAttribute? = some key ∧ write = ⟨id, key, name⟩) ∨
      ∃ row ∈ workspace.catalog.rows, ∃ reference ∈ row.node.references, id ∈ reference.targets ∧
        write = ⟨row.id, reference.role,
          reference.retarget workspace.options.listSeparator id name⟩ := by
  unfold renameWrites
  rw [List.mem_append]
  refine or_congr ?_ ?_
  · constructor
    · intro member
      obtain ⟨key, inside, rfl⟩ := List.mem_map.mp member
      obtain ⟨node, found, named⟩ := Option.bind_eq_some_iff.mp (Option.mem_toList.mp inside)
      obtain ⟨row, member, rfl, number⟩ := coherent.numbered.node?_eq_some_iff.mp found
      exact ⟨row, member, number, key, named, rfl⟩
    · rintro ⟨row, member, number, key, named, rfl⟩
      refine List.mem_map.mpr ⟨key, Option.mem_toList.mpr (Option.bind_eq_some_iff.mpr ?_), rfl⟩
      exact ⟨row.node, coherent.numbered.node?_eq_some_iff.mpr ⟨row, member, rfl, number⟩, named⟩
  · constructor
    · intro member
      obtain ⟨change, inside, rfl⟩ := List.mem_map.mp member
      obtain ⟨reference, found, target, _, text⟩ := (mem_keptTexts coherent).mp inside
      obtain ⟨row, member, owner, listed, role⟩ := coherent.reference?_eq_some_iff.mp found
      exact ⟨row, member, reference, listed, target, by rw [Write.ofText, owner, role, text]⟩
    · rintro ⟨row, member, reference, listed, target, rfl⟩
      refine List.mem_map.mpr ⟨(⟨row.id, reference.role⟩, _), (mem_keptTexts coherent).mpr ?_, rfl⟩
      exact ⟨reference, coherent.reference?_eq_some_iff.mpr ⟨row, member, rfl, listed, rfl⟩, target,
        isPendingDelete_of_idle idle _, rfl⟩

/-! ### Slots and targets -/

section Idle

variable (steady : workspace.Steady) (idle : workspace.current = .empty)
  {row : Row} (member : row ∈ workspace.catalog.rows)
  {reference : Reference} (inside : reference ∈ row.node.references)

include steady idle member inside

/-- The slots of a reference one of which is known are those of its texts, and nothing else. -/
theorem Steady.aligned {slot : Slot} (kept : slot ∈ reference.slots) (known : slot.isKnown = true) :
    reference.texts workspace.options.listSeparator ≠ [] ∧ List.Forall₂
      (fun slot text => slot.Lasts workspace.options.rebindWaiting (workspace.catalog.readSlot
        workspace.options.listSeparator (some row) reference.rule text).1)
      reference.slots (reference.texts workspace.options.listSeparator) := by
  obtain ⟨slots, answer, same⟩ := (steady.lasting idle member inside).slots
  have listed : reference.slots = slots := by
    rw [Reference.slots, answer]
    rfl
  rw [← listed] at same
  by_cases absent : reference.texts workspace.options.listSeparator = []
  · unfold Workspace.evaluate at same
    rw [Catalog.evaluate_of_no_texts _ _ absent] at same
    obtain ⟨fresh, only, lasts⟩ := exists_of_forall₂ same kept
    obtain rfl := lasts.eq (Or.inr known)
    rw [List.mem_singleton.mp only] at known
    exact absurd known Bool.false_ne_true
  · refine ⟨absent, ?_⟩
    unfold Workspace.evaluate at same
    rw [Catalog.evaluate_of_texts _ _ absent, steady.coherent.numbered.row?_of_mem member,
      Catalog.gather, List.map_map] at same
    exact List.forall₂_map_right_iff.mp same

/-- Targets are nodes of an expected kind. -/
theorem Steady.exists_target {target : NodeId} (leads : target ∈ reference.targets) :
    ∃ found ∈ workspace.catalog.rows, found.id = target ∧
      found.node.kind ∈ reference.rule.expected := by
  obtain ⟨slot, kept, isTarget⟩ := List.mem_filterMap.mp leads
  have known : slot.isKnown = true := by
    rw [Slot.isKnown, isTarget]
    rfl
  obtain ⟨_, aligned⟩ := steady.aligned idle member inside kept known
  obtain ⟨text, _, lasts⟩ := exists_of_forall₂ aligned kept
  rw [lasts.eq (Or.inr known)] at isTarget
  obtain ⟨_, _, found, declares, fits, number⟩ := Catalog.target_of_readSlot
    steady.coherent.numbered steady.coherent.exact rfl isTarget
  rw [Candidate.fits, Bool.and_eq_true, List.contains_iff_mem] at fits
  exact ⟨found, (Catalog.mem_declaring.mp declares).1, number, fits.2⟩

end Idle

/-! ### What stays -/

/-- No node of the kinds gets a name. -/
def Spared (workspace : Workspace) (names : List (NodeId × String)) (kinds : List Kind) : Prop :=
  ∀ change ∈ names, ∀ row ∈ workspace.catalog.rows, row.id = change.1 → row.node.kind ∉ kinds

section Revised

variable {names : List (NodeId × String)} {f : Node → Node} {before after : Workspace}
  (revised : Revised (before.renamingWrites names) f before after)

include revised

theorem row_after {row : Row} (member : row ∈ before.catalog.rows) :
    row.map f ∈ after.catalog.rows := by
  rw [revised.rows]
  exact List.mem_map_of_mem member

theorem read_after {row : Row} (member : row ∈ before.catalog.rows) :
    (row.map f).ContentRead :=
  revised.later.read revised.idleAfter (row_after revised member)

variable {row : Row} (member : row ∈ before.catalog.rows)

include member

/-- An attribute stays that holds neither the name of a renamed node nor a reference to one. -/
theorem attribute?_after {key : String}
    (unnamed : row.node.kind.nameAttribute? = some key → ∀ change ∈ names, change.1 ≠ row.id)
    (unread : ∀ reference ∈ row.node.references, reference.role = key →
      ∀ change ∈ names, change.1 ∉ reference.targets) :
    (f row.node).head.attribute? key = row.node.head.attribute? key := by
  have steady := revised.earlier
  rw [revised.holds, written_of_absent]
  intro value written
  obtain ⟨change, listed, inside⟩ := List.mem_flatMap.mp written
  rcases (mem_renameWrites steady.coherent revised.idle).mp inside with
    ⟨other, there, number, name, named, same⟩ | ⟨other, there, reference, held, target, same⟩
  · obtain ⟨own, rfl, _⟩ := (Write.mk.injEq ..).mp same
    obtain rfl := steady.coherent.numbered.eq_of_id there member (number.trans own.symm)
    exact absurd own.symm (unnamed named change listed)
  · obtain ⟨own, rfl, _⟩ := (Write.mk.injEq ..).mp same
    obtain rfl := steady.coherent.numbered.eq_of_id there member own.symm
    exact absurd target (unread reference held rfl change listed)

/-- Where no end of an association is renamed, no name of a node is a reference to what is. -/
theorem name_unread (ends : row.node.kind = .associationSetEnd → before.Spared names [.associationEnd]) :
    ∀ reference ∈ row.node.references, row.node.kind.nameAttribute? = some reference.role →
      ∀ change ∈ names, change.1 ∉ reference.targets := by
  have steady := revised.earlier
  intro reference inside named change listed leads
  obtain ⟨isEnd, expected⟩ :=
    eq_associationSetEnd ((steady.read revised.idle member).of_mem inside).1 named
  obtain ⟨found, there, number, fits⟩ := steady.exists_target revised.idle member inside leads
  rw [expected] at fits
  exact ends isEnd change listed found there number fits

/-- The name stays of a node that is not renamed and is not named by a reference to a renamed one. -/
theorem name_after (unnamed : ∀ change ∈ names, change.1 ≠ row.id)
    (unread : ∀ reference ∈ row.node.references, row.node.kind.nameAttribute? = some reference.role →
      ∀ change ∈ names, change.1 ∉ reference.targets) :
    (f row.node).name = row.node.name := by
  have read := revised.earlier.read revised.idle member
  have later := read_after revised member
  have kind : (row.map f).node.kind = row.node.kind := revised.sameKind row.node
  rw [show (f row.node).name = (row.map f).node.name from rfl, later.name, read.name, kind]
  cases named : row.node.kind.nameAttribute? with
  | none => rfl
  | some key =>
    have same : (f row.node).head.attribute? key = row.node.head.attribute? key := by
      refine attribute?_after revised member (fun _ => unnamed) ?_
      rintro reference inside rfl
      exact unread reference inside named
    rw [Option.map_some, Option.map_some, show (row.map f).node.head = (f row.node).head from rfl,
      same]

variable {kind : Kind} (spared : before.Spared names kind.restsOn)

include spared

omit revised member in
theorem spared_ends (set : .associationSetEnd ∈ kind.restsOn ∨ kind = .associationSetEnd) :
    before.Spared names [.associationEnd] := by
  intro change listed other there number isEnd
  refine spared change listed other there number ?_
  rw [List.mem_singleton.mp isEnd]
  exact Kind.associationEnd_mem_restsOn set

/-- **Where no kind is renamed that enters into the symbols of a kind, nodes are spared.** -/
theorem spares_renaming :
    Spares kind.restsOn before.options.listSeparator f row.node := by
  have steady := revised.earlier
  have read := steady.read revised.idle member
  have later := read_after revised member
  have sameKind : (row.map f).node.kind = row.node.kind := revised.sameKind row.node
  refine ⟨sameKind, ?_, ?_, ?_⟩
  · show (row.map f).node.shortName? = _
    by_cases schema : row.node.kind = .schema
    · have same : (f row.node).head.attribute? "Alias" = row.node.head.attribute? "Alias" := by
        refine attribute?_after revised member
          (fun named => absurd named row.node.kind.nameAttribute?_ne_alias) ?_
        exact fun reference inside role => absurd role (role_ne_alias (read.of_mem inside).1)
      rw [later.shortName?_of_schema (sameKind.trans schema), read.shortName?_of_schema schema]
      exact congrArg (Option.filter _) same
    · rw [later.shortName?_of_ne (sameKind ▸ schema), read.shortName?_of_ne schema]
  · intro inside
    refine name_after revised member (fun change listed number => ?_)
      (name_unread revised member fun isEnd => ?_)
    · exact spared change listed row member number.symm inside
    · exact spared_ends spared (Or.inl (isEnd ▸ inside))
  · intro rule listed expected unnamed
    have same : (f row.node).head.attribute? rule.role = row.node.head.attribute? rule.role := by
      refine attribute?_after revised member (fun named => absurd named unnamed) ?_
      rintro reference inside role change renamed leads
      obtain ⟨found, there, number, fits⟩ :=
        steady.exists_target revised.idle member inside leads
      have own : reference.rule = rule :=
        List.inj_on_of_nodup_map (Kind.nodup_roles _) (read.of_mem inside).1 listed role
      exact spared change renamed found there number (expected _ (own ▸ fits))
    show (row.map f).node.firstText? _ _ = _
    rw [later.firstText? _ (sameKind ▸ listed), read.firstText? _ listed]
    exact congrArg (fun text => ((Reference.written rule text).texts _).find? _) same

omit spared in
theorem symbol_eq : (f row.node).symbol = (row.map f).declaredSymbol? :=
  revised.later.symbol revised.idleAfter (row_after revised member)

/-- The symbol stays of a node whose name does, below nodes that are spared. -/
theorem symbol_after {enclosing : List Kind}
    (enclosed : row.node.kind.enclosing? = some enclosing)
    (around : ∀ outer ∈ enclosing, outer ∈ kind.restsOn)
    (sameName : (f row.node).name = row.node.name) :
    (f row.node).symbol = row.node.symbol := by
  have above : ∀ node ∈ row.above,
      Spares kind.restsOn before.options.listSeparator f node := by
    intro node inside
    obtain ⟨upper, there, _⟩ := Catalog.row_of_mem_line member (List.mem_cons_of_mem _ inside)
    exact spares_renaming revised there spared
  rw [symbol_eq revised member, revised.earlier.symbol revised.idle member]
  exact declaredSymbol?_map above enclosed around (revised.sameKind row.node) sameName

/-- **Where no kind is renamed that enters into the reading of a reference, its scope stays.** -/
theorem scope_after {reference : Reference} (inside : reference ∈ row.node.references)
    (expected : kind ∈ reference.rule.expected) :
    after.catalog.scope after.options.listSeparator (.ofRow (some (row.map f)))
        reference.rule.reading =
      before.catalog.scope before.options.listSeparator (.ofRow (some row))
        reference.rule.reading := by
  have steady := revised.earlier
  have listed := ((steady.read revised.idle member).of_mem inside).1
  have rests := restsOn_of_rule listed expected
  have spares : ∀ row ∈ before.catalog.rows,
      Spares kind.restsOn before.options.listSeparator f row.node :=
    fun row member => spares_renaming revised member spared
  rw [revised.options, show some (row.map f) = (some row).map (Row.map f) from rfl,
    Viewpoint.ofRow_map]
  refine Catalog.scope_map (fun node above => ?_) rests (fun node own => ?_) fun mapped => ?_
  · obtain ⟨upper, there, _⟩ := Catalog.row_of_mem_line member (List.mem_cons_of_mem _ above)
    exact spares _ there
  · obtain rfl : row.node = node := Option.some.inj own
    exact ⟨spares row member, kind_of_navigationRole listed⟩
  · rw [mapped] at rests
    refine Catalog.consultEnd_map steady.coherent.numbered steady.coherent.exact
      revised.later.coherent.numbered revised.later.coherent.exact revised.rows spares
      (rests .entityType (by decide)) (rests .schema (by decide)) fun other there isEnd => ?_
    unfold Node.declared?
    rw [symbol_after revised there spared (show _ = some [.schema, .association] by rw [isEnd]; rfl)
      (by simp [rests .schema (by decide), rests .association (by decide)])
      ((spares other there).name (isEnd ▸ rests .associationEnd (by decide)))]

/-- **A text that leads to a node that is not renamed** is found a target for again. -/
theorem found_after {reference : Reference} (inside : reference ∈ row.node.references)
    (expected : kind ∈ reference.rule.expected) {text : String} {target : NodeId}
    (leads : (before.catalog.readSlot before.options.listSeparator (some row) reference.rule
      text).1.target? = some target) (unnamed : ∀ change ∈ names, change.1 ≠ target) :
    ∃ found, (after.catalog.readSlot after.options.listSeparator (some (row.map f)) reference.rule
      text).1.target? = some found := by
  have steady := revised.earlier
  have later := revised.later
  have rule := ((steady.read revised.idle member).of_mem inside).1
  obtain ⟨written, real, declared, declares, fits, rfl⟩ := Catalog.target_of_readSlot
    steady.coherent.numbered steady.coherent.exact (Catalog.readName_scope ..) leads
  obtain ⟨live, isDeclared⟩ := Catalog.mem_declaring.mp declares
  have isKind : declared.node.kind = kind := by
    rw [Candidate.fits, Bool.and_eq_true, List.contains_iff_mem, expected_eq rule expected,
      List.mem_singleton] at fits
    exact fits.2
  obtain ⟨enclosing, enclosed⟩ := Option.isSome_iff_exists.mp (enclosing?_isSome rule expected)
  have sameName : (f declared.node).name = declared.node.name :=
    name_after revised live unnamed
      (name_unread revised live fun isEnd => spared_ends spared (Or.inr (isKind ▸ isEnd)))
  have same := symbol_after revised live spared (isKind.symm ▸ enclosed)
    (Kind.restsOn_of_enclosing enclosed) sameName
  have declaring := Catalog.mem_declaring.mpr ⟨row_after revised live,
    (show (declared.map f).node.declared? = declared.node.declared? from
      congrArg (Option.filter _) same).trans isDeclared⟩
  have candidate : (declared.map f).candidate = declared.candidate :=
    (Candidate.mk.injEq ..).mpr ⟨revised.sameId _, revised.sameKind _, rfl⟩
  refine Catalog.exists_target_readSlot later.coherent.numbered later.coherent.exact ?_ written real
    declaring (candidate ▸ fits)
  rw [Catalog.readName_scope, scope_after revised member spared inside expected]

end Revised

end Workspace

end EntityModel
