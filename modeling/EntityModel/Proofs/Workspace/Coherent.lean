import EntityModel.Proofs.Catalog.Growth
import EntityModel.Proofs.Workspace.Edits
import EntityModel.Proofs.Workspace.Lifecycle

/-
**What holds of a workspace in every state.**

* `Recorded` — the ledger holds what the answer kept for a reference says.
* `Workspace.Coherent` — a sound workspace in which this is so for every reference, nodes without a
  read content wait in the transaction, and documents to be dropped lose their trees.
* `Coherent.edit`, `Coherent.parsed`, … — edits and the steps in the life of a node keep it. Commits
  are for a module of their own.
-/

namespace EntityModel

/-- What the ledger holds for a reference with the answer: its targets and the symbols it waits
for. -/
def Recorded (dependencies : Dependencies) : Option (List Slot) → Prop
  | none => dependencies = .none
  | some slots =>
    dependencies.targets = .ofList (slots.filterMap Slot.target?) ∧
      dependencies.dangling = .ofList
        ((slots.filter fun slot => !slot.isKnown && !slot.symbol.isEmpty).map Slot.symbol)

theorem recorded_resolution (resolution : Resolution) :
    Recorded resolution.dependencies (some resolution.slots) :=
  ⟨rfl, rfl⟩

/-- Rewriting one node alone is a rewriting. -/
theorem Rewrites.only {change : Node → Node} (rewrites : Rewrites change) (id : NodeId) :
    Rewrites (onlyAt id change) := by
  intro node
  rcases onlyAt_cases id change node with same | same
  · obtain ⟨head, stage, start, kept, changed⟩ := rewrites node
    exact ⟨head, stage, start, kept, same.trans changed⟩
  · exact ⟨node.head, node.stage, ⟨rfl, rfl⟩, Or.inl rfl, same⟩

theorem Rewrites.inPlaceBut {change : Node → Node} (rewrites : Rewrites change) (node : Node) :
    (change node).id = node.id := by
  obtain ⟨head, stage, _, _, same⟩ := rewrites node
  rw [same]

theorem Rewrites.content {change : Node → Node} (rewrites : Rewrites change) (node : Node) :
    (change node).content = node.content := by
  obtain ⟨head, stage, _, _, same⟩ := rewrites node
  rw [same]

theorem Rewrites.references {change : Node → Node} (rewrites : Rewrites change) (node : Node) :
    (change node).references = node.references := by
  rw [Node.references, rewrites.content, Node.references]

theorem Rewrites.symbol {change : Node → Node} (rewrites : Rewrites change) (node : Node) :
    (change node).symbol = node.symbol := by
  obtain ⟨head, stage, _, _, same⟩ := rewrites node
  rw [same]

theorem Rewrites.keepsOutline {change : Node → Node} (rewrites : Rewrites change) :
    KeepsOutline change := by
  intro node
  obtain ⟨head, stage, start, _, same⟩ := rewrites node
  rw [same]
  unfold Node.outline
  simp only [start.tag]

theorem Rewrites.stage {change : Node → Node} (rewrites : Rewrites change) (node : Node) :
    (change node).stage = node.stage ∨ (change node).stage = .unparsed := by
  obtain ⟨head, stage, _, kept, same⟩ := rewrites node
  rw [same]
  exact kept

namespace Workspace

/-- The ledger agrees with the answers kept, and what is not read waits in the transaction. -/
structure Coherent (workspace : Workspace) : Prop extends Sound workspace where
  recorded : ∀ row ∈ workspace.catalog.rows, ∀ reference ∈ row.node.references,
    Recorded (workspace.ledger.dependencies ⟨row.id, reference.role⟩) reference.answer
  /-- Reading a content takes all answers back. -/
  parsed : ∀ row ∈ workspace.catalog.rows, row.node.stage = .parsed →
    ∀ reference ∈ row.node.references, reference.answer = none
  unparsed : ∀ row ∈ workspace.catalog.rows, row.node.stage = .unparsed →
    row.id ∈ workspace.current.edited ∨ ∃ root ∈ workspace.current.inserted, root ∈ row.line
  /-- A document goes with its tree. -/
  unloaded : ∀ heading ∈ workspace.catalog.documents.map Document.heading,
    heading.1 ∈ workspace.current.unloaded → ∀ root, heading.2.2 = some root →
      root ∈ workspace.current.deleted
  unloadedBelow : ∀ id ∈ workspace.current.unloaded, id.number < workspace.catalog.nextDocument

theorem coherent_ofOptions (options : Options) : (ofOptions options).Coherent :=
  ⟨sound_ofOptions options, fun _ member => absurd member List.not_mem_nil,
    fun _ member => absurd member List.not_mem_nil, fun _ member => absurd member List.not_mem_nil,
    fun _ member => absurd member List.not_mem_nil, fun _ member => absurd member List.not_mem_nil⟩

/-! ### Edits -/

section Edits

variable {workspace : Workspace}

/-- Only the transaction changes: it forgets nothing. -/
theorem Coherent.changeTransaction (coherent : workspace.Coherent)
    {change : Transaction → Transaction}
    (edited : ∀ {id}, id ∈ workspace.current.edited → id ∈ (change workspace.current).edited)
    (inserted : ∀ {id}, id ∈ workspace.current.inserted → id ∈ (change workspace.current).inserted)
    (unloaded : ∀ heading ∈ workspace.catalog.documents.map Document.heading,
      heading.1 ∈ (change workspace.current).unloaded → ∀ root, heading.2.2 = some root →
        root ∈ (change workspace.current).deleted)
    (below : ∀ id ∈ (change workspace.current).unloaded,
      id.number < workspace.catalog.nextDocument) :
    (workspace.changeTransaction change).Coherent := by
  refine ⟨⟨coherent.numbered, coherent.exact, coherent.indexed, coherent.roles, coherent.owners,
    coherent.keys⟩, coherent.recorded, coherent.parsed, ?_, unloaded, below⟩
  intro row member unread
  rcases coherent.unparsed row member unread with own | ⟨root, planted, above⟩
  · exact Or.inl (edited own)
  · exact Or.inr ⟨root, inserted planted, above⟩

/-- A written form changes: nothing that is kept has to do with it. -/
theorem Coherent.rewritten (coherent : workspace.Coherent) {id : NodeId} {change : Node → Node}
    (rewrites : Rewrites change) (editing : id ∈ workspace.current.edited) :
    (workspace.modify id change).Coherent := by
  have reworked : Catalog.Reworked (onlyAt id change) workspace.catalog
      (workspace.modify id change).catalog :=
    Catalog.reworked_modify _ rewrites.inPlaceBut id
  have keeps : KeepsOutline (onlyAt id change) := (rewrites.only id).keepsOutline
  have references := (rewrites.only id).references
  have stages : ∀ node : Node, (onlyAt id change node).stage = node.stage ∨
      (node.id = id ∧ (onlyAt id change node).stage = .unparsed) := by
    intro node
    by_cases here : node.id = id
    · rw [onlyAt_of_eq here]
      exact (rewrites.stage node).imp_right fun unread => ⟨here, unread⟩
    · rw [onlyAt_of_ne here]
      exact Or.inl rfl
  refine ⟨⟨reworked.numbered keeps.sameId coherent.numbered,
    Catalog.symbolsExact_modify coherent.exact rewrites.inPlaceBut rewrites.symbol,
    coherent.indexed, roles_reworked reworked keeps coherent.roles, ?_, ?_⟩, ?_, ?_, ?_, ?_, ?_⟩
  · intro reference recorded
    rw [reference?_isSome_reworked reworked keeps]
    exact coherent.owners reference recorded
  · intro reference node depends
    rw [reworked.contains keeps.sameId]
    exact coherent.keys depends
  · intro row member reference inside
    obtain ⟨earlier, before, rfl⟩ := reworked.mem_rows.mp member
    rw [show (earlier.map (onlyAt id change)).node = onlyAt id change earlier.node from rfl,
      references] at inside
    rw [show (earlier.map (onlyAt id change)).id = earlier.id from keeps.sameId earlier.node]
    exact coherent.recorded earlier before reference inside
  · intro row member read reference inside
    obtain ⟨earlier, before, rfl⟩ := reworked.mem_rows.mp member
    rw [show (earlier.map (onlyAt id change)).node = onlyAt id change earlier.node from rfl,
      references] at inside
    rcases stages earlier.node with same | ⟨_, unread⟩
    · exact coherent.parsed earlier before (same.symm.trans read) reference inside
    · exact absurd (unread.symm.trans read) (by decide)
  · intro row member unread
    obtain ⟨earlier, before, rfl, line⟩ := reworked.line_mem keeps.sameId member
    rw [line, show (earlier.map (onlyAt id change)).id = earlier.id from keeps.sameId earlier.node]
    rcases stages earlier.node with same | ⟨here, _⟩
    · exact coherent.unparsed earlier before (same.symm.trans unread)
    · exact Or.inl (show earlier.node.id ∈ workspace.current.edited from here ▸ editing)
  · rw [reworked.headings]
    exact coherent.unloaded
  · rw [reworked.nextDocument]
    exact coherent.unloadedBelow

section Grown

variable {draft : Tree Draft} {layer : Layer} {upper : List Node} {after : Catalog}

/-- A tree is planted: its nodes have nothing yet that the indexes would have to know. -/
theorem Sound.grown (sound : workspace.Sound)
    (grown : Catalog.Grown draft layer upper workspace.catalog after)
    (change : Transaction → Transaction) :
    ({ workspace with catalog := after }.changeTransaction change).Sound := by
  have numbered := grown.numbered_after sound.numbered
  refine ⟨numbered, grown.symbolsExact sound.numbered sound.exact, sound.indexed, ?_, ?_, ?_⟩
  · intro row member
    rcases grown.mem_rows.mp member with old | new
    · exact sound.roles row old
    · obtain ⟨⟨number, form, same⟩, _⟩ := Catalog.fresh_of_rowsBelow new
      rw [same]
      exact List.nodup_nil
  · intro id recorded
    have found := sound.owners id recorded
    unfold reference? at found ⊢
    cases held : workspace.catalog.node? id.owner with
    | none =>
      rw [held] at found
      exact nomatch found
    | some node =>
      rw [held] at found
      show ((after.node? id.owner).bind _).isSome = true
      rw [grown.node?_of_old sound.numbered held]
      exact found
  · intro id node depends
    exact grown.contains_of_old sound.numbered (sound.keys depends)

/-- A tree is planted. -/
theorem Coherent.grown (coherent : workspace.Coherent)
    (grown : Catalog.Grown draft layer upper workspace.catalog after) :
    ({ workspace with catalog := after }.changeTransaction fun transaction =>
      { transaction with
        inserted := transaction.inserted.insert
          (workspace.catalog.plant draft).label.id }).Coherent := by
  refine ⟨coherent.toSound.grown grown _, ?_, ?_, ?_, ?_, ?_⟩
  · intro row member reference inside
    rcases grown.mem_rows.mp member with old | new
    · exact coherent.recorded row old reference inside
    · obtain ⟨⟨number, form, same⟩, _⟩ := Catalog.fresh_of_rowsBelow new
      rw [same] at inside
      exact absurd inside List.not_mem_nil
  · intro row member read
    rcases grown.mem_rows.mp member with old | new
    · exact coherent.parsed row old read
    · obtain ⟨⟨number, form, same⟩, _⟩ := Catalog.fresh_of_rowsBelow new
      rw [same] at read
      exact nomatch read
  · intro row member unread
    rcases grown.mem_rows.mp member with old | new
    · rcases coherent.unparsed row old unread with own | ⟨root, planted, above⟩
      · exact Or.inl own
      · exact Or.inr ⟨root, OrderedSet.mem_insert.mpr (Or.inl planted), above⟩
    · obtain ⟨_, _, _, above⟩ := Catalog.fresh_of_rowsBelow new
      exact Or.inr ⟨_, OrderedSet.mem_insert.mpr (Or.inr rfl), above⟩
  · intro heading member dropped
    rcases grown.documents with ⟨headings, _⟩ | ⟨headings, _⟩
    · exact coherent.unloaded heading (headings ▸ member) dropped
    · have listed : heading ∈ after.documents.map Document.heading := member
      rw [headings] at listed
      rcases List.mem_append.mp listed with old | new
      · exact coherent.unloaded heading old dropped
      · obtain rfl := List.mem_singleton.mp new
        exact absurd (coherent.unloadedBelow _ dropped) (Nat.lt_irrefl _)
  · intro id dropped
    obtain ⟨count, next, _⟩ := grown.documentIds
    show id.number < after.nextDocument
    rw [next]
    exact Nat.lt_of_lt_of_le (coherent.unloadedBelow id dropped) (Nat.le_add_right _ _)

end Grown

/-- **An edit keeps a workspace coherent.** -/
theorem Coherent.edit (coherent : workspace.Coherent) {fits : Site → Element → Prop}
    {after : Workspace} (edit : Edit fits workspace after) : after.Coherent := by
  cases edit with
  | «open» closed =>
    have same : workspace.current = .empty := by
      unfold current
      rw [closed]
      rfl
    have opened : (workspace.changeTransaction id).Coherent :=
      coherent.changeTransaction (fun inside => inside) (fun inside => inside)
        coherent.unloaded coherent.unloadedBelow
    unfold Workspace.changeTransaction at opened
    rw [id, same] at opened
    exact opened
  | write rewrites =>
    refine Coherent.rewritten (coherent.changeTransaction ?_ (fun inside => inside)
      coherent.unloaded coherent.unloadedBelow) rewrites ?_
    · exact fun inside => OrderedSet.mem_insert.mpr (Or.inl inside)
    · exact OrderedSet.mem_insert.mpr (Or.inr rfl)
  | load uri layer root => exact coherent.grown (Catalog.grown_addDocument _ uri layer root)
  | insert member fit => exact coherent.grown (Catalog.grown_insertUnder coherent.numbered member _ _)
  | @unload document member =>
    refine coherent.changeTransaction (fun inside => inside) (fun inside => inside) ?_ ?_
    · intro heading listed dropped root rooted
      rw [OrderedSet.mem_insertAll]
      rcases List.mem_append.mp dropped with earlier | now
      · exact Or.inl (coherent.unloaded heading listed earlier root rooted)
      · obtain ⟨other, inside, rfl⟩ := List.mem_map.mp listed
        have number : other.id = document.id := List.mem_singleton.mp now
        obtain rfl : other = document :=
          List.inj_on_of_nodup_map coherent.numbered.documentsUnique inside member number
        exact Or.inr (Option.mem_toList.mpr rooted)
    · intro id dropped
      rcases List.mem_append.mp dropped with earlier | now
      · exact coherent.unloadedBelow id earlier
      · obtain rfl := List.mem_singleton.mp now
        exact coherent.numbered.documentsBelow document member
  | delete member =>
    refine coherent.changeTransaction (fun inside => inside) (fun inside => inside) ?_
      coherent.unloadedBelow
    intro heading listed dropped root rooted
    exact OrderedSet.mem_insert.mpr (Or.inl (coherent.unloaded heading listed dropped root rooted))

theorem Coherent.edits (coherent : workspace.Coherent) {fits : Site → Element → Prop}
    {after : Workspace} (edits : Edits fits workspace after) : after.Coherent := by
  induction edits with
  | refl => exact coherent
  | tail _ edit ih => exact ih.edit edit

end Edits

/-! ### Steps in the life of a node -/

section Steps

variable {workspace : Workspace}

/-- What a change of one node has to respect: the node's own references and its stage. The rest of
the workspace is as it was. -/
theorem Coherent.of_reworked (coherent : workspace.Coherent) {after : Workspace} {id : NodeId}
    {change : Node → Node} (sound : after.Sound)
    (reworked : Catalog.Reworked (onlyAt id change) workspace.catalog after.catalog)
    (keeps : ∀ node, (change node).id = node.id)
    (transaction : after.transaction = workspace.transaction)
    (others : ∀ {reference : ReferenceId}, reference.owner ≠ id →
      after.ledger.dependencies reference = workspace.ledger.dependencies reference)
    (recorded : ∀ row ∈ workspace.catalog.rows, row.id = id →
      ∀ reference ∈ (change row.node).references,
        Recorded (after.ledger.dependencies ⟨id, reference.role⟩) reference.answer)
    (parsed : ∀ row ∈ workspace.catalog.rows, row.id = id → (change row.node).stage = .parsed →
      ∀ reference ∈ (change row.node).references, reference.answer = none)
    (read : ∀ row ∈ workspace.catalog.rows, row.id = id →
      (change row.node).stage ≠ .unparsed) : after.Coherent := by
  have keepsAll := id_onlyAt keeps id
  have current : after.current = workspace.current := by
    unfold Workspace.current
    rw [transaction]
  refine ⟨sound, ?_, ?_, ?_, ?_, ?_⟩
  · intro row member reference inside
    obtain ⟨earlier, before, rfl⟩ := reworked.mem_rows.mp member
    rw [show (earlier.map (onlyAt id change)).node = onlyAt id change earlier.node from rfl]
      at inside
    rw [show (earlier.map (onlyAt id change)).id = earlier.node.id from keepsAll earlier.node]
    by_cases here : earlier.node.id = id
    · rw [onlyAt_of_eq here] at inside
      rw [here]
      exact recorded earlier before here reference inside
    · rw [onlyAt_of_ne here] at inside
      rw [others here]
      exact coherent.recorded earlier before reference inside
  · intro row member stage reference inside
    obtain ⟨earlier, before, rfl⟩ := reworked.mem_rows.mp member
    rw [show (earlier.map (onlyAt id change)).node = onlyAt id change earlier.node from rfl]
      at inside stage
    by_cases here : earlier.node.id = id
    · rw [onlyAt_of_eq here] at inside stage
      exact parsed earlier before here stage reference inside
    · rw [onlyAt_of_ne here] at inside stage
      exact coherent.parsed earlier before stage reference inside
  · intro row member stage
    obtain ⟨earlier, before, rfl, line⟩ := reworked.line_mem keepsAll member
    rw [current, line,
      show (earlier.map (onlyAt id change)).id = earlier.id from keepsAll earlier.node]
    rw [show (earlier.map (onlyAt id change)).node = onlyAt id change earlier.node from rfl] at stage
    by_cases here : earlier.node.id = id
    · rw [onlyAt_of_eq here] at stage
      exact absurd stage (read earlier before here)
    · rw [onlyAt_of_ne here] at stage
      exact coherent.unparsed earlier before stage
  · rw [reworked.headings, current]
    exact coherent.unloaded
  · rw [reworked.nextDocument, current]
    exact coherent.unloadedBelow

theorem answer_of_mem_references {source : Source} {reference : Reference}
    (member : reference ∈ source.references) : reference.answer = none := by
  obtain ⟨rule, _, rfl⟩ := List.mem_map.mp member
  rfl

theorem Coherent.afterParse (coherent : workspace.Coherent) {site : Site}
    (member : site ∈ workspace.catalog.sites) : (workspace.parsed site).Coherent := by
  have dependencies := dependencies_parsed coherent.toSound member
  refine coherent.of_reworked (coherent.toSound.parsed member) (reworked_parsed workspace site)
    (inPlace_read (source site)).sameId rfl ?_ ?_ ?_ ?_
  · intro reference other
    rw [dependencies, if_neg other]
  · intro row _ _ reference inside
    rw [answer_of_mem_references inside, dependencies, if_pos rfl]
    exact rfl
  · exact fun row _ _ _ reference inside => answer_of_mem_references inside
  · exact fun row _ _ stage => nomatch stage

theorem Coherent.afterNormalize (coherent : workspace.Coherent) {site : Site}
    (member : site ∈ workspace.catalog.sites) : (workspace.normalized site).Coherent := by
  refine coherent.of_reworked (coherent.toSound.normalized member)
    (reworked_normalized workspace site) (inPlace_named _).sameId rfl (fun _ => rfl) ?_ ?_ ?_
  · intro row inside here reference listed
    rw [← here]
    exact coherent.recorded row inside reference listed
  · exact fun row _ _ stage => nomatch stage
  · exact fun row _ _ stage => nomatch stage

theorem references_answered (answers : Reference → Resolution) (node : Node) :
    (node.answered answers).references = node.references.map fun reference =>
      { reference with answer := some (answers reference).slots } := by
  unfold Node.references Node.answered
  cases node.content with
  | none => rfl
  | some content => rfl

theorem transaction_appliedAll {owner : NodeId} {answers : Reference → Resolution}
    (references : List Reference) : ∀ workspace : Workspace,
    (workspace.appliedAll owner references answers).transaction = workspace.transaction ∧
      (workspace.appliedAll owner references answers).options = workspace.options := by
  induction references with
  | nil => exact fun _ => ⟨rfl, rfl⟩
  | cons first others ih => exact fun workspace => ih (workspace.applied _ _)

theorem transaction_resolved (workspace : Workspace) (site : Site) :
    (workspace.resolved site).transaction = workspace.transaction :=
  (transaction_appliedAll site.node.references workspace).1

theorem options_resolved (workspace : Workspace) (site : Site) :
    (workspace.resolved site).options = workspace.options :=
  (transaction_appliedAll site.node.references workspace).2

theorem Coherent.afterResolve (coherent : workspace.Coherent) {site : Site}
    (member : site ∈ workspace.catalog.sites) : (workspace.resolved site).Coherent := by
  refine coherent.of_reworked (coherent.toSound.resolved member)
    (reworked_resolved coherent.toSound member) (inPlace_answered _).sameId
    (transaction_resolved workspace site) dependencies_resolved_of_ne ?_ ?_ ?_
  · intro row inside here reference listed
    rw [references_answered, coherent.toSound.eq_node member inside here] at listed
    obtain ⟨original, owned, rfl⟩ := List.mem_map.mp listed
    have dependencies := dependencies_resolved_of_mem coherent.toSound member owned
    show Recorded ((workspace.resolved site).ledger.dependencies ⟨site.id, original.role⟩) _
    rw [dependencies]
    exact recorded_resolution _
  · exact fun row _ _ stage => nomatch stage
  · exact fun row _ _ stage => nomatch stage

theorem mem_references_keepSlots {role : String} {slots : List Slot} {node : Node}
    {reference : Reference} (member : reference ∈ (keepSlots role slots node).references) :
    ∃ original ∈ node.references, original.role = reference.role ∧ reference =
      if original.role = role then { original with answer := some slots } else original := by
  unfold keepSlots Node.references at member
  cases read : node.content with
  | none =>
    rw [read] at member
    exact absurd member List.not_mem_nil
  | some content =>
    rw [read] at member
    obtain ⟨original, inside, rfl⟩ := List.mem_map.mp member
    refine ⟨original, by rw [Node.references, read]; exact inside, ?_, rfl⟩
    split
    · rfl
    · rfl

theorem Coherent.afterRebind (coherent : workspace.Coherent) {site : Site} {id : ReferenceId}
    {reference : Reference} (member : site ∈ workspace.catalog.sites) (owner : site.id = id.owner)
    (ready : site.node.stage.reaches .normalized = true)
    (found : site.node.reference? id.role = some reference) :
    (workspace.applied id (workspace.evaluate id.owner reference)).Coherent := by
  have there : (workspace.reference? id).isSome := by
    rw [reference?, ← owner, coherent.toSound.node?_of_site member, Option.bind_some, found]
    rfl
  have staged : ∀ row ∈ workspace.catalog.rows, row.id = id.owner →
      row.node.stage ≠ .unparsed ∧ row.node.stage ≠ .parsed := by
    intro row inside here
    rw [coherent.toSound.eq_node member inside (here.trans owner.symm)]
    constructor
    · intro stage
      rw [show site.row.node.stage = site.node.stage from rfl] at stage
      rw [stage] at ready
      exact absurd ready (by decide)
    · intro stage
      rw [show site.row.node.stage = site.node.stage from rfl] at stage
      rw [stage] at ready
      exact absurd ready (by decide)
  have sound : (workspace.applied id (workspace.evaluate id.owner reference)).Sound :=
    coherent.toSound.applied there fun depends =>
      Catalog.contains_of_dependency coherent.numbered coherent.exact depends
  refine coherent.of_reworked sound (reworked_applied workspace id _)
    (inPlace_keepSlots _ _).sameId rfl ?_ ?_ ?_ ?_
  · intro other apart
    refine (Ledger.dependencies_record _ _ _ other).trans (if_neg ?_)
    exact fun same => apart (congrArg ReferenceId.owner same)
  · intro row inside here kept listed
    obtain ⟨original, owned, roles, same⟩ := mem_references_keepSlots listed
    have dependencies := Ledger.dependencies_record workspace.ledger id
      (workspace.evaluate id.owner reference).dependencies ⟨id.owner, kept.role⟩
    show Recorded ((workspace.ledger.record id _).dependencies ⟨id.owner, kept.role⟩) kept.answer
    rw [dependencies, ← roles]
    by_cases role : original.role = id.role
    · rw [if_pos role] at same
      rw [role, if_pos rfl, same]
      exact recorded_resolution _
    · rw [if_neg role] at same
      rw [if_neg fun equal => role (congrArg ReferenceId.role equal), same, ← here]
      exact coherent.recorded row inside original owned
  · intro row inside here stage
    exact absurd stage (staged row inside here).2
  · exact fun row inside here => (staged row inside here).1

end Steps

end Workspace

end EntityModel
