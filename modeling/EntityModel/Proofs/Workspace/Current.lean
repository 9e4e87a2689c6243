import EntityModel.Proofs.Workspace.Coherent

/-
**What is up to date while edits wait.**

Edits change written forms and trees, and leave all that is known of the nodes as it was. So between
two commits the symbols and the answers stay those of the last one, which a commit relies on for the
nodes it does not deal with.

* `Resolution.Lasts` — what is kept of a reference goes back to the resolution; a slot that has found
  nothing may be outdated where slots that wait are left alone.
* `UpToDate` — the symbol of a node is the one it declares, its answers and dependencies are those
  of an evaluation.
* `Row.ContentRead` — the content of a node is what is read from its written form.
* `Workspace.Current` — the symbol of every node that is not below a new root is the one it declares
  and what is kept of its references lasts; the node is resolved and read if it is not edited.
* `Current.edit`, `Current.afterRebind` — edits keep this, and so does a new evaluation of a single
  reference.
* `Workspace.Settled` — every node is up to date, resolved and read: what a commit leads to where
  slots that wait are looked at again (`Current.settled`).
-/

namespace EntityModel

/-- The content of the node, answers aside, and its defects are what is read where it stands. -/
def Row.ContentRead (row : Row) : Prop :=
  row.node.content.map Content.written = some (Content.read row.source).1 ∧
    row.node.defects = (Content.read row.source).2

namespace Row.ContentRead

variable {row : Row} (read : row.ContentRead)

include read

theorem exists_content : ∃ content, row.node.content = some content ∧
    content.written = (Content.read row.source).1 :=
  Option.map_eq_some_iff.mp read.1

/-- The name that is known is the one that is written. -/
theorem name : row.node.name = row.node.kind.nameAttribute?.map fun key =>
    Text.trim ((row.node.head.attribute? key).getD "") := by
  obtain ⟨content, same, written⟩ := read.exists_content
  have names : content.name = row.source.name := congrArg Content.name written
  rw [Node.name, same, Option.bind_some, names]
  rfl

end Row.ContentRead

theorem Content.written_read (source : Source) :
    (Content.read source).1.written = (Content.read source).1 := by
  unfold Content.written Content.read Source.references
  simp only [List.map_map]
  rfl

/-! ### What is kept of an evaluation -/

/-- The slot kept is the fresh one, but for one that has found nothing and is left alone. -/
structure Slot.Lasts (rebinds : Bool) (kept fresh : Slot) : Prop where
  text : kept.text = fresh.text
  symbol : kept.symbol = fresh.symbol
  outcome : rebinds = true ∨ kept.isKnown = true → kept.outcome = fresh.outcome

/-- The answer and the dependencies kept for a reference go back to the resolution. -/
structure Resolution.Lasts (rebinds : Bool) (resolution : Resolution) (answer : Option (List Slot))
    (dependencies : Dependencies) : Prop where
  slots : ∃ slots, answer = some slots ∧ List.Forall₂ (Slot.Lasts rebinds) slots resolution.slots
  context : dependencies.context = resolution.dependencies.context
  lookups : dependencies.lookups = resolution.dependencies.lookups

/-- What has just been recorded lasts. -/
theorem Resolution.lasts (rebinds : Bool) (resolution : Resolution) :
    resolution.Lasts rebinds (some resolution.slots) resolution.dependencies :=
  ⟨⟨resolution.slots, rfl, List.forall₂_same.mpr fun _ _ => ⟨rfl, rfl, fun _ => rfl⟩⟩, rfl, rfl⟩

theorem Slot.Lasts.eq {rebinds : Bool} {kept fresh : Slot} (lasts : kept.Lasts rebinds fresh)
    (holds : rebinds = true ∨ kept.isKnown = true) : kept = fresh := by
  rcases kept with ⟨text, symbol, outcome⟩
  obtain rfl := lasts.text
  obtain rfl := lasts.symbol
  obtain rfl := lasts.outcome holds
  rfl

/-- Where slots that wait are looked at again, what lasts is exact. -/
theorem Resolution.Lasts.exact {resolution : Resolution} {answer : Option (List Slot)}
    {dependencies : Dependencies} (lasts : resolution.Lasts true answer dependencies)
    (recorded : Recorded dependencies answer) :
    answer = some resolution.slots ∧ dependencies = resolution.dependencies := by
  obtain ⟨slots, rfl, same⟩ := lasts.slots
  have equal : slots = resolution.slots := by
    refine List.forall₂_eq_eq_eq ▸ same.imp fun kept fresh lasts => lasts.eq (Or.inl rfl)
  obtain ⟨targets, dangling⟩ := recorded
  refine ⟨congrArg some equal, ?_⟩
  rcases dependencies with ⟨_, _, _, _⟩
  rw [equal] at targets dangling
  exact (Dependencies.mk.injEq ..).mpr ⟨targets, lasts.context, dangling, lasts.lookups⟩

namespace Workspace

/-- The symbol of the node is the one it declares, its answers are those of an evaluation. -/
structure UpToDate (workspace : Workspace) (row : Row) : Prop where
  symbol : row.node.symbol = row.declaredSymbol?
  answers : ∀ reference ∈ row.node.references,
    reference.answer = some (workspace.evaluate row.id reference).slots
  dependencies : ∀ reference ∈ row.node.references,
    workspace.ledger.dependencies ⟨row.id, reference.role⟩ =
      (workspace.evaluate row.id reference).dependencies

/-- The node does not stand below a new root. -/
def Standing (workspace : Workspace) (row : Row) : Prop :=
  ∀ root ∈ workspace.current.inserted, root ∉ row.line

/-- What is kept of the reference of the owner lasts. -/
def Lasting (workspace : Workspace) (owner : NodeId) (reference : Reference) : Prop :=
  (workspace.evaluate owner reference).Lasts workspace.options.rebindWaiting reference.answer
    (workspace.ledger.dependencies ⟨owner, reference.role⟩)

/-- All that edits have not touched is as the last commit left it. -/
structure Current (workspace : Workspace) : Prop where
  symbols : ∀ row ∈ workspace.catalog.rows, workspace.Standing row →
    row.node.symbol = row.declaredSymbol?
  lasting : ∀ row ∈ workspace.catalog.rows, workspace.Standing row →
    ∀ reference ∈ row.node.references, workspace.Lasting row.id reference
  resolved : ∀ row ∈ workspace.catalog.rows, workspace.Standing row →
    row.id ∉ workspace.current.edited → row.node.stage = .resolved
  read : ∀ row ∈ workspace.catalog.rows, workspace.Standing row →
    row.id ∉ workspace.current.edited → row.ContentRead

/-- Everything is up to date. -/
structure Settled (workspace : Workspace) : Prop where
  upToDate : ∀ row ∈ workspace.catalog.rows, workspace.UpToDate row
  resolved : ∀ row ∈ workspace.catalog.rows, row.node.stage = .resolved
  read : ∀ row ∈ workspace.catalog.rows, row.ContentRead

/-- **Where no transaction is open and slots that wait are looked at again, everything is up to
date.** -/
theorem Current.settled {workspace : Workspace} (current : workspace.Current)
    (coherent : workspace.Coherent) (rebinds : workspace.options.rebindWaiting = true)
    (closed : workspace.transaction = none) : workspace.Settled := by
  have none : workspace.current = .empty := by
    rw [Workspace.current, closed]
    rfl
  have standing : ∀ row, workspace.Standing row := by
    intro row root planted
    rw [none] at planted
    exact absurd planted List.not_mem_nil
  have unedited : ∀ row : Row, row.id ∉ workspace.current.edited := by
    intro row
    rw [none]
    exact List.not_mem_nil
  have exact : ∀ row ∈ workspace.catalog.rows, ∀ reference ∈ row.node.references,
      reference.answer = some (workspace.evaluate row.id reference).slots ∧
        workspace.ledger.dependencies ⟨row.id, reference.role⟩ =
          (workspace.evaluate row.id reference).dependencies := by
    intro row member reference inside
    have lasts := current.lasting row member (standing row) reference inside
    unfold Lasting at lasts
    rw [rebinds] at lasts
    exact lasts.exact (coherent.recorded row member reference inside)
  exact ⟨fun row member => ⟨current.symbols row member (standing row),
      fun reference inside => (exact row member reference inside).1,
      fun reference inside => (exact row member reference inside).2⟩,
    fun row member => current.resolved row member (standing row) (unedited row),
    fun row member => current.read row member (standing row) (unedited row)⟩

theorem current_ofOptions (options : Options) : (ofOptions options).Current :=
  ⟨fun _ member => absurd member List.not_mem_nil, fun _ member => absurd member List.not_mem_nil,
    fun _ member => absurd member List.not_mem_nil, fun _ member => absurd member List.not_mem_nil⟩

section Edits

variable {workspace : Workspace}

/-- A transaction that grows leaves less to be said. -/
theorem Current.changeTransaction (current : workspace.Current)
    {change : Transaction → Transaction}
    (edited : ∀ {id}, id ∈ workspace.current.edited → id ∈ (change workspace.current).edited)
    (inserted : ∀ {id}, id ∈ workspace.current.inserted → id ∈ (change workspace.current).inserted) :
    (workspace.changeTransaction change).Current := by
  have standing : ∀ {row : Row}, (workspace.changeTransaction change).Standing row →
      workspace.Standing row := fun stands root planted => stands root (inserted planted)
  refine ⟨?_, ?_, ?_, ?_⟩
  · exact fun row member stands => current.symbols row member (standing stands)
  · exact fun row member stands => current.lasting row member (standing stands)
  · exact fun row member stands unedited =>
      current.resolved row member (standing stands) fun inside => unedited (edited inside)
  · exact fun row member stands unedited =>
      current.read row member (standing stands) fun inside => unedited (edited inside)

/-- The content of a node that stays is read from the same source, whatever is written around it. -/
theorem source_of_same {f : Node → Node} (kinds : ∀ node, (f node).kind = node.kind) {row : Row}
    (own : f row.node = row.node) : (row.map f).source = row.source := by
  have parents : Node.kind ∘ f = Node.kind := funext kinds
  unfold Row.source Row.map
  rw [own, List.head?_map, Option.map_map, parents]

/-- What a change that outlines and symbols do not show has to respect: the answers of the nodes, and
all of those that are not edited. -/
theorem Current.of_reworked (current : workspace.Current) (coherent : workspace.Coherent)
    {after : Workspace} {f : Node → Node} (sound : after.Sound)
    (reworked : Catalog.Reworked f workspace.catalog after.catalog) (keeps : KeepsOutline f)
    (symbols : ∀ node, (f node).symbol = node.symbol) (options : after.options = workspace.options)
    (transaction : after.current = workspace.current)
    (lasting : ∀ row ∈ workspace.catalog.rows, workspace.Standing row →
      ∀ reference ∈ (f row.node).references,
        (workspace.evaluate row.id reference).Lasts workspace.options.rebindWaiting reference.answer
          (after.ledger.dependencies ⟨row.id, reference.role⟩))
    (unedited : ∀ row ∈ workspace.catalog.rows, row.id ∉ workspace.current.edited →
      (f row.node).stage = row.node.stage ∧ (row.ContentRead → (row.map f).ContentRead)) :
    after.Current := by
  have standing : ∀ {row : Row}, after.Standing (row.map f) → workspace.Standing row := by
    intro row stands root planted through
    refine stands root (transaction ▸ planted) ?_
    rw [Row.line_map keeps.sameId]
    exact through
  have apart : ∀ {row : Row}, (row.map f).id ∉ after.current.edited →
      row.id ∉ workspace.current.edited := by
    intro row outside inside
    rw [show (row.map f).id = row.id from keeps.sameId row.node, transaction] at outside
    exact outside inside
  refine ⟨?_, ?_, ?_, ?_⟩
  · intro row member stands
    obtain ⟨earlier, before, rfl⟩ := reworked.mem_rows.mp member
    rw [keeps.declaredSymbol?, ← current.symbols earlier before (standing stands)]
    exact symbols earlier.node
  · intro row member stands reference inside
    obtain ⟨earlier, before, rfl⟩ := reworked.mem_rows.mp member
    have number : (earlier.map f).id = earlier.id := keeps.sameId earlier.node
    have evaluates := evaluate_reworked coherent.toSound sound reworked keeps symbols options before
    unfold Lasting
    rw [number, evaluates, options]
    exact lasting earlier before (standing stands) reference inside
  · intro row member stands outside
    obtain ⟨earlier, before, rfl⟩ := reworked.mem_rows.mp member
    exact (unedited earlier before (apart outside)).1.trans
      (current.resolved earlier before (standing stands) (apart outside))
  · intro row member stands outside
    obtain ⟨earlier, before, rfl⟩ := reworked.mem_rows.mp member
    exact (unedited earlier before (apart outside)).2
      (current.read earlier before (standing stands) (apart outside))

theorem Current.rewritten (current : workspace.Current) (coherent : workspace.Coherent)
    {id : NodeId} {change : Node → Node} (rewrites : Rewrites change)
    (editing : id ∈ workspace.current.edited) : (workspace.modify id change).Current := by
  have reworked : Catalog.Reworked (onlyAt id change) workspace.catalog
      (workspace.modify id change).catalog :=
    Catalog.reworked_modify _ rewrites.inPlaceBut id
  have only := rewrites.only id
  have keeps := only.keepsOutline
  have sound : (workspace.modify id change).Sound := (coherent.rewritten rewrites editing).toSound
  refine current.of_reworked coherent sound reworked keeps only.symbol rfl rfl ?_ ?_
  · intro row before stands reference inside
    rw [only.references] at inside
    exact current.lasting row before stands reference inside
  · intro row before outside
    -- a node that is not edited is not the one that is rewritten
    have own : onlyAt id change row.node = row.node :=
      onlyAt_of_ne fun same => outside (show row.node.id ∈ _ from same ▸ editing)
    refine ⟨congrArg Node.stage own, fun read => ?_⟩
    unfold Row.ContentRead
    rw [source_of_same keeps.sameKind own,
      show (row.map (onlyAt id change)).node = row.node from own]
    exact read

theorem Current.grown (current : workspace.Current) (coherent : workspace.Coherent)
    {draft : Tree Draft} {layer : Layer} {upper : List Node} {after : Catalog}
    (grown : Catalog.Grown draft layer upper workspace.catalog after) :
    ({ workspace with catalog := after }.changeTransaction fun transaction =>
      { transaction with
        inserted := transaction.inserted.insert
          (workspace.catalog.plant draft).label.id }).Current := by
  -- a new node stands below the new root
  have old : ∀ {row : Row}, row ∈ after.rows →
      (∀ root ∈ workspace.current.inserted.insert (workspace.catalog.plant draft).label.id,
        root ∉ row.line) → row ∈ workspace.catalog.rows ∧ workspace.Standing row := by
    intro row member stands
    rcases grown.mem_rows.mp member with before | new
    · exact ⟨before, fun root planted =>
        stands root (OrderedSet.mem_insert.mpr (Or.inl planted))⟩
    · obtain ⟨_, _, _, above⟩ := Catalog.fresh_of_rowsBelow new
      exact absurd above (stands _ (OrderedSet.mem_insert.mpr (Or.inr rfl)))
  refine ⟨?_, ?_, ?_, ?_⟩
  · intro row member stands
    obtain ⟨before, standing⟩ := old member stands
    exact current.symbols row before standing
  · intro row member stands reference inside
    obtain ⟨before, standing⟩ := old member stands
    have live : workspace.catalog.contains row.id = true :=
      Catalog.contains_iff.mpr ⟨row, before, rfl⟩
    have evaluates : after.evaluate workspace.options.listSeparator row.id reference =
        workspace.evaluate row.id reference :=
      grown.evaluate coherent.numbered coherent.exact live
    have lasts := current.lasting row before standing reference inside
    unfold Lasting at lasts
    rw [← evaluates] at lasts
    exact lasts
  · intro row member stands unedited
    obtain ⟨before, standing⟩ := old member stands
    exact current.resolved row before standing unedited
  · intro row member stands unedited
    obtain ⟨before, standing⟩ := old member stands
    exact current.read row before standing unedited

/-- **An edit leaves all that it does not touch up to date.** -/
theorem Current.edit (current : workspace.Current) (coherent : workspace.Coherent)
    {fits : Site → Element → Prop} {after : Workspace} (edit : Edit fits workspace after) :
    after.Current := by
  cases edit with
  | «open» closed =>
    have same : workspace.current = .empty := by
      unfold Workspace.current
      rw [closed]
      rfl
    have opened : (workspace.changeTransaction id).Current :=
      current.changeTransaction (fun inside => inside) fun inside => inside
    unfold Workspace.changeTransaction at opened
    rw [id, same] at opened
    exact opened
  | @write id change rewrites =>
    have began : (workspace.changeTransaction fun transaction =>
        { transaction with edited := transaction.edited.insert id }).Current :=
      current.changeTransaction (fun inside => OrderedSet.mem_insert.mpr (Or.inl inside))
        fun inside => inside
    refine began.rewritten (coherent.changeTransaction ?_ (fun inside => inside)
      coherent.unloaded coherent.unloadedBelow) rewrites ?_
    · exact fun inside => OrderedSet.mem_insert.mpr (Or.inl inside)
    · exact OrderedSet.mem_insert.mpr (Or.inr rfl)
  | load uri layer root => exact current.grown coherent (Catalog.grown_addDocument _ uri layer root)
  | insert member fit =>
    exact current.grown coherent (Catalog.grown_insertUnder coherent.numbered member _ _)
  | unload member =>
    exact current.changeTransaction (fun inside => inside) fun inside => inside
  | delete member => exact current.changeTransaction (fun inside => inside) fun inside => inside

theorem Current.edits (current : workspace.Current) (coherent : workspace.Coherent)
    {fits : Site → Element → Prop} {after : Workspace} (edits : Edits fits workspace after) :
    after.Current := by
  induction edits with
  | refl => exact current
  | tail before edit ih => exact ih.edit (coherent.edits before) edit

end Edits

/-! ### A single reference -/

section Rebind

variable {workspace : Workspace}

/-- What is kept of a reference lasts when it, or another one of its node, is evaluated again. -/
theorem lasts_keepSlots (coherent : workspace.Coherent) {row : Row}
    (member : row ∈ workspace.catalog.rows)
    (lasting : ∀ reference ∈ row.node.references, workspace.Lasting row.id reference)
    {id : ReferenceId} {reference : Reference} (owner : row.id = id.owner)
    (found : row.node.reference? id.role = some reference) {kept : Reference}
    (inside : kept ∈ (keepSlots id.role (workspace.evaluate id.owner reference).slots
      row.node).references) :
    (workspace.evaluate row.id kept).Lasts workspace.options.rebindWaiting kept.answer
      ((workspace.applied id (workspace.evaluate id.owner reference)).ledger.dependencies
        ⟨row.id, kept.role⟩) := by
  obtain ⟨original, owned, roles, same⟩ := mem_references_keepSlots inside
  have dependencies := Ledger.dependencies_record workspace.ledger id
    (workspace.evaluate id.owner reference).dependencies ⟨row.id, kept.role⟩
  rw [show (workspace.applied id (workspace.evaluate id.owner reference)).ledger =
    workspace.ledger.record id (workspace.evaluate id.owner reference).dependencies from rfl,
    dependencies, owner, ← roles]
  by_cases role : original.role = id.role
  · -- the roles of a node differ, so this is the reference that is evaluated
    have held : reference ∈ row.node.references := List.mem_of_find?_eq_some found
    have named : reference.role = id.role := by simpa using List.find?_some found
    obtain rfl : original = reference :=
      List.inj_on_of_nodup_map (coherent.roles row member) owned held (role.trans named.symm)
    rw [if_pos role] at same
    rw [role, if_pos rfl, same]
    exact Resolution.lasts _ _
  · rw [if_neg role] at same
    rw [if_neg fun equal => role (congrArg ReferenceId.role equal), same, ← owner]
    exact lasting original owned

/-- **Evaluating a reference again leaves everything else as it was.** -/
theorem Current.afterRebind (current : workspace.Current) (coherent : workspace.Coherent)
    {site : Site} {id : ReferenceId} {reference : Reference} (member : site ∈ workspace.catalog.sites)
    (owner : site.id = id.owner) (ready : site.node.stage.reaches .normalized = true)
    (found : site.node.reference? id.role = some reference) :
    (workspace.applied id (workspace.evaluate id.owner reference)).Current := by
  have sound := (coherent.afterRebind member owner ready found).toSound
  have reworked := reworked_applied workspace id (workspace.evaluate id.owner reference)
  have keeps := keepsOutline_applied id (workspace.evaluate id.owner reference)
  have symbols : ∀ node, (onlyAt id.owner
      (keepSlots id.role (workspace.evaluate id.owner reference).slots) node).symbol =
        node.symbol :=
    keeps_of_cases Node.symbol (onlyAt_cases id.owner _) fun _ => rfl
  refine current.of_reworked coherent sound reworked keeps symbols rfl rfl ?_ ?_
  · intro row before stands kept inside
    have lasting := current.lasting row before stands
    by_cases here : row.node.id = id.owner
    · rw [onlyAt_of_eq here] at inside
      have same : row.node = site.node := by
        rw [coherent.toSound.eq_node member before (here.trans owner.symm)]
        rfl
      exact lasts_keepSlots coherent before lasting here (same ▸ found) inside
    · rw [onlyAt_of_ne here] at inside
      have dependencies := Ledger.dependencies_record workspace.ledger id
        (workspace.evaluate id.owner reference).dependencies ⟨row.id, kept.role⟩
      rw [if_neg fun equal => here (congrArg ReferenceId.owner equal)] at dependencies
      have lasts := lasting kept inside
      unfold Lasting at lasts
      rw [← dependencies] at lasts
      exact lasts
  · intro row before outside
    unfold Row.ContentRead
    rw [((inPlace_keepSlots id.role _).of_cases (onlyAt_cases id.owner _)).source_row]
    show (onlyAt id.owner _ row.node).stage = _ ∧ (_ →
      (onlyAt id.owner _ row.node).content.map Content.written = _ ∧
        (onlyAt id.owner _ row.node).defects = _)
    rcases onlyAt_cases id.owner (keepSlots id.role (workspace.evaluate id.owner reference).slots)
      row.node with same | same
    · rw [same, content_keepSlots]
      exact ⟨rfl, fun read => read⟩
    · rw [same]
      exact ⟨rfl, fun read => read⟩

end Rebind

end Workspace

end EntityModel
