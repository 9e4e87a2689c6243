import EntityModel.Proofs.Catalog.Changes
import EntityModel.Proofs.Ledger.Dependencies
import EntityModel.Proofs.Resolution.Targets

/-
**What the steps in the life of a node do.**

Every step changes one node in place and, if it has to do with references, the dependencies recorded
for the references of that node.

* `Workspace.Sound` — the numbering holds, the symbol index and the relations of the ledger are
  exact, and the ledger speaks of references and nodes that are there.
* `reworked_parsed`, `dependencies_parsed`, `Sound.parsed` — reading a content; likewise for
  `normalized`, `applied` and `resolved`.
-/

namespace EntityModel

/-! ### The steps as changes of one node -/

namespace Node

/-- The node with its content read. -/
def read (source : Source) (node : Node) : Node :=
  { node with
    content := some (Content.read source).1
    defects := (Content.read source).2
    symbol := none
    stage := .parsed }

/-- The node with its symbol formed. -/
def named (symbol : Option Symbol) (node : Node) : Node :=
  { node with symbol, stage := .normalized }

/-- The node with all its references answered. -/
def answered (answers : Reference → Resolution) (node : Node) : Node :=
  { node with
    content := node.content.map fun content =>
      { content with
        references := content.references.map fun reference =>
          { reference with answer := some (answers reference).slots } }
    stage := .resolved }

/-- The node at a stage. -/
def atStage (stage : Stage) (node : Node) : Node :=
  { node with stage }

end Node

theorem inPlace_atStage (stage : Stage) : InPlace (Node.atStage stage) :=
  ⟨fun _ => rfl, fun _ => rfl, fun _ => rfl, fun _ => rfl⟩

theorem keepsOutline_atStage (stage : Stage) : KeepsOutline (Node.atStage stage) :=
  fun _ => rfl

theorem inPlace_read (source : Source) : InPlace (Node.read source) :=
  ⟨fun _ => rfl, fun _ => rfl, fun _ => rfl, fun _ => rfl⟩

theorem inPlace_named (symbol : Option Symbol) : InPlace (Node.named symbol) :=
  ⟨fun _ => rfl, fun _ => rfl, fun _ => rfl, fun _ => rfl⟩

theorem inPlace_answered (answers : Reference → Resolution) : InPlace (Node.answered answers) :=
  ⟨fun _ => rfl, fun _ => rfl, fun _ => rfl, fun _ => rfl⟩

theorem inPlace_keepSlots (role : String) (slots : List Slot) :
    InPlace (Workspace.keepSlots role slots) :=
  ⟨fun _ => rfl, fun _ => rfl, fun _ => rfl, fun _ => rfl⟩

theorem keepsOutline_named (symbol : Option Symbol) : KeepsOutline (Node.named symbol) :=
  fun _ => rfl

/-- Answers are not seen in outlines. -/
theorem outline_answers {node : Node} {f : Reference → Reference}
    (written : ∀ reference, (f reference).rule = reference.rule ∧
      (f reference).text = reference.text) :
    (node.content.map fun content =>
        { content with references := content.references.map f }).map Content.written =
      node.content.map Content.written := by
  rw [Option.map_map]
  congr 1
  funext content
  simp [Content.written, (written _).1, (written _).2, Function.comp_def]

theorem keepsOutline_answered (answers : Reference → Resolution) :
    KeepsOutline (Node.answered answers) := by
  intro node
  unfold Node.outline Node.answered
  simp only
  rw [outline_answers]
  exact fun reference => ⟨rfl, rfl⟩

theorem content_keepSlots (role : String) (slots : List Slot) (node : Node) :
    (Workspace.keepSlots role slots node).content.map Content.written =
      node.content.map Content.written := by
  unfold Workspace.keepSlots
  rw [outline_answers]
  intro reference
  split
  · exact ⟨rfl, rfl⟩
  · exact ⟨rfl, rfl⟩

theorem keepsOutline_keepSlots (role : String) (slots : List Slot) :
    KeepsOutline (Workspace.keepSlots role slots) := by
  intro node
  unfold Node.outline
  rw [content_keepSlots]
  rfl

theorem KeepsOutline.references {f : Node → Node} (keeps : KeepsOutline f) (node : Node) :
    (f node).references.map (fun reference => Reference.written reference.rule reference.text) =
      node.references.map fun reference => .written reference.rule reference.text := by
  have read := congrArg Node.references (keeps node)
  rw [Node.references_outline, Node.references_outline] at read
  exact read

theorem KeepsOutline.roles {f : Node → Node} (keeps : KeepsOutline f) (node : Node) :
    (f node).references.map Reference.role = node.references.map Reference.role := by
  have read := congrArg (List.map Reference.role) (keeps.references node)
  rw [List.map_map, List.map_map] at read
  exact read

theorem KeepsOutline.reference?_isSome {f : Node → Node} (keeps : KeepsOutline f) (node : Node)
    (role : String) : ((f node).reference? role).isSome = (node.reference? role).isSome := by
  have read := congrArg (fun node => (Node.reference? node role).isSome) (keeps node)
  simpa only [Node.reference?_outline, Option.isSome_map] using read

/-- The references of a kind have different roles. -/
theorem Kind.nodup_roles (kind : Kind) : (kind.references.map ReferenceRule.role).Nodup := by
  cases kind <;> decide

theorem Source.map_role_references (source : Source) :
    source.references.map Reference.role = source.kind.references.map ReferenceRule.role := by
  unfold Source.references
  rw [List.map_map]
  rfl

theorem Node.mem_referenceIds {node : Node} {id : ReferenceId} :
    id ∈ node.referenceIds ↔ id.owner = node.id ∧ (node.reference? id.role).isSome := by
  rcases id with ⟨owner, role⟩
  unfold referenceIds reference?
  rw [List.find?_isSome, List.mem_map]
  simp only [ReferenceId.mk.injEq, decide_eq_true_eq]
  constructor
  · rintro ⟨reference, member, rfl, rfl⟩
    exact ⟨rfl, reference, member, rfl⟩
  · rintro ⟨rfl, reference, member, rfl⟩
    exact ⟨reference, member, rfl, rfl⟩

namespace Workspace

/-! ### What always holds -/

/-- Numbers, index and ledger are in order. Whether the answers kept are up to date is not said. -/
structure Sound (workspace : Workspace) : Prop where
  numbered : workspace.catalog.Numbered
  exact : workspace.catalog.SymbolsExact
  indexed : workspace.ledger.Indexed
  /-- The references of a node differ in their roles. -/
  roles : ∀ row ∈ workspace.catalog.rows, (row.node.references.map Reference.role).Nodup
  /-- Dependencies are recorded for references of nodes that are there. -/
  owners : ∀ id, workspace.ledger.dependencies id ≠ .none → (workspace.reference? id).isSome
  /-- References rest on nodes that are there. -/
  keys : ∀ {id node}, node ∈ (workspace.ledger.dependencies id).targets ∨
    node ∈ (workspace.ledger.dependencies id).context → workspace.catalog.contains node

theorem sound_ofOptions (options : Options) : (ofOptions options).Sound :=
  ⟨Catalog.numbered_empty, Catalog.symbolsExact_empty, Ledger.indexed_empty,
    fun _ member => absurd member List.not_mem_nil, fun _ some => absurd rfl some,
    fun either => (either.elim (fun member => absurd member List.not_mem_nil)
      fun member => absurd member List.not_mem_nil)⟩

/-- A live place, and the row it has. -/
theorem row_of_site {workspace : Workspace} {site : Site} (member : site ∈ workspace.catalog.sites) :
    site.row ∈ workspace.catalog.rows :=
  Catalog.row_mem_rows member

/-- A reference that is found is held by a node that is there, under its role. -/
theorem exists_site_of_reference {workspace : Workspace} {id : ReferenceId} {reference : Reference}
    (found : workspace.reference? id = some reference) :
    ∃ site ∈ workspace.catalog.sites, site.id = id.owner ∧
      reference ∈ site.node.references ∧ reference.role = id.role := by
  obtain ⟨node, held, named⟩ := Option.bind_eq_some_iff.mp found
  obtain ⟨site, located, rfl⟩ := Option.map_eq_some_iff.mp held
  obtain ⟨member, owner⟩ := Catalog.mem_sites_of_site? located
  exact ⟨site, member, owner, List.mem_of_find?_eq_some named,
    by simpa using List.find?_some named⟩

namespace Sound

variable {workspace : Workspace} (sound : workspace.Sound)

include sound

theorem node?_of_site {site : Site} (member : site ∈ workspace.catalog.sites) :
    workspace.catalog.node? site.id = some site.node :=
  sound.numbered.node?_of_mem (row_of_site member)

/-- The node of a site is the only one with its number. -/
theorem eq_node {site : Site} (member : site ∈ workspace.catalog.sites) {row : Row}
    (inside : row ∈ workspace.catalog.rows) (same : row.node.id = site.id) : row = site.row :=
  sound.numbered.eq_of_id inside (row_of_site member) same

/-- Dependencies are recorded for nodes that are there. -/
theorem contains_owner {id : ReferenceId} (recorded : workspace.ledger.dependencies id ≠ .none) :
    workspace.catalog.contains id.owner = true := by
  obtain ⟨reference, found⟩ := Option.isSome_iff_exists.mp (sound.owners id recorded)
  obtain ⟨site, member, owner, _⟩ := exists_site_of_reference found
  exact Catalog.contains_iff.mpr ⟨site.row, row_of_site member, owner⟩

theorem contains_of_symbol {symbol : Symbol} {id : NodeId}
    (related : (symbol, id) ∈ workspace.catalog.symbols) :
    workspace.catalog.contains id = true := by
  obtain ⟨node, found, _⟩ := Option.bind_eq_some_iff.mp ((sound.exact symbol id).mp related)
  obtain ⟨row, member, _, number⟩ := sound.numbered.node?_eq_some_iff.mp found
  exact Catalog.contains_iff.mpr ⟨row, member, number⟩

theorem dependencies_of_other {site : Site} (member : site ∈ workspace.catalog.sites)
    {id : ReferenceId} (owner : id.owner = site.id) (other : id ∉ site.node.referenceIds) :
    workspace.ledger.dependencies id = .none := by
  by_contra recorded
  have found := sound.owners id recorded
  rw [reference?, owner, sound.node?_of_site member] at found
  exact other (Node.mem_referenceIds.mpr ⟨owner, found⟩)

end Sound

/-! ### Reading the content -/

section Parsed

variable {workspace : Workspace} {site : Site}

theorem reworked_parsed (workspace : Workspace) (site : Site) :
    Catalog.Reworked (onlyAt site.id (Node.read (source site))) workspace.catalog
      (workspace.parsed site).catalog :=
  (Catalog.reworked_withdrawSymbol workspace.catalog site.node).trans
    (Catalog.reworked_modify _ (inPlace_read (source site)).sameId site.id)

theorem dependencies_parsed (sound : workspace.Sound) (member : site ∈ workspace.catalog.sites)
    (id : ReferenceId) : (workspace.parsed site).ledger.dependencies id =
      if id.owner = site.id then .none else workspace.ledger.dependencies id := by
  show (site.node.referenceIds.foldl Ledger.forget workspace.ledger).dependencies id = _
  rw [Ledger.dependencies_forgetAll]
  by_cases owner : id.owner = site.id
  · rw [if_pos owner]
    split
    · rfl
    · exact sound.dependencies_of_other member owner (by assumption)
  · rw [if_neg owner, if_neg fun inside => owner (Node.mem_referenceIds.mp inside).1]

theorem Sound.parsed (sound : workspace.Sound) (member : site ∈ workspace.catalog.sites) :
    (workspace.parsed site).Sound := by
  have reworked := reworked_parsed workspace site
  have keeps := id_onlyAt (inPlace_read (source site)).sameId site.id
  have nodes := reworked.node?_onlyAt (inPlace_read (source site)).sameId
  have dependencies := dependencies_parsed sound member
  refine ⟨reworked.numbered keeps sound.numbered, ?_, sound.indexed.forgetAll _, ?_, ?_, ?_⟩
  · intro symbol id
    have index : (symbol, id) ∈ (workspace.parsed site).catalog.symbols ↔
        (symbol, id) ∈ workspace.catalog.symbols ∧ id ≠ site.id := by
      refine Catalog.mem_withdrawSymbol fun other inside => ?_
      have declared := (sound.exact other site.id).mp inside
      rw [sound.node?_of_site member] at declared
      exact (Node.declared?_eq_some_iff.mp declared).1
    rw [index, sound.exact, nodes]
    by_cases here : id = site.id
    · rw [if_pos here, here, sound.node?_of_site member]
      simp [Node.read, Node.declared?]
    · rw [if_neg here]
      exact and_iff_left here
  · intro row inside
    obtain ⟨earlier, before, rfl⟩ := reworked.mem_rows.mp inside
    show ((onlyAt site.id (Node.read (source site)) earlier.node).references.map _).Nodup
    rcases onlyAt_cases site.id (Node.read (source site)) earlier.node with same | same
    · rw [same]
      show ((source site).references.map Reference.role).Nodup
      rw [Source.map_role_references]
      exact Kind.nodup_roles _
    · rw [same]
      exact sound.roles earlier before
  · intro id recorded
    rw [dependencies] at recorded
    by_cases owner : id.owner = site.id
    · rw [if_pos owner] at recorded
      exact absurd rfl recorded
    · rw [if_neg owner] at recorded
      have found := sound.owners id recorded
      unfold reference? at found ⊢
      rw [nodes, if_neg owner]
      exact found
  · intro id node depends
    rw [dependencies] at depends
    rw [reworked.contains keeps]
    by_cases owner : id.owner = site.id
    · rw [if_pos owner] at depends
      exact (depends.elim (fun inside => absurd inside List.not_mem_nil)
        fun inside => absurd inside List.not_mem_nil)
    · rw [if_neg owner] at depends
      exact sound.keys depends

end Parsed

/-! ### Forming the symbol -/

section Normalized

variable {workspace : Workspace} {site : Site}

theorem reworked_normalized (workspace : Workspace) (site : Site) :
    Catalog.Reworked (onlyAt site.id (Node.named site.declaredSymbol?)) workspace.catalog
      (workspace.normalized site).catalog :=
  (Catalog.reworked_replaceSymbol workspace.catalog site.id site.node.symbol
      site.declaredSymbol?).trans
    (Catalog.reworked_modify _ (inPlace_named _).sameId site.id)

/-- Changes that outlines do not show keep the references that there are. -/
theorem reference?_isSome_reworked {before after : Workspace} {f : Node → Node}
    (reworked : Catalog.Reworked f before.catalog after.catalog) (keeps : KeepsOutline f)
    (id : ReferenceId) : (after.reference? id).isSome = (before.reference? id).isSome := by
  unfold reference?
  rw [reworked.node? keeps.sameId]
  cases before.catalog.node? id.owner with
  | none => rfl
  | some node => exact keeps.reference?_isSome node id.role

theorem roles_reworked {before after : Workspace} {f : Node → Node}
    (reworked : Catalog.Reworked f before.catalog after.catalog) (keeps : KeepsOutline f)
    (roles : ∀ row ∈ before.catalog.rows, (row.node.references.map Reference.role).Nodup) :
    ∀ row ∈ after.catalog.rows, (row.node.references.map Reference.role).Nodup := by
  intro row inside
  obtain ⟨earlier, before, rfl⟩ := reworked.mem_rows.mp inside
  show ((f earlier.node).references.map Reference.role).Nodup
  rw [keeps.roles]
  exact roles earlier before

theorem Sound.normalized (sound : workspace.Sound) (member : site ∈ workspace.catalog.sites) :
    (workspace.normalized site).Sound := by
  have reworked := reworked_normalized workspace site
  have keeps : KeepsOutline (onlyAt site.id (Node.named site.declaredSymbol?)) :=
    (keepsOutline_named _).of_cases (onlyAt_cases site.id _)
  have nodes := reworked.node?_onlyAt (inPlace_named site.declaredSymbol?).sameId
  refine ⟨reworked.numbered keeps.sameId sound.numbered, ?_, sound.indexed,
    roles_reworked reworked keeps sound.roles, ?_, ?_⟩
  · intro symbol id
    have index : (symbol, id) ∈ (workspace.normalized site).catalog.symbols ↔
        if id = site.id then site.declaredSymbol? = some symbol ∧ symbol.isEmpty = false
        else (symbol, id) ∈ workspace.catalog.symbols := by
      refine Catalog.mem_replaceSymbol fun other => ?_
      rw [sound.exact other site.id, sound.node?_of_site member]
      exact Node.declared?_eq_some_iff
    rw [index, nodes]
    by_cases here : id = site.id
    · rw [if_pos here, if_pos here, here, sound.node?_of_site member]
      exact (@Node.declared?_eq_some_iff (Node.named site.declaredSymbol? site.node) symbol).symm
    · rw [if_neg here, if_neg here]
      exact sound.exact symbol id
  · intro id recorded
    rw [reference?_isSome_reworked reworked keeps]
    exact sound.owners id recorded
  · intro id node depends
    rw [reworked.contains keeps.sameId]
    exact sound.keys depends

end Normalized

/-! ### Evaluating references -/

section Applied

variable {workspace : Workspace}

theorem reworked_applied (workspace : Workspace) (id : ReferenceId) (resolution : Resolution) :
    Catalog.Reworked (onlyAt id.owner (keepSlots id.role resolution.slots)) workspace.catalog
      (workspace.applied id resolution).catalog :=
  Catalog.reworked_modify _ (inPlace_keepSlots _ _).sameId id.owner

theorem keepsOutline_applied (id : ReferenceId) (resolution : Resolution) :
    KeepsOutline (onlyAt id.owner (keepSlots id.role resolution.slots)) :=
  (keepsOutline_keepSlots _ _).of_cases (onlyAt_cases _ _)

theorem Sound.applied (sound : workspace.Sound) {id : ReferenceId} {resolution : Resolution}
    (there : (workspace.reference? id).isSome)
    (live : ∀ {node}, node ∈ resolution.dependencies.targets ∨
      node ∈ resolution.dependencies.context → workspace.catalog.contains node) :
    (workspace.applied id resolution).Sound := by
  have reworked := reworked_applied workspace id resolution
  have keeps := keepsOutline_applied id resolution
  refine ⟨reworked.numbered keeps.sameId sound.numbered, ?_, sound.indexed.record _ _,
    roles_reworked reworked keeps sound.roles, ?_, ?_⟩
  · exact Catalog.symbolsExact_modify sound.exact (inPlace_keepSlots _ _).sameId fun _ => rfl
  · intro other recorded
    rw [reference?_isSome_reworked reworked keeps]
    by_cases same : other = id
    · rw [same]
      exact there
    · refine sound.owners other fun none => recorded ?_
      rw [show (workspace.applied id resolution).ledger =
        workspace.ledger.record id resolution.dependencies from rfl, Ledger.dependencies_record,
        if_neg same]
      exact none
  · intro other node depends
    rw [reworked.contains keeps.sameId]
    rw [show (workspace.applied id resolution).ledger =
      workspace.ledger.record id resolution.dependencies from rfl,
      Ledger.dependencies_record] at depends
    by_cases same : other = id
    · rw [if_pos same] at depends
      exact live depends
    · rw [if_neg same] at depends
      exact sound.keys depends

end Applied

/-- Nothing but the stage of a node changes. -/
theorem Sound.atStage {workspace : Workspace} (sound : workspace.Sound) (id : NodeId)
    (stage : Stage) : (workspace.modify id (Node.atStage stage)).Sound := by
  have reworked : Catalog.Reworked (onlyAt id (Node.atStage stage)) workspace.catalog
      (workspace.modify id (Node.atStage stage)).catalog :=
    Catalog.reworked_modify _ (inPlace_atStage stage).sameId id
  have keeps : KeepsOutline (onlyAt id (Node.atStage stage)) :=
    (keepsOutline_atStage stage).of_cases (onlyAt_cases id _)
  refine ⟨reworked.numbered keeps.sameId sound.numbered,
    Catalog.symbolsExact_modify sound.exact (inPlace_atStage stage).sameId fun _ => rfl,
    sound.indexed, roles_reworked reworked keeps sound.roles, ?_, ?_⟩
  · intro reference recorded
    rw [reference?_isSome_reworked reworked keeps]
    exact sound.owners reference recorded
  · intro reference node depends
    exact (reworked.contains keeps.sameId node).trans (sound.keys depends)

/-- Changes that outlines and symbols do not show leave every evaluation as it was. -/
theorem evaluate_reworked {before after : Workspace} {f : Node → Node} (sound : before.Sound)
    (later : after.Sound) (reworked : Catalog.Reworked f before.catalog after.catalog)
    (keeps : KeepsOutline f) (symbols : ∀ node, (f node).symbol = node.symbol)
    (options : after.options = before.options) {row : Row} (member : row ∈ before.catalog.rows)
    (reference : Reference) :
    after.evaluate row.id reference = before.evaluate row.id reference := by
  have renamed : after.catalog.evaluate before.options.listSeparator row.id reference =
      (before.catalog.evaluate before.options.listSeparator row.id reference).renumber id :=
    Catalog.evaluate_renamed sound.numbered sound.exact later.numbered later.exact
      (fun row _ => keeps.outline_row row)
      (Catalog.declaring_renamed reworked.rows fun row _ => symbols row.node) member
      (reworked.map_mem member) rfl rfl
  rw [Resolution.renumber_id] at renamed
  unfold Workspace.evaluate
  rw [options]
  exact renamed

/-! ### Evaluating all references of a node -/

/-- The reference with the answer for another one, if that has the same role. -/
def takeAnswer (answers : Reference → Resolution) (reference other : Reference) : Reference :=
  if reference.role = other.role then { reference with answer := some (answers other).slots }
  else reference

/-- The reference with the answers for others, the last one for its role counting. -/
def settle (references : List Reference) (answers : Reference → Resolution)
    (reference : Reference) : Reference :=
  references.foldl (takeAnswer answers) reference

theorem settle_of_roles {references : List Reference} {answers : Reference → Resolution} :
    ∀ {reference : Reference}, reference.role ∉ references.map Reference.role →
      settle references answers reference = reference := by
  unfold settle
  induction references with
  | nil => exact fun _ => rfl
  | cons first others ih =>
    intro reference absent
    rw [List.map_cons, List.mem_cons, not_or] at absent
    rw [List.foldl_cons, takeAnswer, if_neg absent.1]
    exact ih absent.2

/-- Where roles differ, a reference gets its own answer. -/
theorem settle_of_mem {references : List Reference} {answers : Reference → Resolution}
    (roles : (references.map Reference.role).Nodup) {reference : Reference}
    (member : reference ∈ references) : settle references answers reference =
      { reference with answer := some (answers reference).slots } := by
  induction references with
  | nil => exact absurd member List.not_mem_nil
  | cons first others ih =>
    obtain ⟨new, rest⟩ := List.nodup_cons.mp roles
    show settle others answers (takeAnswer answers reference first) = _
    rcases List.mem_cons.mp member with rfl | later
    · rw [takeAnswer, if_pos rfl]
      exact settle_of_roles new
    · have apart : reference.role ≠ first.role :=
        fun same => new (same ▸ List.mem_map_of_mem later)
      rw [takeAnswer, if_neg apart]
      exact ih rest later

/-- The outcomes for references of one node, applied one after the other. -/
def appliedAll (workspace : Workspace) (owner : NodeId) (references : List Reference)
    (answers : Reference → Resolution) : Workspace :=
  (references.map fun reference =>
      ((⟨owner, reference.role⟩ : ReferenceId), answers reference)).foldl
    (fun workspace outcome => workspace.applied outcome.1 outcome.2) workspace

/-- The node with the answers for the references kept. -/
def keepAll (references : List Reference) (answers : Reference → Resolution) (node : Node) : Node :=
  { node with
    content := node.content.map fun content =>
      { content with references := content.references.map (settle references answers) } }

theorem inPlace_keepAll (references : List Reference) (answers : Reference → Resolution) :
    InPlace (keepAll references answers) :=
  ⟨fun _ => rfl, fun _ => rfl, fun _ => rfl, fun _ => rfl⟩

theorem keepAll_cons (first : Reference) (others : List Reference)
    (answers : Reference → Resolution) : keepAll (first :: others) answers =
      keepAll others answers ∘ keepSlots first.role (answers first).slots := by
  funext node
  unfold keepAll keepSlots
  rw [Function.comp_apply]
  simp only [Option.map_map, Node.mk.injEq, true_and, and_true]
  congr 1
  funext content
  simp only [Function.comp_apply, List.map_map, Content.mk.injEq, true_and, and_true]
  rfl

section Resolved

variable {owner : NodeId} {answers : Reference → Resolution}

theorem reworked_appliedAll (references : List Reference) : ∀ workspace : Workspace,
    Catalog.Reworked (onlyAt owner (keepAll references answers)) workspace.catalog
      (workspace.appliedAll owner references answers).catalog := by
  induction references with
  | nil =>
    intro workspace
    refine (Catalog.Reworked.refl workspace.catalog).congr fun row _ => ?_
    have same : keepAll [] answers row.node = row.node := by
      unfold keepAll
      have every : settle [] answers = id := rfl
      simp only [every, List.map_id]
      rw [Option.map_id']
    rcases onlyAt_cases owner (keepAll [] answers) row.node with changed | kept
    · rw [changed, same]
      rfl
    · rw [kept]
      rfl
  | cons first others ih =>
    intro workspace
    have step := (reworked_applied workspace ⟨owner, first.role⟩ (answers first)).trans (ih _)
    rw [onlyAt_onlyAt (inPlace_keepSlots _ _).sameId, ← keepAll_cons] at step
    exact step

/-- The dependencies of other references stay. -/
theorem dependencies_appliedAll_of_ne {id : ReferenceId} (references : List Reference)
    (apart : ∀ reference ∈ references, id ≠ ⟨owner, reference.role⟩) : ∀ workspace : Workspace,
    (workspace.appliedAll owner references answers).ledger.dependencies id =
      workspace.ledger.dependencies id := by
  induction references with
  | nil => exact fun _ => rfl
  | cons first others ih =>
    intro workspace
    refine (ih (fun other inside => apart other (List.mem_cons_of_mem _ inside)) _).trans ?_
    exact (Ledger.dependencies_record _ _ _ id).trans (if_neg (apart first List.mem_cons_self))

theorem dependencies_appliedAll_of_mem {references : List Reference} {reference : Reference} :
    ∀ workspace : Workspace, (references.map Reference.role).Nodup → reference ∈ references →
    (workspace.appliedAll owner references answers).ledger.dependencies
        ⟨owner, reference.role⟩ = (answers reference).dependencies := by
  induction references with
  | nil => exact fun _ _ member => absurd member List.not_mem_nil
  | cons first others ih =>
    intro workspace roles member
    obtain ⟨new, rest⟩ := List.nodup_cons.mp roles
    rcases List.mem_cons.mp member with rfl | later
    · refine (dependencies_appliedAll_of_ne others (fun other inside same => new ?_) _).trans ?_
      · rw [show reference.role = other.role from congrArg ReferenceId.role same]
        exact List.mem_map_of_mem inside
      · exact (Ledger.dependencies_record _ _ _ _).trans (if_pos rfl)
    · exact ih _ rest later

theorem Sound.appliedAll {references : List Reference} : ∀ {workspace : Workspace},
    workspace.Sound →
    (∀ reference ∈ references, (workspace.reference? ⟨owner, reference.role⟩).isSome) →
    (∀ reference ∈ references, ∀ {node}, node ∈ (answers reference).dependencies.targets ∨
      node ∈ (answers reference).dependencies.context → workspace.catalog.contains node) →
    (workspace.appliedAll owner references answers).Sound := by
  induction references with
  | nil => exact fun sound _ _ => sound
  | cons first others ih =>
    intro workspace sound there live
    have reworked := reworked_applied workspace ⟨owner, first.role⟩ (answers first)
    have keeps := keepsOutline_applied ⟨owner, first.role⟩ (answers first)
    refine ih (sound.applied (there first List.mem_cons_self) (live first List.mem_cons_self)) ?_ ?_
    · intro reference member
      rw [reference?_isSome_reworked reworked keeps]
      exact there reference (List.mem_cons_of_mem _ member)
    · intro reference member node depends
      rw [reworked.contains keeps.sameId]
      exact live reference (List.mem_cons_of_mem _ member) depends

end Resolved

section Resolution

variable {workspace : Workspace} {site : Site}

/-- The outcomes for the references of a node. -/
def answersAt (workspace : Workspace) (site : Site) (reference : Reference) : Resolution :=
  workspace.evaluate site.id reference

theorem resolved_eq (workspace : Workspace) (site : Site) : workspace.resolved site =
    (workspace.appliedAll site.id site.node.references (workspace.answersAt site)).modify site.id
      fun node => { node with stage := .resolved } := rfl

variable (sound : workspace.Sound) (member : site ∈ workspace.catalog.sites)

include sound member

theorem reworked_resolved : Catalog.Reworked (onlyAt site.id (Node.answered (workspace.answersAt site)))
    workspace.catalog (workspace.resolved site).catalog := by
  have applied : Catalog.Reworked (onlyAt site.id (keepAll site.node.references
      (workspace.answersAt site))) workspace.catalog _ :=
    reworked_appliedAll site.node.references workspace
  have staged := applied.trans
    (Catalog.reworked_modify _ (inPlace_atStage .resolved).sameId site.id)
  refine staged.congr fun row inside => ?_
  rw [onlyAt_onlyAt (inPlace_keepAll _ _).sameId]
  unfold onlyAt
  by_cases here : row.node.id = site.id
  · rw [if_pos here, if_pos here, sound.eq_node member inside here]
    show Node.atStage .resolved (keepAll site.node.references (workspace.answersAt site) site.node) =
      Node.answered (workspace.answersAt site) site.node
    unfold Node.atStage keepAll Node.answered
    have roles := sound.roles _ (row_of_site member)
    rw [show site.row.node = site.node from rfl] at roles
    cases read : site.node.content with
    | none => rfl
    | some content =>
      have references : site.node.references = content.references := by
        rw [Node.references, read]
        rfl
      rw [references] at roles ⊢
      have each : content.references.map (settle content.references (workspace.answersAt site)) =
          content.references.map fun reference =>
            { reference with answer := some (workspace.answersAt site reference).slots } :=
        List.map_congr_left fun reference inside => settle_of_mem roles inside
      simp only [Option.map_some, each]
  · rw [if_neg here, if_neg here]

theorem dependencies_resolved_of_mem {reference : Reference}
    (inside : reference ∈ site.node.references) :
    (workspace.resolved site).ledger.dependencies ⟨site.id, reference.role⟩ =
      (workspace.evaluate site.id reference).dependencies :=
  dependencies_appliedAll_of_mem workspace (sound.roles _ (row_of_site member)) inside

omit sound member in
theorem dependencies_resolved_of_ne {id : ReferenceId} (other : id.owner ≠ site.id) :
    (workspace.resolved site).ledger.dependencies id = workspace.ledger.dependencies id :=
  dependencies_appliedAll_of_ne site.node.references
    (fun _ _ same => other (congrArg ReferenceId.owner same)) workspace

theorem Sound.resolved : (workspace.resolved site).Sound := by
  have there : ∀ reference ∈ site.node.references,
      (workspace.reference? ⟨site.id, reference.role⟩).isSome := by
    intro reference inside
    rw [reference?, sound.node?_of_site member]
    exact List.find?_isSome.mpr ⟨reference, inside, by simp⟩
  have all : (workspace.appliedAll site.id site.node.references (workspace.answersAt site)).Sound :=
    Sound.appliedAll sound there fun reference _ _ depends =>
      Catalog.contains_of_dependency sound.numbered sound.exact depends
  rw [resolved_eq]
  exact all.atStage site.id .resolved

end Resolution

end Workspace

end EntityModel
