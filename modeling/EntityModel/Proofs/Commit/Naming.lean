import EntityModel.Proofs.Commit.Reading

/-
**The third part of a commit: symbols are formed again, and what they concern is queued.**

* `mem_toRenormalize` — the nodes named again beside those read again.
* `Naming` — the state of the pass after some nodes are named: exactly they are changed, a symbol
  that a node lost or gained is noted, and what rested on a node that kept its content is queued.
* `Queueing` — after some noted symbols are dealt with, all that waits for them, looked them up, or
  rests on a node that declares them now is queued.
* `exists_naming`, `queueing_foldl` — both loops run to their end.
-/

namespace EntityModel

open Workspace

namespace Workspace

/-! ### The nodes to name -/

theorem nodup_toRenormalize (workspace : Workspace) (transaction : Transaction)
    (reparsed : List NodeId) : (workspace.toRenormalize transaction reparsed).Nodup :=
  Catalog.nodup_sortByDocumentOrder (OrderedSet.ofList _).nodup

/-- The nodes named again beside those read again stand below edited ones and have been read
before. -/
theorem mem_toRenormalize {workspace : Workspace} (numbered : workspace.catalog.Numbered)
    {transaction : Transaction} {reparsed : List NodeId} {id : NodeId} :
    id ∈ workspace.toRenormalize transaction reparsed ↔
      ∃ row ∈ workspace.catalog.rows, row.id = id ∧ id ∉ reparsed ∧
        row.node.stage.reaches .parsed = true ∧
        ∃ root ∈ transaction.edited, id ∈ (workspace.catalog.subtree root).tail := by
  unfold toRenormalize
  rw [Catalog.mem_sortByDocumentOrder, ← OrderedSet.mem_iff, OrderedSet.mem_ofList,
    List.mem_filter, List.mem_filter, List.mem_flatMap, Bool.not_eq_true', List.contains_eq_mem,
    decide_eq_false_iff_not]
  constructor
  · rintro ⟨⟨below, ready⟩, new⟩
    obtain ⟨row, member, same, reached⟩ := numbered.any_node?_iff.mp ready
    exact ⟨row, member, same, new, reached, below⟩
  · rintro ⟨row, member, same, new, reached, below⟩
    exact ⟨⟨below, numbered.any_node?_iff.mpr ⟨row, member, same, reached⟩⟩, new⟩

end Workspace

/-! ### Naming them -/

/-- The node named where it stands in the catalog. -/
def Catalog.rename (catalog : Catalog) (node : Node) : Node :=
  match catalog.row? node.id with
  | some row => node.named row.declaredSymbol?
  | none => node

theorem Catalog.inPlace_rename (catalog : Catalog) : InPlace catalog.rename := by
  refine ⟨fun node => ?_, fun node => ?_, fun node => ?_, fun node => ?_⟩ <;>
    unfold Catalog.rename <;> split <;> rfl

theorem Catalog.keepsOutline_rename (catalog : Catalog) : KeepsOutline catalog.rename := by
  intro node
  unfold Catalog.rename
  split
  · exact keepsOutline_named _ node
  · rfl

/-- The symbol a node declared before the pass: the one carried along if the node is read again. -/
def symbolBefore (earlier : List (NodeId × Option Symbol)) (node : Node) : Option Symbol :=
  (earlier.lookup node.id).getD node.symbol

/-- The state of the pass after the nodes `done` are named. -/
structure Naming (read : Pass) (earlier : List (NodeId × Option Symbol)) (done : List NodeId)
    (pass : Pass) : Prop where
  sound : pass.workspace.Sound
  reworked : Catalog.Reworked (onlyIn done read.workspace.catalog.rename) read.workspace.catalog
    pass.workspace.catalog
  ledger : pass.workspace.ledger = read.workspace.ledger
  queued : ∀ {id}, id ∈ read.queue → id ∈ pass.queue
  noted : ∀ {symbol}, symbol ∈ read.touched → symbol ∈ pass.touched
  /-- A symbol that a node has lost or gained is noted. -/
  touched : ∀ row ∈ read.workspace.catalog.rows, row.id ∈ done →
    symbolBefore earlier row.node ≠ row.declaredSymbol? → ∀ symbol, symbol.isEmpty = false →
      symbolBefore earlier row.node = some symbol ∨ row.declaredSymbol? = some symbol →
        symbol ∈ pass.touched
  /-- What rested on a node with a new symbol is queued, unless the node is read again. -/
  dependents : ∀ row ∈ read.workspace.catalog.rows, row.id ∈ done →
    symbolBefore earlier row.node ≠ row.declaredSymbol? → earlier.lookup row.id = none →
      ∀ {id : ReferenceId}, (row.id ∈ (read.workspace.ledger.dependencies id).targets ∨
        row.id ∈ (read.workspace.ledger.dependencies id).context) → id.owner ∈ pass.queue
  options : pass.workspace.options = read.workspace.options
  transaction : pass.workspace.transaction = read.workspace.transaction

theorem naming_start {read : Pass} (sound : read.workspace.Sound)
    (earlier : List (NodeId × Option Symbol)) : Naming read earlier [] read := by
  refine ⟨sound, ?_, rfl, fun queued => queued, fun noted => noted, ?_, ?_, rfl, rfl⟩
  · rw [onlyIn_nil]
    exact Catalog.Reworked.refl _
  · exact fun row _ member => absurd member List.not_mem_nil
  · exact fun row _ member => absurd member List.not_mem_nil

/-- The pass with the node at the place named, its symbols before and after noted. -/
def Pass.nameAt (pass : Pass) (site : Site) (before : Option Symbol) : Pass :=
  { pass with workspace := pass.workspace.normalized site }.touch
    (before.toList ++ site.declaredSymbol?.toList)

theorem renormalize_eq {pass : Pass} (earlier : List (NodeId × Option Symbol)) {site : Site}
    (located : pass.workspace.catalog.site? site.id = some site)
    (ready : site.node.stage.reaches .parsed = true) : pass.renormalize earlier site.id =
      .ok (if symbolBefore earlier site.node = site.declaredSymbol? then
          { pass with workspace := pass.workspace.normalized site }
        else if (earlier.lookup site.id).isSome then
          pass.nameAt site (symbolBefore earlier site.node)
        else (pass.nameAt site (symbolBefore earlier site.node)).queueDependents site.id) := by
  have named : pass.workspace.normalizeNode site.id =
      .ok (pass.workspace.normalized site, site.node.symbol, site.declaredSymbol?) := by
    unfold normalizeNode
    rw [bind_eq_ok]
    refine ⟨site, site_eq_ok.mpr located, ?_⟩
    rw [bind_eq_ok]
    exact ⟨(), if_pos ready, rfl⟩
  unfold Pass.renormalize
  rw [named]
  show (if symbolBefore earlier site.node = site.declaredSymbol? then _ else _) = _
  split
  · rfl
  · rfl

/-- What one turn notes and queues. -/
structure Renamed (earlier : List (NodeId × Option Symbol)) (site : Site) (before after : Pass) :
    Prop where
  workspace : after.workspace = before.workspace.normalized site
  queued : ∀ {id}, id ∈ before.queue → id ∈ after.queue
  noted : ∀ {symbol}, symbol ∈ before.touched → symbol ∈ after.touched
  touched : symbolBefore earlier site.node ≠ site.declaredSymbol? →
    ∀ symbol, symbol.isEmpty = false →
      symbolBefore earlier site.node = some symbol ∨ site.declaredSymbol? = some symbol →
        symbol ∈ after.touched
  dependents : symbolBefore earlier site.node ≠ site.declaredSymbol? →
    earlier.lookup site.id = none → ∀ {id : ReferenceId},
      (site.id ∈ (before.workspace.ledger.dependencies id).targets ∨
        site.id ∈ (before.workspace.ledger.dependencies id).context) → id.owner ∈ after.queue

theorem exists_renamed {pass : Pass} (indexed : pass.workspace.ledger.Indexed)
    (earlier : List (NodeId × Option Symbol)) {site : Site}
    (located : pass.workspace.catalog.site? site.id = some site)
    (ready : site.node.stage.reaches .parsed = true) :
    ∃ next, pass.renormalize earlier site.id = .ok next ∧ Renamed earlier site pass next := by
  refine ⟨_, renormalize_eq earlier located ready, ?_⟩
  by_cases same : symbolBefore earlier site.node = site.declaredSymbol?
  · rw [if_pos same]
    exact ⟨rfl, fun queued => queued, fun noted => noted, fun differs => absurd same differs,
      fun differs => absurd same differs⟩
  rw [if_neg same]
  have noted : ∀ {symbol}, symbol ∈ pass.touched →
      symbol ∈ (pass.nameAt site (symbolBefore earlier site.node)).touched :=
    fun inside => Pass.mem_touch.mpr (Or.inl inside)
  have touched : ∀ symbol, symbol.isEmpty = false →
      symbolBefore earlier site.node = some symbol ∨ site.declaredSymbol? = some symbol →
      symbol ∈ (pass.nameAt site (symbolBefore earlier site.node)).touched := by
    intro symbol real either
    refine Pass.mem_touch.mpr (Or.inr ⟨?_, real⟩)
    rw [List.mem_append, Option.mem_toList, Option.mem_toList]
    exact either
  cases read : earlier.lookup site.id with
  | some symbol =>
    exact ⟨rfl, fun queued => queued, noted, fun _ => touched,
      fun _ absent => nomatch read.symm.trans absent⟩
  | none =>
    have ledger : (pass.nameAt site (symbolBefore earlier site.node)).workspace.ledger =
        pass.workspace.ledger := rfl
    refine ⟨rfl, ?_, noted, fun _ => touched, ?_⟩
    · intro id queued
      exact (Pass.mem_queueDependents (ledger ▸ indexed)).mpr (Or.inl queued)
    · intro _ _ id depends
      refine (Pass.mem_queueDependents (ledger ▸ indexed)).mpr (Or.inr ⟨id, ?_, rfl⟩)
      rw [ledger]
      exact depends

/-- A node that is not named yet stands as it stood, and declares the same symbol there. -/
theorem Naming.exists_site {read : Pass} {earlier : List (NodeId × Option Symbol)}
    {done : List NodeId} {pass : Pass} (naming : Naming read earlier done pass) {row : Row}
    (member : row ∈ read.workspace.catalog.rows) (new : row.id ∉ done) :
    ∃ site ∈ pass.workspace.catalog.sites, site.id = row.id ∧ site.node = row.node ∧
      site.declaredSymbol? = row.declaredSymbol? ∧
        pass.workspace.catalog.site? site.id = some site := by
  have keeps : KeepsOutline (onlyIn done read.workspace.catalog.rename) :=
    (Catalog.keepsOutline_rename _).of_cases (onlyIn_cases done _)
  obtain ⟨site, live, located, number, same⟩ :=
    naming.reworked.exists_site keeps.sameId naming.sound.numbered member
  refine ⟨site, live, number, (congrArg Row.node same).trans (if_neg new), ?_, number ▸ located⟩
  rw [← Site.declaredSymbol?_row, same, keeps.declaredSymbol?]

theorem Naming.step {read : Pass} (numbered : read.workspace.catalog.Numbered)
    {earlier : List (NodeId × Option Symbol)} {done : List NodeId} {pass : Pass}
    (naming : Naming read earlier done pass) {row : Row}
    (member : row ∈ read.workspace.catalog.rows)
    (ready : row.node.stage.reaches .parsed = true) (new : row.id ∉ done) :
    ∃ next, pass.renormalize earlier row.id = .ok next ∧
      Naming read earlier (done ++ [row.id]) next := by
  obtain ⟨site, live, number, node, declared, located⟩ := naming.exists_site member new
  obtain ⟨next, ran, renamed⟩ := exists_renamed naming.sound.indexed earlier located (node ▸ ready)
  rw [number] at ran
  refine ⟨next, ran, ?_, ?_, ?_, ?_, ?_, ?_, ?_, ?_, ?_⟩
  · rw [renamed.workspace]
    exact naming.sound.normalized live
  · rw [renamed.workspace]
    have reworked := naming.reworked.trans (reworked_normalized pass.workspace site)
    refine reworked.congr fun other _ => ?_
    rw [← onlyAt_onlyIn (Catalog.inPlace_rename _).sameId new, Function.comp_apply,
      Function.comp_apply, number, declared]
    generalize onlyIn done read.workspace.catalog.rename other.node = changed
    by_cases own : changed.id = row.id
    · rw [onlyAt_of_eq own, onlyAt_of_eq own, Catalog.rename, own, numbered.row?_of_mem member]
    · rw [onlyAt_of_ne own, onlyAt_of_ne own]
  · rw [renamed.workspace]
    exact naming.ledger
  · exact fun queued => renamed.queued (naming.queued queued)
  · exact fun noted => renamed.noted (naming.noted noted)
  · intro other live listed differs symbol real either
    rcases List.mem_append.mp listed with before | now
    · exact renamed.noted (naming.touched other live before differs symbol real either)
    · obtain rfl := numbered.eq_of_id live member (List.mem_singleton.mp now)
      rw [← node, ← declared] at differs either
      exact renamed.touched differs symbol real either
  · intro other live listed differs absent id depends
    rcases List.mem_append.mp listed with before | now
    · exact renamed.queued (naming.dependents other live before differs absent depends)
    · obtain rfl := numbered.eq_of_id live member (List.mem_singleton.mp now)
      rw [← node, ← declared] at differs
      rw [← number] at absent depends
      rw [← naming.ledger] at depends
      exact renamed.dependents differs absent depends
  · rw [renamed.workspace]
    exact naming.options
  · rw [renamed.workspace]
    exact naming.transaction

/-- **Naming never fails** where all nodes have been read. -/
theorem exists_naming {read : Pass} (sound : read.workspace.Sound)
    (earlier : List (NodeId × Option Symbol)) {work : List NodeId} (distinct : work.Nodup)
    (ready : ∀ id ∈ work, ∃ row ∈ read.workspace.catalog.rows, row.id = id ∧
      row.node.stage.reaches .parsed = true) :
    ∃ named, work.foldlM (Pass.renormalize earlier) read = .ok named ∧
      Naming read earlier work named := by
  refine @foldlM_ok _ _ _ _ (Naming read earlier) _ [] _ distinct (naming_start sound earlier) ?_
  intro done pass item member new naming
  obtain ⟨row, live, rfl, reached⟩ := ready item member
  exact naming.step sound.numbered live reached new

/-! ### What noted symbols concern -/

/-- The state of the pass after the symbols are dealt with. -/
structure Queueing (named : Pass) (symbols : List Symbol) (pass : Pass) : Prop where
  workspace : pass.workspace = named.workspace
  touched : pass.touched = named.touched
  queued : ∀ {id}, id ∈ named.queue → id ∈ pass.queue
  waiting : named.workspace.options.rebindWaiting = true → ∀ symbol ∈ symbols,
    ∀ {id : ReferenceId}, symbol ∈ (named.workspace.ledger.dependencies id).dangling →
      id.owner ∈ pass.queue
  lookups : ∀ symbol ∈ symbols, ∀ {id : ReferenceId},
    symbol ∈ (named.workspace.ledger.dependencies id).lookups → id.owner ∈ pass.queue
  declared : ∀ symbol ∈ symbols, ∀ node ∈ named.workspace.catalog.lookup symbol,
    ∀ {id : ReferenceId}, (node ∈ (named.workspace.ledger.dependencies id).targets ∨
      node ∈ (named.workspace.ledger.dependencies id).context) → id.owner ∈ pass.queue

theorem queueDependents_foldl (nodes : List NodeId) : ∀ {pass : Pass},
    pass.workspace.ledger.Indexed →
    (nodes.foldl Pass.queueDependents pass).workspace = pass.workspace ∧
      (nodes.foldl Pass.queueDependents pass).touched = pass.touched ∧
      (∀ {id}, id ∈ pass.queue → id ∈ (nodes.foldl Pass.queueDependents pass).queue) ∧
      ∀ node ∈ nodes, ∀ {id : ReferenceId},
        (node ∈ (pass.workspace.ledger.dependencies id).targets ∨
          node ∈ (pass.workspace.ledger.dependencies id).context) →
        id.owner ∈ (nodes.foldl Pass.queueDependents pass).queue := by
  induction nodes with
  | nil => exact fun _ => ⟨rfl, rfl, fun queued => queued, fun _ member => absurd member List.not_mem_nil⟩
  | cons node nodes ih =>
    intro pass indexed
    obtain ⟨workspace, touched, queued, dependents⟩ :=
      @ih (pass.queueDependents node) indexed
    refine ⟨workspace, touched, ?_, ?_⟩
    · exact fun inside => queued ((Pass.mem_queueDependents indexed).mpr (Or.inl inside))
    · intro other member id depends
      rcases List.mem_cons.mp member with rfl | later
      · exact queued ((Pass.mem_queueDependents indexed).mpr (Or.inr ⟨id, depends, rfl⟩))
      · exact dependents other later depends

theorem queueing_start (named : Pass) : Queueing named [] named :=
  ⟨rfl, rfl, fun queued => queued, fun _ _ member => absurd member List.not_mem_nil,
    fun _ member => absurd member List.not_mem_nil, fun _ member => absurd member List.not_mem_nil⟩

theorem Queueing.step {named pass : Pass} (indexed : named.workspace.ledger.Indexed)
    {symbols : List Symbol} (queueing : Queueing named symbols pass) (symbol : Symbol) :
    Queueing named (symbols ++ [symbol]) (pass.queueChanged symbol) := by
  have ledger : pass.workspace.ledger = named.workspace.ledger :=
    congrArg Workspace.ledger queueing.workspace
  let waiting := if pass.workspace.options.rebindWaiting then
    pass.workspace.ledger.waitingOn symbol else []
  let looked := (pass.queueOwners waiting).queueOwners (pass.workspace.ledger.lookupDependents symbol)
  have queue : ∀ {id : NodeId}, id ∈ looked.queue ↔ (id ∈ pass.queue ∨
      ∃ each ∈ waiting, each.owner = id) ∨
        ∃ each ∈ pass.workspace.ledger.lookupDependents symbol, each.owner = id := by
    intro id
    rw [Pass.mem_queueOwners, Pass.mem_queueOwners]
  obtain ⟨workspace, touched, queued, dependents⟩ :=
    queueDependents_foldl (pass.workspace.catalog.lookup symbol)
      (show looked.workspace.ledger.Indexed from ledger ▸ indexed)
  refine ⟨workspace.trans queueing.workspace, touched.trans queueing.touched, ?_, ?_, ?_, ?_⟩
  · exact fun inside => queued (queue.mpr (Or.inl (Or.inl (queueing.queued inside))))
  · intro rebinds other listed id dangling
    rcases List.mem_append.mp listed with before | now
    · exact queued (queue.mpr (Or.inl (Or.inl (queueing.waiting rebinds other before dangling))))
    · obtain rfl := List.mem_singleton.mp now
      refine queued (queue.mpr (Or.inl (Or.inr ⟨id, ?_, rfl⟩)))
      show id ∈ if pass.workspace.options.rebindWaiting then _ else _
      rw [queueing.workspace, if_pos rebinds, Ledger.mem_waitingOn indexed]
      exact dangling
  · intro other listed id lookedUp
    rcases List.mem_append.mp listed with before | now
    · exact queued (queue.mpr (Or.inl (Or.inl (queueing.lookups other before lookedUp))))
    · obtain rfl := List.mem_singleton.mp now
      refine queued (queue.mpr (Or.inr ⟨id, ?_, rfl⟩))
      rw [ledger, Ledger.mem_lookupDependents indexed]
      exact lookedUp
  · intro other listed node found id depends
    rcases List.mem_append.mp listed with before | now
    · exact queued (queue.mpr (Or.inl (Or.inl (queueing.declared other before node found depends))))
    · obtain rfl := List.mem_singleton.mp now
      refine dependents node ?_ ?_
      · rw [queueing.workspace]
        exact found
      · show node ∈ (pass.workspace.ledger.dependencies id).targets ∨
          node ∈ (pass.workspace.ledger.dependencies id).context
        rw [ledger]
        exact depends

theorem queueing_foldl {named : Pass} (indexed : named.workspace.ledger.Indexed)
    (symbols : List Symbol) : ∀ {earlier : List Symbol} {pass : Pass},
    Queueing named earlier pass →
    Queueing named (earlier ++ symbols) (symbols.foldl Pass.queueChanged pass) := by
  induction symbols with
  | nil =>
    intro earlier pass queueing
    rw [List.append_nil]
    exact queueing
  | cons symbol symbols ih =>
    intro earlier pass queueing
    rw [List.foldl_cons, ← List.singleton_append, ← List.append_assoc]
    exact ih (queueing.step indexed symbol)

end EntityModel
