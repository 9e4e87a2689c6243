import EntityModel.Proofs.Workspace.NormalForm

/-
**Steps in the life of one node, taken again.**

Where everything is up to date a node may be read, named and resolved again, and its references
evaluated again, in any order and with refused steps in between: as soon as the node is resolved,
everything is as it was. What reading withdraws — the symbol, the answers, the dependencies — is what
the later steps put back, because other nodes are seen by their written contents and their symbols
alone and these do not change.

* `Command.revisits` — the command is a step in the life of the node with the number.
* `Revisited` — what holds of a settled workspace all along such steps: only the one node strays, its
  content stays the one that is written, and its symbol is the one it had from the time it is named.
* `Revisited.next` — **every step keeps this**; `Revisited.evaluate` — once the node is named every
  reference is evaluated as before.
* `Revisited.settled_resolved` — resolved, the node is up to date again, and so is everything else.
* `alike_revisited` — **so after such steps everything is as it was.**
-/

namespace EntityModel

/-- The command is a step in the life of the node with the number. -/
def Command.revisits (own : NodeId) : Command → Bool
  | .parse id | .normalize id | .resolve id => id = own
  | .rebind id => id.owner = own
  | _ => false

namespace Workspace

/-- The node with the number has taken steps of its life again; `f` is what they have made of it. -/
structure Revisited (own : NodeId) (settled workspace : Workspace) (f : Node → Node) : Prop where
  coherent : workspace.Coherent
  options : workspace.options = settled.options
  transaction : workspace.transaction = settled.transaction
  written : workspace.catalog.written = settled.catalog.written
  reworked : Catalog.Reworked f settled.catalog workspace.catalog
  inPlace : InPlace f
  others : ∀ node, node.id ≠ own → f node = node
  content : ∀ row ∈ settled.catalog.rows,
    (f row.node).content.map Content.written = row.node.content.map Content.written
  defects : ∀ row ∈ settled.catalog.rows, (f row.node).defects = row.node.defects
  /-- From the time the node is named it has the symbol it had. -/
  symbol : ∀ row ∈ settled.catalog.rows,
    (f row.node).stage.reaches .normalized = true → (f row.node).symbol = row.node.symbol
  dependencies : ∀ {id : ReferenceId}, id.owner ≠ own →
    workspace.ledger.dependencies id = settled.ledger.dependencies id

theorem Revisited.refl {workspace : Workspace} (coherent : workspace.Coherent) (own : NodeId) :
    Revisited own workspace workspace id :=
  ⟨coherent, rfl, rfl, rfl, .refl _, ⟨fun _ => rfl, fun _ => rfl, fun _ => rfl, fun _ => rfl⟩,
    fun _ _ => rfl, fun _ _ => rfl, fun _ _ => rfl, fun _ _ _ => rfl, fun _ => rfl⟩

namespace Revisited

variable {own : NodeId} {settled workspace : Workspace} {f : Node → Node}

section Seen

variable (revisited : Revisited own settled workspace f)

include revisited

/-- Naming and resolving see what they saw before. -/
theorem outline {row : Row} (member : row ∈ settled.catalog.rows) :
    (row.map f).map (Node.outline id) = row.map (Node.outline id) := by
  rw [Row.map_map]
  refine Row.map_congr fun node inside => ?_
  obtain ⟨upper, found, _⟩ := Catalog.row_of_mem_line member inside
  have content := revisited.content _ found
  rw [Function.comp_apply]
  unfold Node.outline
  rw [revisited.inPlace.sameId, revisited.inPlace.sameKind, revisited.inPlace.sameHead, content]

theorem declaredSymbol? {row : Row} (member : row ∈ settled.catalog.rows) :
    (row.map f).declaredSymbol? = row.declaredSymbol? := by
  rw [← Row.declaredSymbol?_outline id, revisited.outline member, Row.declaredSymbol?_outline]

/-- **Once the node is named every reference is evaluated as before.** -/
theorem evaluate (sound : settled.Sound)
    (named : ∀ row ∈ settled.catalog.rows, (f row.node).symbol = row.node.symbol)
    {row : Row} (member : row ∈ settled.catalog.rows) {reference twin : Reference}
    (rule : twin.rule = reference.rule) (text : twin.text = reference.text) :
    workspace.evaluate row.id twin = settled.evaluate row.id reference := by
  have same : workspace.catalog.evaluate settled.options.listSeparator row.id twin =
      (settled.catalog.evaluate settled.options.listSeparator row.id reference).renumber id :=
    Catalog.evaluate_renamed sound.numbered sound.exact revisited.coherent.numbered
      revisited.coherent.exact (fun _ => revisited.outline)
      (Catalog.declaring_renamed revisited.reworked.rows named) member
      (revisited.reworked.map_mem member) rule text
  rw [Resolution.renumber_id] at same
  unfold Workspace.evaluate
  rw [revisited.options]
  exact same

end Seen

/-! ### One step -/

section Place

variable (revisited : Revisited own settled workspace f) {site : Site}

include revisited

/-- The row of the node is the one at the place. -/
theorem eq_row (member : site ∈ workspace.catalog.sites) (here : site.id = own) {row : Row}
    (inside : row ∈ settled.catalog.rows) (isOwn : row.id = own) : row.map f = site.row :=
  revisited.coherent.toSound.eq_node member (revisited.reworked.map_mem inside)
    ((revisited.inPlace.sameId row.node).trans (isOwn.trans here.symm))

/-- The node at the place has the symbol it had, once it is named. -/
theorem symbol_site (ready : site.node.stage.reaches .normalized = true) {row : Row}
    (inside : row ∈ settled.catalog.rows) (same : row.map f = site.row) :
    site.node.symbol = row.node.symbol := by
  have node : site.node = f row.node := congrArg Row.node same.symm
  rw [node] at ready ⊢
  exact revisited.symbol row inside ready

end Place

/-- What a change of the one node has to respect. -/
theorem step (revisited : Revisited own settled workspace f) {after : Workspace} {site : Site}
    (member : site ∈ workspace.catalog.sites) (here : site.id = own) {change : Node → Node}
    (coherent : after.Coherent) (options : after.options = workspace.options)
    (transaction : after.transaction = workspace.transaction)
    (written : after.catalog.written = workspace.catalog.written)
    (reworked : Catalog.Reworked (onlyAt site.id change) workspace.catalog after.catalog)
    (inPlace : InPlace change)
    (content : (change site.node).content.map Content.written =
      site.node.content.map Content.written)
    (defects : (change site.node).defects = site.node.defects)
    (symbol : (change site.node).stage.reaches .normalized = true →
      ∀ row ∈ settled.catalog.rows, row.map f = site.row →
        (change site.node).symbol = row.node.symbol)
    (dependencies : ∀ {id : ReferenceId}, id.owner ≠ site.id →
      after.ledger.dependencies id = workspace.ledger.dependencies id) :
    Revisited own settled after (onlyAt site.id change ∘ f) := by
  subst here
  -- the rows of the node itself are the one at the place
  have located : ∀ row ∈ settled.catalog.rows, (f row.node).id = site.id → row.map f = site.row :=
    fun row inside same =>
      revisited.eq_row member rfl inside ((revisited.inPlace.sameId row.node).symm.trans same)
  have own : ∀ row ∈ settled.catalog.rows, (f row.node).id = site.id → f row.node = site.node :=
    fun row inside same => congrArg Row.node (located row inside same)
  refine ⟨coherent, options.trans revisited.options, transaction.trans revisited.transaction,
    written.trans revisited.written, revisited.reworked.trans reworked,
    (inPlace.of_cases (onlyAt_cases site.id change)).comp revisited.inPlace, ?_, ?_, ?_, ?_, ?_⟩
  · intro node other
    rw [Function.comp_apply, revisited.others node other, onlyAt_of_ne other]
  · intro row inside
    rw [Function.comp_apply]
    by_cases same : (f row.node).id = site.id
    · rw [onlyAt_of_eq same, own row inside same, content, ← own row inside same]
      exact revisited.content row inside
    · rw [onlyAt_of_ne same]
      exact revisited.content row inside
  · intro row inside
    rw [Function.comp_apply]
    by_cases same : (f row.node).id = site.id
    · rw [onlyAt_of_eq same, own row inside same, defects, ← own row inside same]
      exact revisited.defects row inside
    · rw [onlyAt_of_ne same]
      exact revisited.defects row inside
  · intro row inside
    rw [Function.comp_apply]
    by_cases same : (f row.node).id = site.id
    · rw [onlyAt_of_eq same, own row inside same]
      exact fun named => symbol named row inside (located row inside same)
    · rw [onlyAt_of_ne same]
      exact revisited.symbol row inside
  · exact fun apart => (dependencies apart).trans (revisited.dependencies apart)

section Steps

variable (revisited : Revisited own settled workspace f) {site : Site}
  (member : site ∈ workspace.catalog.sites) (here : site.id = own)

include revisited member here

/-- Reading gives the content that is known already. -/
theorem parsed (read : ∀ row ∈ settled.catalog.rows, row.ContentRead) :
    Revisited own settled (workspace.parsed site)
      (onlyAt site.id (Node.read (source site)) ∘ f) := by
  obtain ⟨row, inside, same⟩ := revisited.reworked.mem_rows.mp (row_of_site member)
  have source : source site = row.source := by
    rw [← Site.source_row, ← same, revisited.inPlace.source_row]
  have node : site.node = f row.node := congrArg Row.node same.symm
  have known := read row inside
  refine revisited.step member here (revisited.coherent.afterParse member) rfl rfl
    (written_parsed workspace site) (reworked_parsed workspace site) (inPlace_read _) ?_ ?_ ?_ ?_
  · rw [node, revisited.content row inside, known.1, ← source]
    exact congrArg some (Content.written_read _)
  · rw [node, revisited.defects row inside, known.2, ← source]
    rfl
  · exact fun named => nomatch named
  · intro id apart
    rw [dependencies_parsed revisited.coherent.toSound member, if_neg apart]

/-- The symbol that is formed is the one the node had. -/
theorem normalized (named : ∀ row ∈ settled.catalog.rows, row.node.symbol = row.declaredSymbol?) :
    Revisited own settled (workspace.normalized site)
      (onlyAt site.id (Node.named site.declaredSymbol?) ∘ f) := by
  refine revisited.step member here (revisited.coherent.afterNormalize member) rfl rfl
    (written_normalized workspace site) (reworked_normalized workspace site) (inPlace_named _) rfl rfl
    ?_ fun _ => rfl
  intro _ row inside same
  show site.declaredSymbol? = _
  rw [named row inside, ← Site.declaredSymbol?_row, ← same, revisited.declaredSymbol? inside]

theorem resolved (ready : site.node.stage.reaches .normalized = true) :
    Revisited own settled (workspace.resolved site)
      (onlyAt site.id (Node.answered (workspace.answersAt site)) ∘ f) := by
  refine revisited.step member here (revisited.coherent.afterResolve member)
    (options_resolved workspace site) (transaction_resolved workspace site)
    (written_resolved workspace site) (reworked_resolved revisited.coherent.toSound member)
    (inPlace_answered _) (outline_answers fun _ => ⟨rfl, rfl⟩) rfl
    (fun _ _ inside same => revisited.symbol_site ready inside same) dependencies_resolved_of_ne

theorem rebound {id : ReferenceId} {reference : Reference} (owner : site.id = id.owner)
    (ready : site.node.stage.reaches .normalized = true)
    (held : site.node.reference? id.role = some reference) :
    Revisited own settled (workspace.applied id (workspace.evaluate id.owner reference))
      (onlyAt site.id
        (keepSlots id.role (workspace.evaluate id.owner reference).slots) ∘ f) := by
  have reworked : Catalog.Reworked
      (onlyAt site.id (keepSlots id.role (workspace.evaluate id.owner reference).slots))
      workspace.catalog (workspace.applied id (workspace.evaluate id.owner reference)).catalog := by
    rw [owner]
    exact reworked_applied workspace id _
  refine revisited.step member here (revisited.coherent.afterRebind member owner ready held) rfl rfl
    (written_applied workspace id _) reworked (inPlace_keepSlots _ _) (content_keepSlots _ _ _) rfl
    (fun _ _ inside same => revisited.symbol_site ready inside same) ?_
  intro other apart
  refine (Ledger.dependencies_record _ _ _ other).trans (if_neg fun same => apart ?_)
  rw [same, owner]

end Steps

/-- **Every step in the life of the node keeps all this**, and a refused one changes nothing. -/
theorem next (revisited : Revisited own settled workspace f) (upToDate : settled.Settled)
    {command : Command} (step : command.revisits own = true) :
    ∃ g, Revisited own settled (workspace.next command) g := by
  refine @next_of_perform _ _ (fun after => ∃ g, Revisited own settled after g) ⟨f, revisited⟩
    fun done => ?_
  cases command with
  | parse id =>
    obtain ⟨site, member, here, rfl⟩ := exists_parse_of_perform done
    exact ⟨_, revisited.parsed member (here.trans (of_decide_eq_true step)) upToDate.read⟩
  | normalize id =>
    obtain ⟨site, member, here, rfl⟩ := exists_normalize_of_perform done
    exact ⟨_, revisited.normalized member (here.trans (of_decide_eq_true step))
      fun row inside => (upToDate.upToDate row inside).symbol⟩
  | resolve id =>
    obtain ⟨site, member, here, ready, rfl⟩ := exists_resolve_of_perform done
    exact ⟨_, revisited.resolved member (here.trans (of_decide_eq_true step)) ready⟩
  | rebind id =>
    obtain ⟨site, member, owner, ready, reference, held, rfl⟩ := exists_rebind_of_perform done
    exact ⟨_, revisited.rebound member (owner.trans (of_decide_eq_true step)) owner ready held⟩
  | _ => exact nomatch step

/-! ### Resolved at the end -/

section Resolved

variable (revisited : Revisited own settled workspace f) {site : Site}
  (member : site ∈ workspace.catalog.sites) (here : site.id = own)
  (ready : site.node.stage.reaches .normalized = true)

include revisited member here

include ready

/-- The node is named, and the others have never changed. -/
theorem named : ∀ row ∈ settled.catalog.rows, (f row.node).symbol = row.node.symbol := by
  intro row inside
  by_cases isOwn : row.id = own
  · refine revisited.symbol row inside ?_
    rw [show f row.node = site.node from
      congrArg Row.node (revisited.eq_row member here inside isOwn)]
    exact ready
  · rw [revisited.others row.node isOwn]

/-- What the steps have made of the nodes once the node at the place is resolved. -/
def resolvedBy (f : Node → Node) (workspace : Workspace) (site : Site) : Node → Node :=
  onlyAt site.id (Node.answered (workspace.answersAt site)) ∘ f

omit revisited member here ready in
theorem symbol_resolvedBy (f : Node → Node) (workspace : Workspace) (site : Site) (node : Node) :
    (resolvedBy f workspace site node).symbol = (f node).symbol :=
  keeps_of_cases Node.symbol (onlyAt_cases site.id (Node.answered (workspace.answersAt site)))
    (fun _ => rfl) (f node)

omit ready in
/-- The node itself is answered afresh. -/
theorem resolvedBy_own {row : Row} (inside : row ∈ settled.catalog.rows) (isOwn : row.id = own) :
    resolvedBy f workspace site row.node = site.node.answered (workspace.answersAt site) := by
  have node : f row.node = site.node := congrArg Row.node (revisited.eq_row member here inside isOwn)
  unfold resolvedBy
  rw [Function.comp_apply, node]
  exact onlyAt_of_eq rfl

/-- The answer and the dependencies of every reference are those of an evaluation. -/
theorem answered_resolved (sound : settled.Sound) (upToDate : settled.Settled) {row : Row}
    (inside : row ∈ settled.catalog.rows) {reference : Reference}
    (owned : reference ∈ (resolvedBy f workspace site row.node).references) :
    reference.answer = some (settled.evaluate row.id reference).slots ∧
      (workspace.resolved site).ledger.dependencies ⟨row.id, reference.role⟩ =
        (settled.evaluate row.id reference).dependencies := by
  have later : Revisited own settled (workspace.resolved site) (resolvedBy f workspace site) :=
    revisited.resolved member here ready
  by_cases isOwn : row.id = own
  · -- the node has just been answered, when it saw what it saw before
    rw [revisited.resolvedBy_own member here inside isOwn, references_answered] at owned
    obtain ⟨original, listed, rfl⟩ := List.mem_map.mp owned
    have number : site.id = row.id := here.trans isOwn.symm
    have same : workspace.evaluate site.id original = settled.evaluate row.id original := by
      rw [number]
      exact revisited.evaluate sound (revisited.named member here ready) inside rfl rfl
    have recorded := dependencies_resolved_of_mem revisited.coherent.toSound member listed
    rw [same, number] at recorded
    exact ⟨congrArg (fun resolution => some resolution.slots) same, recorded⟩
  · -- the others have their answers and dependencies from before
    rw [later.others row.node isOwn] at owned
    have known := upToDate.upToDate row inside
    exact ⟨known.answers reference owned,
      (@dependencies _ _ _ _ later ⟨row.id, _⟩ isOwn).trans (known.dependencies reference owned)⟩

/-- **Once the node is resolved everything is up to date again.** -/
theorem settled_resolved (sound : settled.Sound) (upToDate : settled.Settled) :
    (workspace.resolved site).Settled := by
  have later : Revisited own settled (workspace.resolved site) (resolvedBy f workspace site) :=
    revisited.resolved member here ready
  have named : ∀ row ∈ settled.catalog.rows,
      (resolvedBy f workspace site row.node).symbol = row.node.symbol := fun row inside =>
    (symbol_resolvedBy f workspace site row.node).trans
      (revisited.named member here ready row inside)
  refine ⟨?_, ?_, ?_⟩
  · intro row live
    obtain ⟨row, inside, rfl⟩ := later.reworked.mem_rows.mp live
    have number : (row.map (resolvedBy f workspace site)).id = row.id :=
      later.inPlace.sameId row.node
    have evaluates : ∀ reference,
        (workspace.resolved site).evaluate row.id reference = settled.evaluate row.id reference :=
      fun reference => later.evaluate sound named inside rfl rfl
    refine ⟨?_, ?_, ?_⟩
    · rw [later.declaredSymbol? inside, ← (upToDate.upToDate row inside).symbol]
      exact named row inside
    · intro reference owned
      rw [number, evaluates]
      exact (revisited.answered_resolved member here ready sound upToDate inside owned).1
    · intro reference owned
      rw [number, evaluates]
      exact (revisited.answered_resolved member here ready sound upToDate inside owned).2
  · intro row live
    obtain ⟨row, inside, rfl⟩ := later.reworked.mem_rows.mp live
    by_cases isOwn : row.id = own
    · exact congrArg Node.stage (revisited.resolvedBy_own member here inside isOwn)
    · exact (congrArg Node.stage (later.others row.node isOwn)).trans (upToDate.resolved row inside)
  · intro row live
    obtain ⟨row, inside, rfl⟩ := later.reworked.mem_rows.mp live
    obtain ⟨content, defects⟩ := upToDate.read row inside
    unfold Row.ContentRead
    rw [later.inPlace.source_row, ← content, ← defects]
    exact ⟨later.content row inside, later.defects row inside⟩

end Resolved

/-- Whatever steps have been taken, and whichever of them were refused. -/
theorem after_steps (upToDate : settled.Settled) (coherent : settled.Coherent)
    {steps : List Command} (single : ∀ step ∈ steps, step.revisits own = true) :
    ∃ f, Revisited own settled (settled.after steps) f :=
  @after_of_next (fun workspace => ∃ f, Revisited own settled workspace f) steps
    (fun step inside ⟨_, revisited⟩ => revisited.next upToDate (single step inside)) settled
    ⟨id, .refl coherent own⟩

end Revisited

end Workspace

/-- **Steps in the life of one node may be taken again**: after a commit of a history of transactions,
steps of one node in any order, with refused ones among them, leave everything as it was as soon as
the node is resolved. -/
theorem alike_revisited {options : Options} (rebinds : options.rebindWaiting = true)
    {commands : List Command} (plain : ∀ command ∈ commands, command.isTransactional = true)
    {settled : Workspace} {report : Report}
    (done : ((Workspace.ofOptions options).after commands).commit = .ok (settled, report))
    {own : NodeId} {steps : List Command} (single : ∀ step ∈ steps, step.revisits own = true)
    {again : Workspace} {answer : Answer}
    (last : (settled.after steps).perform (.resolve own) = .ok (again, answer)) :
    settled.Alike again ∧ again.options = settled.options ∧
      again.transaction = settled.transaction := by
  obtain ⟨tended, upToDate, _⟩ := (Workspace.tended_after rebinds plain).commit done
  obtain ⟨f, revisited⟩ := Workspace.Revisited.after_steps upToDate tended.coherent single
  obtain ⟨site, member, here, ready, rfl⟩ := Workspace.exists_resolve_of_perform last
  have later := revisited.resolved member here ready
  have sound := tended.coherent.toSound
  refine ⟨?_, later.options, later.transaction⟩
  exact Workspace.alike_of_written upToDate
    (revisited.settled_resolved member here ready sound upToDate) sound later.coherent.toSound
    (congrArg Options.listSeparator later.options) (congrArg Catalog.documents later.written)

/-- Two types of one name, the first of which is its own base, and a set of them. -/
def ownBase : List Command :=
  [.load "shop.edmx" .conceptual
    (.node { Head.ofTag "Schema" with attributes := .ofList [("Namespace", "Shop")] }
      [.node { Head.ofTag "EntityType" with
          attributes := .ofList [("Name", "Item"), ("BaseType", "Shop.Item")] } [],
        .node { Head.ofTag "EntityType" with attributes := .ofList [("Name", "Item")] } [],
        .node (.ofTag "EntityContainer")
          [.node { Head.ofTag "EntitySet" with
            attributes := .ofList [("Name", "Items"), ("EntityType", "Shop.Item")] } []]])]

/-- The first type is read, looked at too early, named and looked at again. -/
def ownBaseSteps : List Command :=
  [.parse ⟨1⟩, .rebind ⟨⟨1⟩, "BaseType"⟩, .normalize ⟨1⟩, .rebind ⟨⟨1⟩, "BaseType"⟩]

/-- Read, the type has lost its name to the other one; resolved, it comes first again. -/
theorem alike_ownBase : ∃ settled report again answer,
    ((Workspace.ofOptions .standard).after ownBase).commit = .ok (settled, report) ∧
      settled.catalog.lookup (.ofText "Shop.Item") = [⟨1⟩, ⟨2⟩] ∧
      (settled.next (.parse ⟨1⟩)).catalog.lookup (.ofText "Shop.Item") = [⟨2⟩] ∧
      (settled.after ownBaseSteps).perform (.resolve ⟨1⟩) = .ok (again, answer) ∧
      settled.Alike again ∧ again.options = settled.options ∧
        again.transaction = settled.transaction := by
  have opened : ((Workspace.ofOptions .standard).after ownBase).transaction.isSome = true := by
    decide +kernel
  obtain ⟨after, report, done, reached⟩ := Workspace.exists_committed opened
  have both : ((Workspace.ofOptions .standard).after (ownBase ++ [.commit])).catalog.lookup
      (.ofText "Shop.Item") = [⟨1⟩, ⟨2⟩] := by decide +kernel
  have withdrawn : (((Workspace.ofOptions .standard).after (ownBase ++ [.commit])).next
      (.parse ⟨1⟩)).catalog.lookup (.ofText "Shop.Item") = [⟨2⟩] := by decide +kernel
  have succeeds : ((((Workspace.ofOptions .standard).after (ownBase ++ [.commit])).after
      ownBaseSteps).perform (.resolve ⟨1⟩)).isOk = true := by decide +kernel
  rw [reached] at both withdrawn succeeds
  cases last : (after.after ownBaseSteps).perform (.resolve ⟨1⟩) with
  | error failure =>
    rw [last] at succeeds
    exact nomatch succeeds
  | ok result =>
    exact ⟨after, report, result.1, result.2, done, both, withdrawn, last,
      alike_revisited rfl (by decide : ∀ command ∈ ownBase, command.isTransactional = true) done
        (by decide : ∀ step ∈ ownBaseSteps, step.revisits ⟨1⟩ = true) last⟩

end EntityModel
