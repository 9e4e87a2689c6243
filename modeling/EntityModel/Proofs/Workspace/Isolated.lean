import EntityModel.Proofs.Findings.Renumbering
import EntityModel.Proofs.Workspace.Reachable

/-
**What edits leave as it was until the commit.**

The edits of a transaction change the trees and the written forms at once. What the last commit has
found out is read from neither, so every question has the answer it had before the edits.

* `Node.Kept` — a node is as it was, apart from its written form and its stage.
* `Isolated` — every node that was there is kept, and the lookups, the ledger, the evaluations and the
  findings are the same.
* `Isolated.of_reworked`, `Isolated.of_grown` — the edits that change a node or plant a tree.
* `isolated_after` — **any edits after any history leave all this as it was.**
-/

namespace EntityModel

/-- The node is as it was, apart from its written form and its stage. -/
structure Node.Kept (node later : Node) : Prop where
  id : later.id = node.id
  kind : later.kind = node.kind
  symbol : later.symbol = node.symbol
  /-- The name, the fields, and the references with their slots. -/
  content : later.content = node.content
  defects : later.defects = node.defects
  span : later.head.span = node.head.span

theorem Node.Kept.refl (node : Node) : node.Kept node :=
  ⟨rfl, rfl, rfl, rfl, rfl, rfl⟩

theorem Node.Kept.trans {node between later : Node} (first : node.Kept between)
    (second : between.Kept later) : node.Kept later :=
  ⟨second.id.trans first.id, second.kind.trans first.kind, second.symbol.trans first.symbol,
    second.content.trans first.content, second.defects.trans first.defects,
    second.span.trans first.span⟩

theorem Rewrites.kept {change : Node → Node} (rewrites : Rewrites change) (node : Node) :
    node.Kept (change node) := by
  obtain ⟨head, stage, start, _, same⟩ := rewrites node
  rw [same]
  exact ⟨rfl, rfl, rfl, rfl, rfl, start.span⟩

/-- Items that give nothing may be left out. -/
theorem flatMap_eq_filter {α β : Type} {f : α → List β} {keeps : α → Bool} {items : List α}
    (nothing : ∀ item ∈ items, keeps item = false → f item = []) :
    items.flatMap f = (items.filter keeps).flatMap f := by
  induction items with
  | nil => rfl
  | cons item items ih =>
    have rest := ih fun other member => nothing other (List.mem_cons_of_mem _ member)
    cases kept : keeps item with
    | true => rw [List.filter_cons_of_pos kept, List.flatMap_cons, List.flatMap_cons, rest]
    | false =>
      rw [List.filter_cons_of_neg (by rw [kept]; exact Bool.false_ne_true), List.flatMap_cons,
        nothing item List.mem_cons_self kept, List.nil_append, rest]

namespace Catalog

/-- The problems of a node that is kept are the same where the lookups are. -/
theorem problems_of_kept {before after : Catalog}
    (lookup : ∀ symbol, after.lookup symbol = before.lookup symbol) (checkNames : Bool)
    {node later : Node} (kept : node.Kept later) :
    after.problems checkNames later = before.problems checkNames node := by
  have declared : later.declared? = node.declared? := by
    unfold Node.declared?
    rw [kept.symbol]
  have name : later.nameProblem? = node.nameProblem? := by
    unfold Node.nameProblem? Node.name
    rw [kept.kind, kept.content]
  have references : later.references = node.references := by
    unfold Node.references
    rw [kept.content]
  unfold problems declarationProblem? declaring?
  simp only [declared, name, references, kept.defects, kept.kind, kept.id, lookup]

/-- A node of which nothing is known has no problems. -/
theorem problems_ofDraft (catalog : Catalog) (checkNames : Bool) (number : Nat) (form : Draft) :
    catalog.problems checkNames (.ofDraft number form) = [] := by
  have nameless : (Node.ofDraft number form).nameProblem? = none := by
    unfold Node.nameProblem?
    split
    · rfl
    · rfl
  unfold problems
  rw [nameless]
  cases checkNames with
  | false => rfl
  | true => rfl

section Steps

variable {before after : Catalog}

theorem Reworked.lookup {f : Node → Node} (reworked : Reworked f before after)
    (numbered : before.Numbered) (exact : before.SymbolsExact) (later : after.Numbered)
    (laterExact : after.SymbolsExact) (kept : ∀ node : Node, node.Kept (f node))
    (symbol : Symbol) : after.lookup symbol = before.lookup symbol := by
  rw [lookup_eq later laterExact, lookup_eq numbered exact,
    declaring_renamed reworked.rows (fun row _ => (kept row.node).symbol), List.map_map]
  exact List.map_congr_left fun row _ => (kept row.node).id

theorem Grown.lookup {draft : Tree Draft} {layer : Layer} {upper : List Node}
    (grown : Grown draft layer upper before after) (numbered : before.Numbered)
    (exact : before.SymbolsExact) (symbol : Symbol) :
    after.lookup symbol = before.lookup symbol := by
  rw [lookup_eq (grown.numbered_after numbered) (grown.symbolsExact numbered exact),
    lookup_eq numbered exact, grown.declaring numbered]

end Steps

end Catalog

namespace Workspace

/-- All that was known before is known after, and nothing else. -/
structure Isolated (before after : Workspace) : Prop where
  lookup : ∀ symbol, after.catalog.lookup symbol = before.catalog.lookup symbol
  nodes : ∀ id node, before.catalog.node? id = some node →
    ∃ later, after.catalog.node? id = some later ∧ node.Kept later
  /-- So all questions about dependencies have the same answers. -/
  ledger : after.ledger = before.ledger
  evaluate : ∀ id reference, before.reference? id = some reference →
    after.evaluate id.owner reference = before.evaluate id.owner reference
  findings : after.findings = before.findings

namespace Isolated

theorem refl (workspace : Workspace) : workspace.Isolated workspace :=
  ⟨fun _ => rfl, fun _ node found => ⟨node, found, .refl node⟩, rfl, fun _ _ _ => rfl, rfl⟩

theorem reference? {before after : Workspace} (isolated : before.Isolated after) {id : ReferenceId}
    {reference : Reference} (held : before.reference? id = some reference) :
    after.reference? id = some reference := by
  obtain ⟨node, found, own⟩ := Option.bind_eq_some_iff.mp held
  obtain ⟨later, there, kept⟩ := isolated.nodes id.owner node found
  unfold Workspace.reference? Node.reference? Node.references at *
  rw [there, Option.bind_some, kept.content]
  exact own

theorem trans {before between after : Workspace} (first : before.Isolated between)
    (second : between.Isolated after) : before.Isolated after := by
  refine ⟨fun symbol => (second.lookup symbol).trans (first.lookup symbol), ?_,
    second.ledger.trans first.ledger, ?_, second.findings.trans first.findings⟩
  · intro id node found
    obtain ⟨middle, there, kept⟩ := first.nodes id node found
    obtain ⟨later, held, still⟩ := second.nodes id middle there
    exact ⟨later, held, kept.trans still⟩
  · intro id reference held
    exact (second.evaluate id reference (first.reference? held)).trans
      (first.evaluate id reference held)

/-- Only the transaction changes. -/
theorem of_transaction (workspace : Workspace) (transaction : Option Transaction) :
    workspace.Isolated { workspace with transaction } :=
  ⟨fun _ => rfl, fun _ node found => ⟨node, found, .refl node⟩, rfl, fun _ _ _ => rfl, rfl⟩

/-- Nodes change in their written form. -/
theorem of_reworked {before after : Workspace} {f : Node → Node} (sound : before.Sound)
    (later : after.Sound) (reworked : Catalog.Reworked f before.catalog after.catalog)
    (outlines : KeepsOutline f) (kept : ∀ node : Node, node.Kept (f node))
    (ledger : after.ledger = before.ledger) (options : after.options = before.options) :
    before.Isolated after := by
  have lookup : ∀ symbol, after.catalog.lookup symbol = before.catalog.lookup symbol :=
    reworked.lookup sound.numbered sound.exact later.numbered later.exact kept
  refine ⟨lookup, ?_, ledger, ?_, ?_⟩
  · intro id node found
    refine ⟨f node, ?_, kept node⟩
    rw [reworked.node? outlines.sameId, found]
    rfl
  · intro id reference held
    obtain ⟨site, member, owner, _⟩ := exists_site_of_reference held
    rw [← owner]
    exact evaluate_reworked sound later reworked outlines (fun node => (kept node).symbol) options
      (row_of_site member) reference
  · unfold Workspace.findings
    rw [options, Catalog.findings_eq, Catalog.findings_eq, reworked.rows, List.flatMap_map]
    refine List.flatMap_congr fun row _ => ?_
    show (after.catalog.problems _ (f row.node)).map
      (fun problem => (⟨(f row.node).id, problem, (f row.node).head.span⟩ : Finding)) = _
    rw [Catalog.problems_of_kept lookup _ (kept row.node), (kept row.node).id, (kept row.node).span]
    rfl

/-- A tree is planted: nothing is known of its nodes yet. -/
theorem of_grown {workspace : Workspace} {draft : Tree Draft} {layer : Layer} {upper : List Node}
    {after : Catalog} (sound : workspace.Sound)
    (grown : Catalog.Grown draft layer upper workspace.catalog after)
    (change : Transaction → Transaction) :
    workspace.Isolated ({ workspace with catalog := after }.changeTransaction change) := by
  have lookup : ∀ symbol, after.lookup symbol = workspace.catalog.lookup symbol :=
    grown.lookup sound.numbered sound.exact
  refine ⟨lookup, ?_, rfl, ?_, ?_⟩
  · exact fun id node found => ⟨node, grown.node?_of_old sound.numbered found, .refl node⟩
  · intro id reference held
    obtain ⟨site, member, owner, _⟩ := exists_site_of_reference held
    exact grown.evaluate sound.numbered sound.exact
      (Catalog.contains_iff.mpr ⟨site.row, row_of_site member, owner⟩)
  · show after.findings _ = workspace.catalog.findings _
    rw [Catalog.findings_eq, Catalog.findings_eq,
      @flatMap_eq_filter _ _ _ (fun row => decide (row.id.number < workspace.catalog.nextNode)),
      grown.filter_old sound.numbered]
    · refine List.flatMap_congr fun row _ => ?_
      rw [Catalog.problems_of_kept lookup _ (.refl row.node)]
      rfl
    · intro row member new
      rcases grown.mem_rows.mp member with old | planted
      · rw [decide_eq_true (sound.numbered.below row old)] at new
        exact nomatch new
      · obtain ⟨⟨number, form, same⟩, _⟩ := Catalog.fresh_of_rowsBelow planted
        rw [same, Catalog.problems_ofDraft]
        rfl

/-- **An edit leaves all that was known as it was.** -/
theorem edit {fits : Site → Element → Prop} {before after : Workspace} (coherent : before.Coherent)
    (edit : Edit fits before after) : before.Isolated after := by
  have later := coherent.edit edit
  cases edit with
  | «open» closed => exact of_transaction before _
  | @write id change rewrites =>
    exact of_reworked coherent.toSound later.toSound
      (Catalog.reworked_modify before.catalog rewrites.inPlaceBut id)
      (rewrites.only id).keepsOutline (rewrites.only id).kept rfl rfl
  | load uri layer root =>
    exact of_grown coherent.toSound (Catalog.grown_addDocument _ uri layer root) fun transaction =>
      { transaction with
        inserted := transaction.inserted.insert
          (before.catalog.plant (draft none (.ofRoot layer root.label.tag) root)).label.id }
  | insert member fit =>
    exact of_grown coherent.toSound (Catalog.grown_insertUnder coherent.numbered member _ _) _
  | unload member => exact of_transaction before _
  | delete member => exact of_transaction before _

theorem edits {fits : Site → Element → Prop} {before after : Workspace} (coherent : before.Coherent)
    (edits : Edits fits before after) : before.Isolated after := by
  induction edits with
  | refl => exact .refl before
  | @tail between after reached step ih =>
    have reached : Edits fits before between := reached
    exact ih.trans (.edit (coherent.edits reached) step)

end Isolated

end Workspace

/-- **Until the commit all questions have the answers they had before the edits**, whatever edits
are made, and in whatever order. -/
theorem isolated_after (options : Options) (history : List Command) {edits : List Command}
    (pending : ∀ command ∈ edits, command.isEdit = true) :
    ((Workspace.ofOptions options).after history).Isolated
      (((Workspace.ofOptions options).after history).after edits) := by
  have coherent := Workspace.coherent_after options history
  generalize (Workspace.ofOptions options).after history = before at coherent
  have reached := @Workspace.after_of_next
    (fun workspace => workspace.Coherent ∧ before.Isolated workspace) edits
    (fun {workspace} command member kept => by
      refine ⟨kept.1.next command, @Workspace.next_of_perform _ _
        (fun after => before.Isolated after) kept.2 fun done => kept.2.trans ?_⟩
      exact .edits kept.1 (@Workspace.edits_of_perform (fun _ _ => True) _ _ _ _
        (pending command member) done fun _ _ _ _ _ _ => trivial))
    before ⟨coherent, .refl before⟩
  exact reached.2

/-- A schema with a type and a set of it is loaded and committed. -/
def shopSchema : List Command :=
  [.load "shop.edmx" .conceptual
    (.node { Head.ofTag "Schema" with attributes := .ofList [("Namespace", "Shop")] }
      [.node { Head.ofTag "EntityType" with attributes := .ofList [("Name", "Item")] } [],
        .node { Head.ofTag "EntityContainer" with attributes := .ofList [("Name", "Stock")] }
          [.node { Head.ofTag "EntitySet" with
            attributes := .ofList [("Name", "Items"), ("EntityType", "Shop.Item")] } []]]),
    .commit]

/-- The type is renamed with the references to it, another one is planted in front of it, the
container is to go, and a node that is not there is asked for a name. -/
def shopEdits : List Command :=
  [.renameWithReferences ⟨1⟩ "Article",
    .insertElement ⟨0⟩ (some 0)
      (.node { Head.ofTag "EntityType" with attributes := .ofList [("Name", "Item")] } []),
    .deleteNode ⟨2⟩, .renameNode ⟨9⟩ "Nothing"]

theorem isolated_shopEdits : (∀ command ∈ shopEdits, command.isEdit = true) ∧
    ((Workspace.ofOptions .standard).after shopSchema).Isolated
      (((Workspace.ofOptions .standard).after shopSchema).after shopEdits) :=
  ⟨by decide, isolated_after .standard shopSchema (by decide)⟩

end EntityModel
