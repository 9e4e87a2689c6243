import EntityModel.Proofs.Resolution.Targets
import EntityModel.Proofs.Workspace.Reachable

/-
**Resolving through the index is looking at every node.**

The index is a set without an order; what is found in it is sorted by computed places and filtered
by kind and layer. After every history the outcome is that of the plain search, which goes through
all nodes in document order and takes the first that will do.

* `Catalog.withSymbol`, `Catalog.eligible` — the plain search: the nodes with a symbol, and those
  among them that a rule admits.
* `ScanOutcome` — what the search says of a slot, case by case; `symbol_of_slot` — the symbol that is
  searched for is what the text of the slot is read as.
* `resolvesByScan_after` — **after every history the index and every slot of every evaluation agree
  with it.**
-/

namespace EntityModel

/-- The layer that documents of the space have, seen from a document of the owner's layer. -/
def TargetSpace.required (space : TargetSpace) (owner : Layer) : Layer :=
  match space with
  | .ownLayer => owner
  | .layer fixed => fixed

theorem TargetSpace.admits_some (space : TargetSpace) (owner layer : Layer) :
    space.admits (some owner) layer = decide (layer = space.required owner) := by
  rw [Bool.eq_iff_iff, decide_eq_true_eq]
  cases space with
  | ownLayer => exact beq_iff_eq.trans (Option.some_inj.trans eq_comm)
  | layer fixed => exact beq_iff_eq.trans eq_comm

namespace Catalog

/-- The places of the nodes that have the symbol, in document order. -/
def withSymbol (catalog : Catalog) (symbol : Symbol) : List Site :=
  catalog.sites.filter fun site => site.node.symbol = some symbol

/-- Those among them to which the rule lets a reference of the owner lead. -/
def eligible (catalog : Catalog) (rule : ReferenceRule) (owner : Site) (symbol : Symbol) :
    List Site :=
  (catalog.withSymbol symbol).filter fun site =>
    site.node.kind ∈ rule.expected ∧
      site.document.layer = rule.space.required owner.document.layer

/-- The outcome is what a search through all nodes finds for the symbol. -/
structure ScanOutcome (catalog : Catalog) (rule : ReferenceRule) (owner : Site) (symbol : Symbol)
    (outcome : Outcome) : Prop where
  empty : symbol.isEmpty = true → outcome = .undefined .empty
  /-- The first that is eligible is the target, and all of them are counted. -/
  known : symbol.isEmpty = false → ∀ first others,
    catalog.eligible rule owner symbol = first :: others →
      outcome = .known first.id (catalog.eligible rule owner symbol).length
  wrongKind : symbol.isEmpty = false → catalog.eligible rule owner symbol = [] →
    ∀ first others, catalog.withSymbol symbol = first :: others →
      outcome = .undefined (.wrongKind first.node.kind)
  notFound : symbol.isEmpty = false → catalog.withSymbol symbol = [] →
    outcome = .undefined .notFound

/-! ### The search over rows -/

/-- What declares a symbol that is not empty is what has it. -/
theorem map_row_withSymbol (catalog : Catalog) {symbol : Symbol} (real : symbol.isEmpty = false) :
    (catalog.withSymbol symbol).map Site.row = catalog.declaring symbol := by
  have same : ∀ site ∈ catalog.sites, decide (site.node.symbol = some symbol) =
      decide (site.row.node.declared? = some symbol) := by
    intro site _
    rw [decide_eq_decide, Node.declared?_eq_some_iff, and_iff_left real]
    exact Iff.rfl
  rw [declaring, ← map_row_sites, List.filter_map, withSymbol, List.filter_congr same]
  rfl

theorem candidates_eq_withSymbol (catalog : Catalog) {symbol : Symbol}
    (real : symbol.isEmpty = false) : catalog.candidates symbol =
      (catalog.withSymbol symbol).map fun site => site.row.candidate := by
  rw [candidates, ← catalog.map_row_withSymbol real, List.map_map]
  rfl

/-- The candidates that fit are the eligible nodes. -/
theorem filter_fits_candidates (catalog : Catalog) (rule : ReferenceRule) (owner : Site)
    {symbol : Symbol} (real : symbol.isEmpty = false) :
    (catalog.candidates symbol).filter (Candidate.fits rule (some owner.document.layer)) =
      (catalog.eligible rule owner symbol).map fun site => site.row.candidate := by
  have same : ∀ site ∈ catalog.withSymbol symbol,
      Candidate.fits rule (some owner.document.layer) site.row.candidate =
        decide (site.node.kind ∈ rule.expected ∧
          site.document.layer = rule.space.required owner.document.layer) := by
    intro site _
    rw [Candidate.fits, TargetSpace.admits_some, Bool.eq_iff_iff, Bool.and_eq_true,
      decide_eq_true_eq, decide_eq_true_eq, List.contains_iff_mem, and_comm]
    exact Iff.rfl
  rw [catalog.candidates_eq_withSymbol real, List.filter_map, eligible, ← List.filter_congr same]
  rfl

/-- Choosing among the candidates is searching. -/
theorem scanOutcome_choose (catalog : Catalog) (rule : ReferenceRule) (owner : Site)
    {symbol : Symbol} (real : symbol.isEmpty = false) : catalog.ScanOutcome rule owner symbol
      (Candidate.choose rule (some owner.document.layer) (catalog.candidates symbol)) := by
  have seen := catalog.candidates_eq_withSymbol real
  have fitting := catalog.filter_fits_candidates rule owner real
  refine ⟨fun blank => absurd blank (Bool.eq_false_iff.mp real), ?_, ?_, ?_⟩
  · intro _ first others found
    rw [found] at fitting ⊢
    unfold Candidate.choose
    rw [fitting]
    simp only [List.map_cons, List.length_map, List.length_cons]
    rfl
  · intro _ none first others declared
    rw [none] at fitting
    rw [declared] at seen
    unfold Candidate.choose
    rw [fitting, seen]
    rfl
  · intro _ declared
    rw [declared] at seen
    rw [seen]
    rfl

/-! ### Evaluations -/

section Exact

variable {catalog : Catalog} (numbered : catalog.Numbered) (exact : catalog.SymbolsExact)

include numbered exact

theorem lookup_eq_withSymbol {symbol : Symbol} (real : symbol.isEmpty = false) :
    catalog.lookup symbol = (catalog.withSymbol symbol).map Site.id := by
  rw [lookup_eq numbered exact, ← catalog.map_row_withSymbol real, List.map_map]
  rfl

theorem scanOutcome_of_slot {separator : Char} {owner : Site} (member : owner ∈ catalog.sites)
    {reference : Reference} {slot : Slot}
    (inside : slot ∈ (catalog.evaluate separator owner.id reference).slots) :
    catalog.ScanOutcome reference.rule owner slot.symbol slot.outcome := by
  cases real : slot.symbol.isEmpty with
  | true =>
    have nothing := outcome_of_empty numbered exact inside real
    have notReal : ∀ {anything : Prop}, slot.symbol.isEmpty = false → anything :=
      fun filled => nomatch real.symm.trans filled
    exact ⟨fun _ => nothing, notReal, notReal, notReal⟩
  | false =>
    have here : catalog.row? owner.id = some owner.row :=
      numbered.row?_of_mem (row_mem_rows member)
    rw [outcome_of_slot numbered exact inside real, here]
    exact catalog.scanOutcome_choose reference.rule owner real

omit exact in
/-- The symbol of a slot is what its text is read as. -/
theorem symbol_of_slot {separator : Char} {owner : Site} (member : owner ∈ catalog.sites)
    {reference : Reference} {slot : Slot}
    (inside : slot ∈ (catalog.evaluate separator owner.id reference).slots) :
    slot.symbol = if slot.text.isEmpty then .empty
      else (catalog.readName separator (.of (some owner)) reference.rule.reading slot.text).symbol := by
  have here : catalog.row? owner.id = some owner.row :=
    numbered.row?_of_mem (row_mem_rows member)
  by_cases absent : reference.texts separator = []
  · rw [evaluate_of_no_texts catalog owner.id absent] at inside
    rw [List.mem_singleton.mp inside]
    rfl
  · rw [evaluate_of_texts catalog owner.id absent, here] at inside
    obtain ⟨_, made, rfl⟩ := List.mem_map.mp inside
    obtain ⟨text, _, rfl⟩ := List.mem_map.mp made
    rw [text_readSlot]
    unfold readSlot
    split
    · rfl
    · rfl

end Exact

/-- An evaluation has one slot for each text, and an empty one for a reference without text. -/
theorem map_text_slots (catalog : Catalog) (separator : Char) (owner : NodeId)
    (reference : Reference) : (catalog.evaluate separator owner reference).slots.map Slot.text =
      if reference.texts separator = [] then [""] else reference.texts separator := by
  by_cases absent : reference.texts separator = []
  · rw [if_pos absent, evaluate_of_no_texts catalog owner absent]
    rfl
  · rw [if_neg absent, evaluate_of_texts catalog owner absent, gather, List.map_map, List.map_map]
    refine (List.map_congr_left fun text _ => ?_).trans (List.map_id _)
    exact text_readSlot catalog (catalog.row? owner) reference.rule text

end Catalog

namespace Workspace

/-- Looking up and evaluating find what a search through all nodes in document order finds. -/
structure ResolvesByScan (workspace : Workspace) : Prop where
  lookup : ∀ symbol : Symbol, symbol.isEmpty = false →
    workspace.catalog.lookup symbol = (workspace.catalog.withSymbol symbol).map Site.id
  /-- No text goes without a slot. -/
  texts : ∀ (owner : NodeId) (reference : Reference),
    (workspace.evaluate owner reference).slots.map Slot.text =
      if reference.texts workspace.options.listSeparator = [] then [""]
      else reference.texts workspace.options.listSeparator
  /-- A text that is not empty is read from the place of the owner. -/
  symbols : ∀ owner ∈ workspace.catalog.sites, ∀ (reference : Reference),
    ∀ slot ∈ (workspace.evaluate owner.id reference).slots, slot.symbol =
      if slot.text.isEmpty then .empty
      else (workspace.catalog.readName workspace.options.listSeparator (.of (some owner))
        reference.rule.reading slot.text).symbol
  slots : ∀ owner ∈ workspace.catalog.sites, ∀ (reference : Reference),
    ∀ slot ∈ (workspace.evaluate owner.id reference).slots,
      workspace.catalog.ScanOutcome reference.rule owner slot.symbol slot.outcome

/-- **After every history, resolving through the index is looking at every node.** -/
theorem resolvesByScan_after (options : Options) (commands : List Command) :
    ((ofOptions options).after commands).ResolvesByScan := by
  have coherent := coherent_after options commands
  generalize (ofOptions options).after commands = workspace at coherent
  refine ⟨fun symbol real => ?_, fun owner reference => ?_, fun owner member reference slot => ?_,
    fun owner member reference slot => ?_⟩
  · exact Catalog.lookup_eq_withSymbol coherent.numbered coherent.exact real
  · exact workspace.catalog.map_text_slots workspace.options.listSeparator owner reference
  · exact Catalog.symbol_of_slot coherent.numbered member
  · exact Catalog.scanOutcome_of_slot coherent.numbered coherent.exact member

/-- A set stands before two types of one name in its layer, and behind one in another layer. -/
def twiceDeclared : List Command :=
  [.load "shop.ssdl" .storage
      (.node { Head.ofTag "Schema" with attributes := .ofList [("Namespace", "Shop")] }
        [.node { Head.ofTag "EntityType" with attributes := .ofList [("Name", "Item")] } []]),
    .load "shop.csdl" .conceptual
      (.node { Head.ofTag "Schema" with attributes := .ofList [("Namespace", "Shop")] }
        [.node { Head.ofTag "EntityContainer" with attributes := .ofList [("Name", "Stock")] }
          [.node { Head.ofTag "EntitySet" with
            attributes := .ofList [("Name", "Items"), ("EntityType", "Shop.Item")] } []],
          .node { Head.ofTag "EntityType" with attributes := .ofList [("Name", "Item")] } []]),
    .load "more.csdl" .conceptual
      (.node { Head.ofTag "Schema" with attributes := .ofList [("Namespace", "Shop")] }
        [.node { Head.ofTag "EntityType" with attributes := .ofList [("Name", "Item")] } []]),
    .commit]

/-- Three types have the name, two of them are eligible, and the first of these is the target. -/
theorem resolvesByScan_twiceDeclared :
    ((ofOptions .standard).after twiceDeclared).ResolvesByScan ∧
      ((ofOptions .standard).after twiceDeclared).catalog.lookup (.ofText "Shop.Item") =
        [⟨1⟩, ⟨5⟩, ⟨7⟩] ∧
      ∃ reference ∈ ((ofOptions .standard).after twiceDeclared).reference? ⟨⟨4⟩, "EntityType"⟩,
        (((ofOptions .standard).after twiceDeclared).evaluate ⟨4⟩ reference).slots =
          [⟨"Shop.Item", .ofText "Shop.Item", .known ⟨5⟩ 2⟩] :=
  ⟨resolvesByScan_after .standard twiceDeclared, by decide +kernel, by decide +kernel⟩

end Workspace

end EntityModel
