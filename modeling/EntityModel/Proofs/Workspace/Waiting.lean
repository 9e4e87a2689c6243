import EntityModel.Proofs.Workspace.Revised

/-
**What is outdated where slots that wait are left alone.**

With the option off, a symbol that comes to be declared is not looked up again for the slots that had
found nothing under it. So an answer may fall behind an evaluation, and only there.

* `Node.BlanksMarked` — a slot without a symbol is marked as one for which nothing was looked up.
* `blanksMarked_evaluate`, `blanksMarked_after` — evaluations mark their slots so, hence everything
  kept after any history of transactions does.
* `Slot.Trails` — a slot kept against a fresh one: the same, or one that waits for a symbol.
* `trails_after` — **after every commit every slot kept trails the fresh one**, whatever the option.
-/

namespace EntityModel

/-! ### Slots without a symbol -/

/-- Where the slots stand for no symbol, nothing was looked up for them. -/
def Slot.BlanksMarked (slots : List Slot) : Prop :=
  ∀ slot ∈ slots, slot.symbol.isEmpty = true → slot.outcome = .undefined .empty

/-- All slots kept by the node are marked so. -/
def Node.BlanksMarked (node : Node) : Prop :=
  ∀ reference ∈ node.references, Slot.BlanksMarked reference.slots

theorem Catalog.blank_evaluateText (catalog : Catalog) (separator : Char) (owner : Option Site)
    (rule : ReferenceRule) (text : String)
    (blank : (catalog.evaluateText separator owner rule text).1.symbol.isEmpty = true) :
    (catalog.evaluateText separator owner rule text).1.outcome = .undefined .empty := by
  unfold Catalog.evaluateText at blank ⊢
  by_cases bare : text.isEmpty = true
  · rw [if_pos bare]
  · rw [if_neg bare] at blank ⊢
    exact if_pos blank

/-- **An evaluation marks the slots for which it looks nothing up.** -/
theorem Catalog.blanksMarked_evaluate (catalog : Catalog) (separator : Char) (owner : NodeId)
    (reference : Reference) :
    Slot.BlanksMarked (catalog.evaluate separator owner reference).slots := by
  intro slot member blank
  unfold Catalog.evaluate at member
  split at member
  · obtain rfl := List.mem_singleton.mp member
    rfl
  · obtain ⟨part, inside, rfl⟩ := List.mem_map.mp member
    obtain ⟨text, _, rfl⟩ := List.mem_map.mp inside
    exact catalog.blank_evaluateText separator _ _ text blank

namespace Workspace

/-- All slots kept by the nodes are marked so. -/
def BlanksMarked (workspace : Workspace) : Prop :=
  ∀ row ∈ workspace.catalog.rows, row.node.BlanksMarked

theorem blanksMarked_ofOptions (options : Options) : (ofOptions options).BlanksMarked :=
  fun _ member => absurd member List.not_mem_nil

theorem blanksMarked_ofDraft (number : Nat) (form : Draft) :
    (Node.ofDraft number form).BlanksMarked :=
  fun _ inside => absurd inside List.not_mem_nil

theorem blanksMarked_answered (workspace : Workspace) (owner : NodeId) (node : Node) :
    (node.answered (workspace.evaluate owner)).BlanksMarked := by
  intro reference inside
  rw [references_answered] at inside
  obtain ⟨original, _, rfl⟩ := List.mem_map.mp inside
  exact workspace.catalog.blanksMarked_evaluate _ owner original

section Steps

variable {fits : Site → Element → Prop} {workspace after : Workspace}
  (marked : workspace.BlanksMarked)

include marked

theorem BlanksMarked.grown {draft : Tree Draft} {layer : Layer} {upper : List Node}
    (grown : Catalog.Grown draft layer upper workspace.catalog after.catalog) :
    after.BlanksMarked := by
  intro row member
  rcases grown.mem_rows.mp member with old | new
  · exact marked row old
  · obtain ⟨⟨number, form, same⟩, _⟩ := Catalog.fresh_of_rowsBelow new
    rw [same]
    exact blanksMarked_ofDraft number form

theorem BlanksMarked.edit (coherent : workspace.Coherent) (edit : Edit fits workspace after) :
    after.BlanksMarked := by
  cases edit with
  | «open» closed => exact marked
  | @write id change rewrites =>
    intro row member
    have reworked := Catalog.reworked_modify workspace.catalog rewrites.inPlaceBut id
    obtain ⟨earlier, before, rfl⟩ := reworked.mem_rows.mp member
    show (onlyAt id change earlier.node).BlanksMarked
    rw [Node.BlanksMarked, (rewrites.only id).references]
    exact marked earlier before
  | load uri layer root => exact marked.grown (Catalog.grown_addDocument _ uri layer root)
  | insert member fit =>
    exact marked.grown (Catalog.grown_insertUnder coherent.numbered member _ _)
  | unload member => exact marked
  | delete member => exact marked

theorem BlanksMarked.edits (coherent : workspace.Coherent) (edits : Edits fits workspace after) :
    after.BlanksMarked := by
  induction edits with
  | refl => exact marked
  | tail before edit ih => exact ih.edit (coherent.edits before) edit

/-- The nodes a commit deals with are given the answers of an evaluation, the others keep theirs. -/
theorem BlanksMarked.commit {report : Report} (coherent : workspace.Coherent)
    (done : workspace.commit = .ok (after, report)) : after.BlanksMarked := by
  obtain ⟨transaction, course, opened, runs, rfl⟩ := coherent.runs_of_commit done
  intro row member
  obtain ⟨earlier, live, rfl⟩ := runs.reworked.mem_rows.mp member
  show (course.change earlier.node).BlanksMarked
  by_cases busy : earlier.id ∈ course.work ++ course.rebound
  · rw [Course.change_of_mem busy]
    exact blanksMarked_answered _ _ _
  · rw [runs.change_of_not_mem busy]
    exact marked earlier (runs.removal.mem_rows.mp live).1

theorem BlanksMarked.rebind (id : ReferenceId) (reference : Reference) :
    (workspace.applied id (workspace.evaluate id.owner reference)).BlanksMarked := by
  intro row member
  have reworked := reworked_applied workspace id (workspace.evaluate id.owner reference)
  obtain ⟨earlier, before, rfl⟩ := reworked.mem_rows.mp member
  show (onlyAt id.owner (keepSlots id.role (workspace.evaluate id.owner reference).slots)
    earlier.node).BlanksMarked
  rcases onlyAt_cases id.owner (keepSlots id.role (workspace.evaluate id.owner reference).slots)
    earlier.node with same | same
  · rw [same]
    intro kept inside
    obtain ⟨original, owned, _, rfl⟩ := mem_references_keepSlots inside
    split
    · exact workspace.catalog.blanksMarked_evaluate _ id.owner reference
    · exact marked earlier before original owned
  · rw [same]
    exact marked earlier before

theorem BlanksMarked.turn (coherent : workspace.Coherent) (turn : Turn fits workspace after) :
    after.BlanksMarked := by
  cases turn with
  | edit edits => exact marked.edits coherent edits
  | commit edits done => exact (marked.edits coherent edits).commit (coherent.edits edits) done
  | rebind member owner ready held => exact marked.rebind _ _

end Steps

/-- **After any history of transactions** all slots without a symbol are marked so. -/
theorem blanksMarked_after (options : Options) {commands : List Command}
    (plain : ∀ command ∈ commands, command.isTransactional = true) :
    ((ofOptions options).after commands).BlanksMarked :=
  after_of_turn plain (fun coherent marked turn => marked.turn coherent turn)
    (coherent_ofOptions options) (blanksMarked_ofOptions options)

end Workspace

/-! ### Slots kept and fresh ones -/

/-- The slot has found nothing under the symbol it stands for. -/
def Slot.Waits (slot : Slot) : Prop :=
  slot.isKnown = false ∧ slot.symbol.isEmpty = false

/-- The slot kept is the fresh one, unless it waits for its symbol. -/
structure Slot.Trails (kept fresh : Slot) : Prop where
  text : kept.text = fresh.text
  symbol : kept.symbol = fresh.symbol
  known : kept.isKnown = true → kept = fresh
  blank : kept.symbol.isEmpty = true → kept = fresh
  waits : kept ≠ fresh → kept.Waits

theorem Slot.Lasts.trails {rebinds : Bool} {kept fresh : Slot} (lasts : kept.Lasts rebinds fresh)
    (marked : kept.symbol.isEmpty = true → kept.outcome = .undefined .empty)
    (markedFresh : fresh.symbol.isEmpty = true → fresh.outcome = .undefined .empty) :
    kept.Trails fresh := by
  have known : kept.isKnown = true → kept = fresh := fun known => lasts.eq (Or.inr known)
  have blank : kept.symbol.isEmpty = true → kept = fresh := by
    intro blank
    have outcome : kept.outcome = fresh.outcome :=
      (marked blank).trans (markedFresh (lasts.symbol ▸ blank)).symm
    exact (Slot.mk.injEq ..).mpr ⟨lasts.text, lasts.symbol, outcome⟩
  refine ⟨lasts.text, lasts.symbol, known, blank, fun differs => ⟨?_, ?_⟩⟩
  · exact Bool.eq_false_iff.mpr fun found => differs (known found)
  · exact Bool.eq_false_iff.mpr fun bare => differs (blank bare)

/-- The slots kept for a reference trail those of an evaluation. -/
theorem Workspace.Lasting.trails {workspace : Workspace} {owner : NodeId} {reference : Reference}
    (lasting : workspace.Lasting owner reference) (marked : Slot.BlanksMarked reference.slots) :
    List.Forall₂ Slot.Trails reference.slots (workspace.evaluate owner reference).slots := by
  obtain ⟨slots, answer, pairs⟩ := lasting.slots
  have same : reference.slots = slots := by
    rw [Reference.slots, answer, Option.getD_some]
  rw [same] at marked ⊢
  refine List.forall₂_iff_get.mpr ⟨pairs.length_eq, fun i inside insideFresh => ?_⟩
  exact (pairs.get inside insideFresh).trails (marked _ (List.get_mem slots ⟨i, inside⟩))
    (workspace.catalog.blanksMarked_evaluate _ owner reference _ (List.get_mem _ ⟨i, insideFresh⟩))

/-- **After every commit the slots kept are those of an evaluation, but for some that wait**: the
same number of them with the same texts and symbols, and where one differs it has found nothing under
a symbol. -/
theorem trails_after {options : Options} {commands : List Command}
    (plain : ∀ command ∈ commands, command.isTransactional = true) {after : Workspace}
    {report : Report}
    (done : ((Workspace.ofOptions options).after commands).commit = .ok (after, report)) :
    ∀ site ∈ after.catalog.sites, ∀ reference ∈ site.node.references,
      List.Forall₂ Slot.Trails reference.slots (after.evaluate site.id reference).slots := by
  obtain ⟨steady, closed⟩ := (Workspace.steady_after options plain).commit done
  have marked := (Workspace.blanksMarked_after options plain).commit
    (Workspace.steady_after options plain).coherent done
  intro site member reference inside
  have live := Workspace.row_of_site member
  exact (steady.lasting (Workspace.current_of_closed closed) live inside).trails
    (marked site.row live reference inside)

/-- The standard options, with slots that wait left alone. -/
def Options.leavingAlone : Options := { Options.standard with rebindWaiting := false }

/-- A set is loaded before the type of its entities, which is planted after the first commit. -/
def lateType : List Command :=
  [.load "shop.edmx" .conceptual
    (.node { Head.ofTag "Schema" with attributes := .ofList [("Namespace", "Shop")] }
      [.node { Head.ofTag "EntityContainer" with attributes := .ofList [("Name", "Stock")] }
        [.node { Head.ofTag "EntitySet" with
          attributes := .ofList [("Name", "Items"), ("EntityType", "Shop.Item")] } []]]),
    .commit,
    .insertElement ⟨0⟩ none
      (.node { Head.ofTag "EntityType" with attributes := .ofList [("Name", "Item")] } [])]

/-- The set still waits for its type after the second commit. -/
theorem trails_after_lateType : ∃ after report reference,
    ((Workspace.ofOptions .leavingAlone).after lateType).commit = .ok (after, report) ∧
      after.reference? ⟨⟨2⟩, "EntityType"⟩ = some reference ∧
      reference.slots = [⟨"Shop.Item", .ofText "Shop.Item", .undefined .notFound⟩] ∧
      (after.evaluate ⟨2⟩ reference).slots = [⟨"Shop.Item", .ofText "Shop.Item", .known ⟨3⟩ 1⟩] ∧
      ∀ site ∈ after.catalog.sites, ∀ reference ∈ site.node.references,
        List.Forall₂ Slot.Trails reference.slots (after.evaluate site.id reference).slots := by
  have opened : ((Workspace.ofOptions .leavingAlone).after lateType).transaction.isSome = true := by
    decide +kernel
  obtain ⟨transaction, opens⟩ := Option.isSome_iff_exists.mp opened
  obtain ⟨course, _, report, done⟩ := exists_run (Workspace.coherent_after _ lateType) opens
  have reached := Workspace.after_commit done
  rw [← Workspace.after_append] at reached
  have stale : ∃ reference ∈ ((Workspace.ofOptions .leavingAlone).after
        (lateType ++ [.commit])).reference? ⟨⟨2⟩, "EntityType"⟩,
      reference.slots = [⟨"Shop.Item", .ofText "Shop.Item", .undefined .notFound⟩] ∧
        (((Workspace.ofOptions .leavingAlone).after (lateType ++ [.commit])).evaluate ⟨2⟩
          reference).slots = [⟨"Shop.Item", .ofText "Shop.Item", .known ⟨3⟩ 1⟩] := by
    decide +kernel
  rw [reached] at stale
  obtain ⟨reference, found, kept, fresh⟩ := stale
  have plain : ∀ command ∈ lateType, command.isTransactional = true := by decide
  exact ⟨course.after.workspace, report, reference, done, found, kept, fresh,
    trails_after plain done⟩

end EntityModel
