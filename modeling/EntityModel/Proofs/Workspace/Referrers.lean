import EntityModel.Proofs.Workspace.Reachable
import EntityModel.Views

/-
**Going back from a node is looking at every node.**

What refers to a node is read from the ledger: the owners are taken as they come, sorted by computed
keys, and rid of repeats that stand side by side. After every history this is the plain search, which
goes through all nodes in document order and keeps those that lead to the node.

* `nodup_withoutRepeats` — in an order without ties, repeats stand side by side; `withoutRepeats_eq` —
  so nodes sorted by keys, without repeats, are a part of the document order.
* `Node.LeadsTo`, `Catalog.referring` — a slot of the node is resolved to the target; the nodes of a
  kind with such a slot.
* `Coherent.mem_owners` — the owners in the ledger are these nodes.
* `ReferrersByScan` — what the views say of a node, against the search; `referrersByScan_after` —
  **the views agree with it in every state.**
-/

namespace EntityModel

/-- A slot of a reference of the node is resolved to the target. -/
def Node.LeadsTo (node : Node) (target : NodeId) : Prop :=
  ∃ reference ∈ node.references, ∃ slot ∈ reference.slots, slot.target? = some target

instance (node : Node) (target : NodeId) : Decidable (node.LeadsTo target) :=
  inferInstanceAs (Decidable (∃ reference ∈ node.references, ∃ slot ∈ reference.slots, _))

/-- The places of the nodes of the kind that lead to the target, in document order. -/
def Catalog.referring (catalog : Catalog) (target : NodeId) (kind : Kind) : List Site :=
  catalog.sites.filter fun site => site.node.kind = kind ∧ site.node.LeadsTo target

namespace Workspace

/-! ### Repeats side by side -/

theorem mem_withoutRepeats {ids : List NodeId} {id : NodeId} :
    id ∈ withoutRepeats ids ↔ id ∈ ids := by
  fun_induction withoutRepeats ids with
  | case1 first rest ih => simp only [ih, List.mem_cons, or_self_left]
  | case2 first second rest apart ih => rw [List.mem_cons, ih, ← List.mem_cons]
  | case3 short => exact Iff.rfl

theorem withoutRepeats_sublist (ids : List NodeId) : (withoutRepeats ids).Sublist ids := by
  fun_induction withoutRepeats ids with
  | case1 first rest ih => exact ih.trans (List.sublist_cons_self _ _)
  | case2 first second rest apart ih => exact ih.cons_cons first
  | case3 short => exact List.Sublist.refl _

/-- In an order where only equals stand both ways, nothing is left twice. -/
theorem nodup_withoutRepeats {before : NodeId → NodeId → Prop} {ids : List NodeId}
    (sorted : ids.Pairwise before)
    (antisymm : ∀ first ∈ ids, ∀ second ∈ ids, before first second → before second first →
      first = second) : (withoutRepeats ids).Nodup := by
  fun_induction withoutRepeats ids with
  | case1 first rest ih =>
    exact ih (List.pairwise_cons.mp sorted).2 fun one oneMem other otherMem =>
      antisymm one (List.mem_cons_of_mem _ oneMem) other (List.mem_cons_of_mem _ otherMem)
  | case2 first second rest apart ih =>
    obtain ⟨here, later⟩ := List.pairwise_cons.mp sorted
    refine List.nodup_cons.mpr ⟨fun again => ?_, ih later fun one oneMem other otherMem =>
      antisymm one (List.mem_cons_of_mem _ oneMem) other (List.mem_cons_of_mem _ otherMem)⟩
    -- the second stands between the first and its repeat
    rcases List.mem_cons.mp (mem_withoutRepeats.mp again) with same | behind
    · exact apart same
    · exact apart (antisymm first List.mem_cons_self second
        (List.mem_cons_of_mem _ List.mem_cons_self) (here second List.mem_cons_self)
        ((List.pairwise_cons.mp later).1 first behind))
  | case3 short none =>
    match short with
    | [] => exact List.nodup_nil
    | [one] => exact List.nodup_singleton one
    | first :: second :: rest => exact absurd rfl (none first second rest)

/-- **Nodes sorted by keys, without repeats, are the part of the document order** made of them. -/
theorem withoutRepeats_eq {catalog : Catalog} (unique : catalog.documentOrder.Nodup)
    {ids part : List NodeId} (listed : part.Sublist catalog.documentOrder)
    (sorted : ids.Pairwise fun first second =>
      Catalog.keyBefore (catalog.orderKey? first) (catalog.orderKey? second) = true)
    (same : ∀ id, id ∈ ids ↔ id ∈ part) : withoutRepeats ids = part := by
  have live : ∀ id ∈ ids, id ∈ catalog.documentOrder := fun id member =>
    listed.subset ((same id).mp member)
  have once : (withoutRepeats ids).Nodup :=
    nodup_withoutRepeats sorted fun first firstMem second secondMem lower upper =>
      Catalog.eq_of_orderKey? unique (live first firstMem) (live second secondMem)
        (Catalog.keyBefore_antisymm lower upper)
  exact Catalog.eq_of_sublist_documentOrder unique once
    (sorted.sublist (withoutRepeats_sublist ids)) listed fun id =>
      mem_withoutRepeats.trans (same id)

theorem referring_sublist (catalog : Catalog) (target : NodeId) (kind : Kind) :
    ((catalog.referring target kind).map Site.id).Sublist catalog.documentOrder :=
  List.filter_sublist.map Site.id

/-! ### The ledger and the nodes -/

section Coherent

variable {workspace : Workspace} (coherent : workspace.Coherent)

include coherent

/-- The owners of the references in the ledger are the nodes that lead to the target. -/
theorem Coherent.mem_owners {target : NodeId} {kind : Kind} {id : NodeId} :
    (id ∈ (workspace.ledger.referencers target).map ReferenceId.owner ∧
        ((workspace.catalog.node? id).any fun node => node.kind = kind) = true) ↔
      id ∈ (workspace.catalog.referring target kind).map Site.id := by
  have unique := coherent.numbered.documentOrder_nodup
  rw [List.mem_map, List.mem_map]
  simp only [coherent.ledgerExact.referencers, Catalog.referring, List.mem_filter,
    decide_eq_true_eq]
  constructor
  · rintro ⟨⟨referrer, ⟨slot, ⟨site, member, owner, reference, inside, _, among⟩, found⟩, rfl⟩, fits⟩
    refine ⟨site, ⟨member, ?_, reference, inside, slot, among, found⟩, owner⟩
    rw [← owner, Catalog.node?, Catalog.site?_eq_some_of_mem unique member] at fits
    exact of_decide_eq_true fits
  · rintro ⟨site, ⟨member, fits, reference, inside, slot, among, found⟩, rfl⟩
    refine ⟨⟨⟨site.id, reference.role⟩, ⟨slot, ⟨site, member, rfl, reference, inside, rfl, among⟩,
      found⟩, rfl⟩, ?_⟩
    rw [Catalog.node?, Catalog.site?_eq_some_of_mem unique member]
    exact decide_eq_true fits

/-- **The referencers of a kind are what the search finds.** -/
theorem Coherent.referencersOfKind_eq (target : NodeId) (kind : Kind) :
    workspace.referencersOfKind target kind =
      (workspace.catalog.referring target kind).map Site.id := by
  refine withoutRepeats_eq coherent.numbered.documentOrder_nodup (referring_sublist _ target kind)
    (Catalog.pairwise_sortByDocumentOrder _ _) fun id => ?_
  rw [Catalog.mem_sortByDocumentOrder, List.mem_filter]
  exact coherent.mem_owners

end Coherent

/-- What leads to a node is what the search finds. -/
structure ReferrersByScan (workspace : Workspace) (target : NodeId) : Prop where
  byKind : ∀ kind, workspace.referencersOfKind target kind =
    (workspace.catalog.referring target kind).map Site.id
  inOrder : ∀ kind, (workspace.referencersOfKind target kind).Sublist
    workspace.catalog.documentOrder
  once : ∀ kind, (workspace.referencersOfKind target kind).Nodup
  /-- The mapping of an entity set is the first that is resolved to it. -/
  entitySet : workspace.entitySetMapping? target =
    ((workspace.catalog.referring target .entitySetMapping).map Site.id).head?
  setEnd : workspace.endProperties target =
    (workspace.catalog.referring target .endProperty).map Site.id

/-- **In every state, going back from a node finds what a search through all nodes finds.** -/
theorem referrersByScan_after (options : Options) (commands : List Command) (target : NodeId) :
    ((ofOptions options).after commands).ReferrersByScan target := by
  have coherent := coherent_after options commands
  generalize (ofOptions options).after commands = workspace at coherent
  have found := coherent.referencersOfKind_eq target
  refine ⟨found, fun kind => ?_, fun kind => ?_, ?_, found .endProperty⟩
  · rw [found]
    exact referring_sublist _ target kind
  · rw [found]
    exact coherent.numbered.documentOrder_nodup.sublist (referring_sublist _ target kind)
  · rw [entitySetMapping?, found]

end Workspace

end EntityModel
