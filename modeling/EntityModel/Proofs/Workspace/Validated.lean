import EntityModel.Proofs.Findings.Marks
import EntityModel.Proofs.Naming.Retarget
import EntityModel.Proofs.Resolution.Scan
import EntityModel.Proofs.Workspace.Revised

/-
**What the findings say after a commit.**

* `Catalog.isKnown_of_absent` — an evaluation finds nothing where nothing is written;
  `Workspace.Lasting.evaluated` — so whatever a commit keeps of a reference, there is an answer, and
  it is one of nothing found where nothing is written.
* `Workspace.Validated` — the findings against what has to be reported: which errors there are, and
  which warnings of slots. `Sound.validated` proves it where all references have been evaluated.
* `validated_commit` — **so after every commit the errors are those that are due**, and there is none
  exactly where nothing is wrong.
-/

namespace EntityModel

/-- What is found for texts that are not there is nothing. -/
theorem Catalog.isKnown_of_absent (catalog : Catalog) (separator : Char) (owner : NodeId)
    {reference : Reference} (absent : reference.isAbsent = true) :
    ∀ slot ∈ (catalog.evaluate separator owner reference).slots, slot.isKnown = false := by
  intro slot member
  unfold evaluate at member
  split at member
  · rw [List.mem_singleton.mp member]
    rfl
  · obtain ⟨part, inside, rfl⟩ := List.mem_map.mp member
    obtain ⟨text, listed, rfl⟩ := List.mem_map.mp inside
    rw [Reference.eq_empty_of_absent absent listed]
    rfl

theorem Catalog.slots_evaluate_ne_nil (catalog : Catalog) (separator : Char) (owner : NodeId)
    (reference : Reference) : (catalog.evaluate separator owner reference).slots ≠ [] := by
  intro none
  have texts := catalog.map_text_slots separator owner reference
  rw [none, List.map_nil] at texts
  split at texts
  · exact nomatch texts
  · next written => exact written texts.symm

/-- Whatever is kept of a reference, it has been evaluated. -/
theorem Workspace.Lasting.evaluated {workspace : Workspace} {owner : NodeId} {reference : Reference}
    (lasting : workspace.Lasting owner reference) : reference.Evaluated := by
  obtain ⟨slots, answer, pairs⟩ := lasting.slots
  have same : reference.slots = slots := by rw [Reference.slots, answer, Option.getD_some]
  refine ⟨?_, ?_, fun absent slot member => ?_⟩
  · unfold Reference.status
    rw [answer]
    simp only [Status.ofSlots]
    split <;> simp
  · rw [same]
    intro none
    rw [none] at pairs
    exact workspace.catalog.slots_evaluate_ne_nil _ owner reference
      (List.forall₂_nil_left_iff.mp pairs)
  · obtain ⟨fresh, inside, lasts⟩ := exists_of_forall₂ pairs (same ▸ member)
    have nothing := workspace.catalog.isKnown_of_absent workspace.options.listSeparator owner absent
      fresh inside
    by_contra known
    -- a slot that is known is the fresh one, which has found nothing
    rw [← lasts.eq (Or.inr (Bool.not_eq_false _ ▸ known))] at nothing
    exact known nothing

namespace Workspace

/-- The findings against what has to be reported. -/
structure Validated (workspace : Workspace) : Prop where
  /-- Asked for one by one the findings are the same. -/
  walk : ∀ count, workspace.firstFindings count = workspace.findings.take count
  ordered : workspace.findings.Pairwise fun first second =>
    first.node = second.node ∨ [first.node, second.node].Sublist workspace.catalog.documentOrder
  live : ∀ finding ∈ workspace.findings, workspace.catalog.contains finding.node = true
  /-- Every reference has been evaluated, and nothing was found where nothing is written. -/
  evaluated : ∀ site ∈ workspace.catalog.sites, ∀ reference ∈ site.node.references,
    reference.Evaluated
  /-- One error for each defect. -/
  defects : ∀ site ∈ workspace.catalog.sites, (workspace.findings.filter fun finding =>
    decide (finding.node = site.id) && decide (finding.code = "E0100")) =
      site.node.defects.map fun defect => site.finding (.defect defect)
  /-- The errors due for each reference. -/
  unresolved : ∀ site ∈ workspace.catalog.sites, ∀ reference ∈ site.node.references,
    (workspace.findings.filter fun finding =>
      decide (finding.reference? = some ⟨site.id, reference.role⟩) &&
        decide (finding.code = "E0001")) = (reference.errors site.node.kind).map site.finding
  /-- There are no other errors. -/
  errors : (workspace.findings.filter fun finding => finding.severity = .error) =
    workspace.catalog.sites.flatMap fun site => site.node.errors.map site.finding
  /-- What is reported with a reference that is written is due for its slots, one by one. -/
  marked : ∀ site ∈ workspace.catalog.sites, ∀ reference ∈ site.node.references,
    (workspace.findings.filter fun finding =>
      decide (finding.reference? = some ⟨site.id, reference.role⟩)) =
        (if reference.isAbsent then reference.errors site.node.kind
          else Slot.marks reference.rule reference.slots).map site.finding
  /-- There is no error exactly where nothing is wrong. -/
  clean : Finding.count .error workspace.findings = 0 ↔ ∀ site ∈ workspace.catalog.sites,
    site.node.defects = [] ∧ ∀ reference ∈ site.node.references, reference.status = .known ∨
      (reference.rule.optional = true ∧ reference.isAbsent = true)

section Evaluated

variable {workspace : Workspace} (evaluated : ∀ site ∈ workspace.catalog.sites,
  ∀ reference ∈ site.node.references, reference.Evaluated)

include evaluated

/-- The errors among all findings are those that are due for the nodes, in document order. -/
theorem filter_error : (workspace.findings.filter fun finding => finding.severity = .error) =
    workspace.catalog.sites.flatMap fun site => site.node.errors.map site.finding := by
  unfold findings
  rw [Catalog.findings_eq_sites, List.filter_flatMap]
  refine List.flatMap_congr fun site member => ?_
  rw [List.filter_map, ← Catalog.filter_error (evaluated site member)]
  rfl

theorem count_error_eq_zero_iff : Finding.count .error workspace.findings = 0 ↔
    ∀ site ∈ workspace.catalog.sites, site.node.defects = [] ∧
      ∀ reference ∈ site.node.references, reference.status = .known ∨
        (reference.rule.optional = true ∧ reference.isAbsent = true) := by
  rw [Finding.count, List.countP_eq_length_filter, filter_error evaluated, List.length_eq_zero_iff,
    List.flatMap_eq_nil_iff]
  refine forall₂_congr fun site member => ?_
  rw [List.map_eq_nil_iff, Node.errors, List.append_eq_nil_iff, List.map_eq_nil_iff,
    List.flatMap_eq_nil_iff]
  refine and_congr_right fun _ => forall₂_congr fun reference inside => ?_
  exact (evaluated site member reference inside).errors_eq_nil_iff

/-- **Where all references have been evaluated**, findings say what has to be reported. -/
theorem Sound.validated (sound : workspace.Sound) : workspace.Validated := by
  have roles : ∀ site ∈ workspace.catalog.sites, (site.node.references.map Reference.role).Nodup :=
    fun site member => sound.roles site.row (row_of_site member)
  refine ⟨fun count => sound.numbered.take_walk _ count, Catalog.pairwise_findings _ _, ?_,
    evaluated, ?_, ?_, filter_error evaluated, ?_, count_error_eq_zero_iff evaluated⟩
  · intro finding member
    obtain ⟨site, inside, _, _, rfl⟩ := Catalog.mem_findings.mp member
    exact Catalog.contains_iff.mpr ⟨site.row, row_of_site inside, rfl⟩
  · intro site member
    refine (sound.numbered.filter_code member .structuralParseError).trans ?_
    rw [Catalog.filter_defects, List.map_map]
    rfl
  · intro site member reference inside
    simp only [Bool.and_comm (decide (_ = some _))]
    rw [← List.filter_filter, findings,
      sound.numbered.filter_reference member (roles site member) inside]
    refine (site.filter_code .unresolvedReference).trans ?_
    rw [(evaluated site member reference inside).filter_unresolved]
  · intro site member reference inside
    rw [findings, sound.numbered.filter_reference member (roles site member) inside,
      (evaluated site member reference inside).problems_eq]

end Evaluated

end Workspace

/-- **After every commit the errors are those that are due**, where the history leaves the life of
nodes to commits: one for each defect of a node, those of each reference by its texts and slots, and
no others. Slots that are known have at most one warning. There is no error exactly where no node has
a defect and every reference has found all its targets or is left out and may be. -/
theorem validated_commit {options : Options} {commands : List Command}
    (plain : ∀ command ∈ commands, command.isTransactional = true) {after : Workspace}
    {report : Report}
    (done : ((Workspace.ofOptions options).after commands).commit = .ok (after, report)) :
    after.Validated := by
  obtain ⟨steady, closed⟩ := (Workspace.steady_after options plain).commit done
  refine Workspace.Sound.validated (fun site member reference inside => ?_) steady.coherent.toSound
  exact (steady.lasting (Workspace.current_of_closed closed) (Workspace.row_of_site member)
    inside).evaluated

/-- Two types of one name, sets with and without a type, and a mapping of a set by a list of types. -/
def stocked : List Command :=
  [.load "shop.csdl" .conceptual
      (.node { Head.ofTag "Schema" with attributes := .ofList [("Namespace", "Shop")] }
        [.node { Head.ofTag "EntityType" with
            attributes := .ofList [("Name", "Item"), ("BaseType", " ")] } [],
          .node { Head.ofTag "EntityType" with
            attributes := .ofList [("Name", "Item"), ("Abstract", "yes")] } [],
          .node { Head.ofTag "EntityContainer" with attributes := .ofList [("Name", "Stock")] }
            [.node { Head.ofTag "EntitySet" with
                attributes := .ofList [("Name", "Items"), ("EntityType", "Shop.Item")] } [],
              .node { Head.ofTag "EntitySet" with
                attributes := .ofList [("Name", "Parts"), ("EntityType", "")] } []]]),
    .load "shop.msl" .mapping
      (.node (.ofTag "Mapping")
        [.node { Head.ofTag "EntityContainerMapping" with
            attributes := .ofList
              [("CdmEntityContainer", "Stock"), ("StorageEntityContainer", "Missing")] }
          [.node { Head.ofTag "EntitySetMapping" with attributes := .ofList [("Name", "Items")] }
            [.node { Head.ofTag "EntityTypeMapping" with
              attributes := .ofList [("TypeName", "Shop.Item;Shop.Item;Shop.Part")] } []]]])]

/-- The second type has a defect and comes too late, one set has no type and one an ambiguous one, a
container is missing, and of the types in the list the first is ambiguous, the second there already
and the third unknown. The base type that is left out is no error. -/
theorem validated_stocked : ∃ after report,
    ((Workspace.ofOptions .standard).after stocked).commit = .ok (after, report) ∧
      (after.findings.map fun finding => (finding.node.number, finding.code)) =
        [(2, "E0100"), (2, "W0004"), (4, "W0002"), (5, "E0001"), (7, "E0001"), (9, "W0002"),
          (9, "W0010"), (9, "E0001")] ∧
      after.Validated := by
  have opened : ((Workspace.ofOptions .standard).after stocked).transaction.isSome = true := by
    decide +kernel
  obtain ⟨after, report, done, reached⟩ := Workspace.exists_committed opened
  have codes : (((Workspace.ofOptions .standard).after (stocked ++ [.commit])).findings.map
      fun finding => (finding.node.number, finding.code)) =
        [(2, "E0100"), (2, "W0004"), (4, "W0002"), (5, "E0001"), (7, "E0001"), (9, "W0002"),
          (9, "W0010"), (9, "E0001")] := by
    decide +kernel
  rw [reached] at codes
  exact ⟨after, report, done, codes, validated_commit (by decide) done⟩

end EntityModel
