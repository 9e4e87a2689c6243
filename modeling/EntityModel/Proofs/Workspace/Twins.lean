import EntityModel.Proofs.Workspace.Peers

/-
**Settled workspaces are determined by what is written in them.**

Two workspaces in which everything is up to date and which hold the same elements in the same order
are the same, up to the numbers of the nodes.

* `Workspace.Twins` — the same elements in the same order, the second time under the numbers that a
  renaming gives.
* `Twins.rows` — **settled twins have the same nodes**, renumbered; `Twins.dependencies`,
  `Twins.findings` — and the same dependencies and findings.
-/

namespace EntityModel

namespace Workspace

/-- The second workspace holds the elements of the first in the same order, under the numbers that
the renaming gives. -/
structure Twins (rename : NodeId → NodeId) (first second : Workspace) : Prop where
  frames : second.catalog.rows.map (Row.map (Node.frame id)) =
    first.catalog.rows.map (Row.map (Node.frame rename))
  options : second.options = first.options

/-- The targets of a settled workspace are there. -/
theorem Settled.targets_live {workspace : Workspace} (settled : workspace.Settled)
    (sound : workspace.Sound) {row : Row} (member : row ∈ workspace.catalog.rows)
    {reference : Reference} (inside : reference ∈ row.node.references) :
    reference.targets ⊆ workspace.catalog.documentOrder := by
  intro target leads
  unfold Reference.targets Reference.slots at leads
  rw [(settled.upToDate row member).answers reference inside, Option.getD_some] at leads
  have live : workspace.catalog.contains target = true :=
    Catalog.contains_of_dependency sound.numbered sound.exact
      (Or.inl (OrderedSet.mem_ofList.mpr leads))
  obtain ⟨other, found, same⟩ := Catalog.contains_iff.mp live
  rw [Catalog.documentOrder_eq]
  exact List.mem_map.mpr ⟨other, found, same⟩

namespace Twins

variable {rename : NodeId → NodeId} {first second : Workspace} (twins : Twins rename first second)
  (settled : first.Settled) (other : second.Settled)

include twins

theorem peers : Peers rename first second :=
  ⟨.of_eq twins.frames, twins.options⟩

/-- The rows are tied together by the numbers of the nodes. -/
theorem rows_partner (numbered : second.catalog.Numbered) : second.catalog.rows =
    first.catalog.rows.map (Row.map (partner rename second)) :=
  eq_map_of_views twins.frames fun _ _ _ there same => row_partner numbered there same

include settled other

theorem declares (numbered : second.catalog.Numbered) (symbol : Symbol) :
    second.catalog.declaring symbol =
      (first.catalog.declaring symbol).map (Row.map (partner rename second)) :=
  Catalog.declaring_renamed (twins.rows_partner numbered)
    (fun _ member => twins.peers.symbol_partner settled other numbered member) symbol

section Sound

variable (sound : first.Sound) (twinSound : second.Sound)

include sound twinSound

/-- **The rows of settled twins are those of the first**, renumbered. -/
theorem rows : second.catalog.rows = first.catalog.rows.map (Row.map (Node.renumber rename)) := by
  rw [twins.rows_partner twinSound.numbered]
  refine List.map_congr_left fun row member => Row.map_congr fun node inside => ?_
  obtain ⟨above, within, -⟩ := Catalog.row_of_mem_line member inside
  exact twins.peers.node_partner settled other sound twinSound
    (twins.declares settled other twinSound.numbered) within

/-- **Settled twins record the same**, renumbered. -/
theorem dependencies {row : Row} (member : row ∈ first.catalog.rows) {reference : Reference}
    (inside : reference ∈ row.node.references) :
    second.ledger.dependencies ⟨rename row.id, reference.role⟩ =
      ((first.evaluate row.id reference).renumber rename).dependencies := by
  have there : row.map (Node.renumber rename) ∈ second.catalog.rows := by
    rw [twins.rows settled other sound twinSound]
    exact List.mem_map_of_mem member
  have held : reference.renumber rename ∈ (row.node.renumber rename).references := by
    rw [Node.references_renumber]
    exact List.mem_map_of_mem inside
  have evaluates : second.evaluate (rename row.id) (reference.renumber rename) =
      (first.evaluate row.id reference).renumber rename :=
    twins.peers.evaluate settled other sound twinSound
      (twins.declares settled other twinSound.numbered) member rfl rfl
  rw [← evaluates]
  exact (other.upToDate _ there).dependencies (reference.renumber rename) held

/-- **Settled twins have the same findings**, renumbered. -/
theorem findings : second.findings = first.findings.map (Finding.renumber rename) := by
  unfold Workspace.findings
  rw [twins.options]
  exact Catalog.findings_renumber sound.numbered sound.exact twinSound.numbered twinSound.exact
    (twins.rows settled other sound twinSound) _ fun row member reference inside =>
      settled.targets_live sound member inside

end Sound

end Twins

end Workspace

end EntityModel
