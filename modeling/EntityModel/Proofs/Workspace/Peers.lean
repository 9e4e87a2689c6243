import EntityModel.Proofs.Findings.Renumbering
import EntityModel.Proofs.Resolution.Afresh
import EntityModel.Proofs.Workspace.Current

/-
**Settled workspaces that hold the same elements.**

Two workspaces in which everything is up to date and which hold the same elements, in whatever order,
know the same of each element wherever the same is declared in the same order.

* `Workspace.Peers` — the same elements in the same surroundings, the second time under the numbers
  that a renaming gives and in any order; `partner` — the node of the second workspace for a node of
  the first.
* `Peers.outlines_partner`, `Peers.symbol_partner` — settled peers have the same contents as written,
  so the same outlines, so the same symbols.
* `Peers.evaluate`, `Peers.node_partner` — **where the same is declared in the same order, partners are
  the same**, renumbered.
* `Peers.declares_of_unique` — which is so where no symbol is declared twice.
-/

namespace EntityModel

/-- Lists that agree under two views are tied together by a function that ties their items
together. -/
theorem eq_map_of_views {α β γ : Type} {first : List α} {second : List β} {view : α → γ}
    {other : β → γ} {f : α → β} (same : second.map other = first.map view)
    (each : ∀ a ∈ first, ∀ b ∈ second, other b = view a → b = f a) : second = first.map f := by
  induction first generalizing second with
  | nil => exact List.map_eq_nil_iff.mp same
  | cons a first ih =>
    cases second with
    | nil => exact nomatch same
    | cons b second =>
      obtain ⟨head, tail⟩ := List.cons.inj same
      rw [List.map_cons, each a List.mem_cons_self b List.mem_cons_self head, ih tail]
      exact fun a inFirst b inSecond =>
        each a (List.mem_cons_of_mem _ inFirst) b (List.mem_cons_of_mem _ inSecond)

/-- The same for lists that agree up to the order of their items. -/
theorem perm_map_of_views {α β γ : Type} {first : List α} {second : List β} {view : α → γ}
    {other : β → γ} {f : α → β} (same : (second.map other).Perm (first.map view))
    (each : ∀ a ∈ first, ∀ b ∈ second, other b = view a → b = f a) :
    second.Perm (first.map f) := by
  induction first generalizing second with
  | nil =>
    rw [List.map_eq_nil_iff.mp same.eq_nil]
    exact .nil
  | cons a first ih =>
    obtain ⟨b, inSecond, alike⟩ := List.mem_map.mp (same.mem_iff.mpr List.mem_cons_self)
    obtain ⟨front, back, rfl⟩ := List.append_of_mem inSecond
    have moved : (front ++ b :: back).Perm (b :: (front ++ back)) := List.perm_middle
    have rest : ((front ++ back).map other).Perm (first.map view) := by
      have aligned := (moved.map other).symm.trans same
      rw [List.map_cons, List.map_cons, alike] at aligned
      exact aligned.cons_inv
    refine moved.trans ?_
    rw [List.map_cons, ← each a List.mem_cons_self b inSecond alike]
    refine (ih rest fun item inFirst twin inRest => ?_).cons b
    exact each item (List.mem_cons_of_mem _ inFirst) twin
      (moved.mem_iff.mpr (List.mem_cons_of_mem _ inRest))

/-- Contents that are written alike are the same, up to numbers, if their answers are. -/
theorem Node.content_of_written {rename : NodeId → NodeId} {node twin : Node}
    (written : twin.content.map Content.written = node.content.map Content.written)
    (answers : ∀ reference ∈ node.references, ∀ other ∈ twin.references,
      other.rule = reference.rule → other.text = reference.text →
        other.answer = reference.answer.map (List.map (Slot.renumber rename))) :
    twin.content = node.content.map (Content.renumber rename) := by
  unfold Node.references at answers
  cases here : node.content with
  | none =>
    rw [here] at written
    exact Option.map_eq_none_iff.mp written
  | some content =>
    cases there : twin.content with
    | none =>
      rw [here, there] at written
      exact nomatch written
    | some other =>
      rw [here, there] at written answers
      rcases content with ⟨name, references, fields⟩
      rcases other with ⟨otherName, otherReferences, otherFields⟩
      obtain ⟨names, alike, same⟩ := Content.mk.inj (Option.some.inj written)
      have agree : otherReferences = references.map (Reference.renumber rename) := by
        refine eq_map_of_views alike fun reference inside twin twinInside form => ?_
        obtain ⟨rule, text, -⟩ := Reference.mk.inj form
        have answer := answers reference inside twin twinInside rule text
        rcases twin with ⟨twinRule, twinText, twinAnswer⟩
        simp only at rule text answer
        rw [rule, text, answer]
        rfl
      simp only at names same
      rw [names, agree, same]
      rfl

namespace Workspace

/-- The second workspace holds the elements of the first in the same surroundings, in any order, under
the numbers that the renaming gives. -/
structure Peers (rename : NodeId → NodeId) (first second : Workspace) : Prop where
  frames : (second.catalog.rows.map (Row.map (Node.frame id))).Perm
    (first.catalog.rows.map (Row.map (Node.frame rename)))
  options : second.options = first.options

/-- The node of the second workspace under the number that the renaming gives. -/
def partner (rename : NodeId → NodeId) (second : Workspace) (node : Node) : Node :=
  (second.catalog.node? (rename node.id)).getD node

/-- A row of the second workspace is made of the nodes under the numbers that are written in it. -/
theorem row_partner {rename : NodeId → NodeId} {second : Workspace}
    (numbered : second.catalog.Numbered) {row twin : Row} (there : twin ∈ second.catalog.rows)
    (same : twin.map (Node.frame id) = row.map (Node.frame rename)) :
    twin = row.map (partner rename second) := by
  have each : ∀ {node twinNode : Node}, twinNode ∈ twin.node :: twin.above →
      twinNode.frame id = node.frame rename → twinNode = partner rename second node := by
    intro node twinNode inside alike
    have ids : twinNode.id = rename node.id := congrArg Node.id alike
    unfold partner
    rw [← ids, numbered.node?_of_mem_line there inside]
    rfl
  have own : twin.node = partner rename second row.node :=
    each List.mem_cons_self (congrArg Row.node same)
  have aboves : twin.above = row.above.map (partner rename second) :=
    eq_map_of_views (congrArg Row.above same) fun node _ twinNode inside alike =>
      each (List.mem_cons_of_mem _ inside) alike
  have layers : twin.layer = row.layer := congrArg (fun row => row.layer) same
  rcases twin with ⟨layer, above, node⟩
  simp only at own aboves layers
  rw [own, aboves, layers]
  rfl

/-- The contents of a settled workspace are those that are read. -/
theorem Settled.outline_afresh {workspace : Workspace} (settled : workspace.Settled)
    (rename : NodeId → NodeId) {row : Row} (member : row ∈ workspace.catalog.rows) :
    row.afresh.map (Node.outline rename) = row.map (Node.outline rename) := by
  have each : ∀ {above : List Node} {node : Node}, ⟨row.layer, above, node⟩ ∈ workspace.catalog.rows →
      (node.afresh row.layer above).outline rename = node.outline rename := by
    intro above node there
    have read := (settled.read _ there).1
    unfold Node.afresh Node.outline
    simp only [Option.map_some, Content.written_read]
    rw [read]
  have line : ∀ {above : List Node} {node : Node}, ⟨row.layer, above, node⟩ ∈ workspace.catalog.rows →
      (lineAfresh row.layer above).map (Node.outline rename) = above.map (Node.outline rename) := by
    intro above
    induction above with
    | nil => exact fun _ => rfl
    | cons parent upper ih =>
      intro node there
      have higher := Catalog.row_of_above there rfl
      rw [lineAfresh, List.map_cons, List.map_cons, each higher, ih higher]
  show (⟨row.layer, _, _⟩ : Row) = ⟨row.layer, _, _⟩
  rw [Row.mk.injEq]
  exact ⟨rfl, line member, each member⟩

/-- The symbols of a settled workspace are those that are declared by what is written. -/
theorem Settled.declared? {workspace : Workspace} (settled : workspace.Settled) {row : Row}
    (member : row ∈ workspace.catalog.rows) : row.node.declared? = row.declares? := by
  unfold Node.declared? Row.declares?
  rw [(settled.upToDate row member).symbol, ← Row.declaredSymbol?_outline id row.afresh,
    settled.outline_afresh id member, Row.declaredSymbol?_outline]

namespace Peers

variable {rename : NodeId → NodeId} {first second : Workspace} (peers : Peers rename first second)
  (settled : first.Settled) (other : second.Settled)

include peers settled other

omit settled other in
/-- The rows are tied together by the numbers of the nodes. -/
theorem rows_partner (numbered : second.catalog.Numbered) : second.catalog.rows.Perm
    (first.catalog.rows.map (Row.map (partner rename second))) :=
  perm_map_of_views peers.frames fun _ _ _ there same => row_partner numbered there same

omit settled other in
/-- The nodes for those of a row make up a row that is written alike. -/
theorem counterpart (numbered : second.catalog.Numbered) {row : Row}
    (member : row ∈ first.catalog.rows) :
    row.map (partner rename second) ∈ second.catalog.rows ∧
      (row.map (partner rename second)).map (Node.frame id) = row.map (Node.frame rename) := by
  obtain ⟨twin, there, same⟩ :=
    List.mem_map.mp (peers.frames.mem_iff.mpr (List.mem_map_of_mem member))
  obtain rfl := row_partner numbered there same
  exact ⟨there, same⟩

theorem outlines_partner (numbered : second.catalog.Numbered) {row : Row}
    (member : row ∈ first.catalog.rows) :
    (row.map (partner rename second)).map (Node.outline id) = row.map (Node.outline rename) := by
  obtain ⟨there, same⟩ := peers.counterpart numbered member
  rw [← other.outline_afresh id there, ← outline_rowAfresh id, same, outline_rowAfresh,
    settled.outline_afresh rename member]

theorem symbol_partner (numbered : second.catalog.Numbered) {row : Row}
    (member : row ∈ first.catalog.rows) :
    (partner rename second row.node).symbol = row.node.symbol := by
  have declared := (other.upToDate _ (peers.counterpart numbered member).1).symbol
  rw [← Row.declaredSymbol?_outline id, peers.outlines_partner settled other numbered member,
    Row.declaredSymbol?_outline, ← (settled.upToDate row member).symbol] at declared
  exact declared

/-- **Where no symbol is declared twice, peers declare the same.** -/
theorem declares_of_unique (numbered : second.catalog.Numbered) {symbol : Symbol}
    (unique : (first.catalog.declaring symbol).length ≤ 1) :
    second.catalog.declaring symbol =
      (first.catalog.declaring symbol).map (Row.map (partner rename second)) := by
  have declared : ∀ row ∈ first.catalog.rows,
      decide ((partner rename second row.node).declared? = some symbol) =
        decide (row.node.declared? = some symbol) := by
    intro row member
    rw [Node.declared?, peers.symbol_partner settled other numbered member]
    rfl
  have same : (second.catalog.declaring symbol).Perm
      ((first.catalog.declaring symbol).map (Row.map (partner rename second))) := by
    unfold Catalog.declaring
    rw [← List.filter_congr declared]
    have shuffled := (peers.rows_partner numbered).filter fun row => row.node.declared? = some symbol
    rw [List.filter_map] at shuffled
    exact shuffled
  cases listed : first.catalog.declaring symbol with
  | nil =>
    rw [listed] at same
    exact same.eq_nil
  | cons row others =>
    rw [listed, List.length_cons] at unique
    obtain rfl : others = [] := List.eq_nil_of_length_eq_zero (by omega)
    rw [listed] at same
    exact List.perm_singleton.mp same

section Sound

variable (sound : first.Sound) (twinSound : second.Sound)
  (declares : ∀ symbol, second.catalog.declaring symbol =
    (first.catalog.declaring symbol).map (Row.map (partner rename second)))

include sound twinSound declares

/-- **Settled peers that declare the same evaluate alike.** -/
theorem evaluate {row : Row} (member : row ∈ first.catalog.rows) {reference twin : Reference}
    (rule : twin.rule = reference.rule) (text : twin.text = reference.text) :
    second.evaluate (rename row.id) twin = (first.evaluate row.id reference).renumber rename := by
  have numbered := twinSound.numbered
  unfold Workspace.evaluate
  rw [peers.options]
  exact Catalog.evaluate_renamed sound.numbered sound.exact numbered twinSound.exact
    (fun row inside => peers.outlines_partner settled other numbered inside) declares member
    (peers.counterpart numbered member).1 rule text

/-- **Partners are the same**, renumbered. -/
theorem node_partner {row : Row} (member : row ∈ first.catalog.rows) :
    partner rename second row.node = row.node.renumber rename := by
  have numbered := twinSound.numbered
  obtain ⟨there, frame⟩ := peers.counterpart numbered member
  have sources : (row.map (partner rename second)).source = row.source := by
    rw [← Row.source_frame id, frame, Row.source_frame]
  have symbol := peers.symbol_partner settled other numbered member
  have stage : (partner rename second row.node).stage = row.node.stage :=
    (other.resolved _ there).trans (settled.resolved row member).symm
  have read := settled.read row member
  have twinRead := other.read _ there
  have upToDate := settled.upToDate row member
  have twinUpToDate := other.upToDate _ there
  have number : (row.map (partner rename second)).id = rename row.id :=
    congrArg (fun row => row.node.id) frame
  have kinds : (partner rename second row.node).kind = row.node.kind :=
    congrArg (fun row => row.node.kind) frame
  have heads : (partner rename second row.node).head = row.node.head :=
    congrArg (fun row => row.node.head) frame
  have inlines : (partner rename second row.node).inline = row.node.inline :=
    congrArg (fun row => row.node.inline) frame
  have defects : (partner rename second row.node).defects = row.node.defects := by
    rw [read.2, ← sources]
    exact twinRead.2
  have contents : (partner rename second row.node).content =
      row.node.content.map (Content.renumber rename) := by
    have written : (partner rename second row.node).content.map Content.written =
        row.node.content.map Content.written := by
      rw [read.1, ← sources]
      exact twinRead.1
    refine Node.content_of_written written fun reference inside twin twinInside rule text => ?_
    have answer := upToDate.answers reference inside
    have twinAnswer := twinUpToDate.answers twin twinInside
    rw [number, peers.evaluate settled other sound twinSound declares member rule text] at twinAnswer
    rw [answer, twinAnswer]
    rfl
  rw [show (row.map (partner rename second)).id = (partner rename second row.node).id from rfl]
    at number
  generalize partner rename second row.node = twin at *
  rcases twin with ⟨twinId, kind, head, inline, twinStage, twinSymbol, content, twinDefects⟩
  simp only at number kinds heads inlines stage symbol contents defects
  rw [number, kinds, heads, inlines, stage, symbol, contents, defects]
  rfl

/-- The node of the second workspace under the number that the renaming gives is the same,
renumbered. -/
theorem node?_of_first {id : NodeId} {node : Node} (found : first.catalog.node? id = some node) :
    second.catalog.node? (rename id) = some (node.renumber rename) := by
  rw [Catalog.node?_eq] at found
  obtain ⟨row, located, rfl⟩ := Option.map_eq_some_iff.mp found
  obtain ⟨member, rfl⟩ := Catalog.mem_rows_of_row? located
  obtain ⟨there, frame⟩ := peers.counterpart twinSound.numbered member
  have number : (row.map (partner rename second)).id = rename row.id :=
    congrArg (fun row => row.node.id) frame
  rw [← number, twinSound.numbered.node?_of_mem there]
  exact congrArg some (peers.node_partner settled other sound twinSound declares member)

/-- What the second workspace holds of a reference is the same, renumbered. -/
theorem reference?_of_first {id : ReferenceId} {reference : Reference}
    (held : first.reference? id = some reference) :
    second.reference? ⟨rename id.owner, id.role⟩ = some (reference.renumber rename) := by
  obtain ⟨node, found, own⟩ := Option.bind_eq_some_iff.mp held
  unfold Workspace.reference?
  rw [peers.node?_of_first settled other sound twinSound declares found, Option.bind_some,
    Node.reference?_renumber, own]
  rfl

omit settled other in
theorem lookup (symbol : Symbol) :
    second.catalog.lookup symbol = (first.catalog.lookup symbol).map rename := by
  rw [Catalog.lookup_eq sound.numbered sound.exact,
    Catalog.lookup_eq twinSound.numbered twinSound.exact, declares, List.map_map, List.map_map]
  refine List.map_congr_left fun row member => ?_
  have live := (Catalog.mem_declaring.mp member).1
  exact congrArg (fun row => row.node.id) (peers.counterpart twinSound.numbered live).2

end Sound

end Peers

end Workspace

end EntityModel
