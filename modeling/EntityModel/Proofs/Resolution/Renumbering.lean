import EntityModel.Findings

/-
**Other numbers for the same nodes.**

Two catalogs may hold the same model under different numbers. What has numbers in it is compared
after an exchange of the numbers.

* `renumber` — the exchange, for outcomes, slots, references, nodes, readings, resolutions and
  findings. What is not a number stays.
* `renumber_id` — under the identity nothing changes.
-/

namespace EntityModel

/-- The outcome with its target under another number. -/
def Outcome.renumber (rename : NodeId → NodeId) : Outcome → Outcome
  | .known target candidates => .known (rename target) candidates
  | .undefined reason => .undefined reason

/-- The slot with its target under another number. -/
def Slot.renumber (rename : NodeId → NodeId) (slot : Slot) : Slot :=
  { slot with outcome := slot.outcome.renumber rename }

/-- The reference with the targets of its slots under other numbers. -/
def Reference.renumber (rename : NodeId → NodeId) (reference : Reference) : Reference :=
  { reference with answer := reference.answer.map (List.map (Slot.renumber rename)) }

/-- The content with the targets of its references under other numbers. -/
def Content.renumber (rename : NodeId → NodeId) (content : Content) : Content :=
  { content with references := content.references.map (Reference.renumber rename) }

/-- The node under another number, its references with their targets under theirs. -/
def Node.renumber (rename : NodeId → NodeId) (node : Node) : Node :=
  { node with
    id := rename node.id
    content := node.content.map (Content.renumber rename) }

/-- The reading with the nodes consulted under other numbers; its symbols stay. -/
def NameReading.renumber (rename : NodeId → NodeId) (reading : NameReading) : NameReading :=
  { reading with consulted := reading.consulted.map rename }

/-- The resolution with targets and consulted nodes under other numbers; its symbols stay. -/
def Resolution.renumber (rename : NodeId → NodeId) (resolution : Resolution) : Resolution :=
  { resolution with
    slots := resolution.slots.map (Slot.renumber rename)
    consulted := resolution.consulted.map rename }

/-- The problem with the node it points to, if it does, under another number. -/
def Problem.renumber (rename : NodeId → NodeId) : Problem → Problem
  | .redeclared symbol first => .redeclared symbol (rename first)
  | .ambiguous text role candidates target => .ambiguous text role candidates (rename target)
  | problem => problem

/-- The finding at the same node under another number. -/
def Finding.renumber (rename : NodeId → NodeId) (finding : Finding) : Finding :=
  { finding with
    node := rename finding.node
    problem := finding.problem.renumber rename }

/-! ### The identity -/

theorem Outcome.renumber_id : Outcome.renumber id = id := by
  funext outcome
  cases outcome with
  | known target candidates => rfl
  | undefined reason => rfl

theorem Slot.renumber_id : Slot.renumber id = id := by
  funext slot
  unfold renumber
  rw [Outcome.renumber_id]
  rfl

theorem Reference.renumber_id : Reference.renumber id = id := by
  funext reference
  unfold renumber
  rw [Slot.renumber_id, List.map_id_fun, Option.map_id_fun]
  rfl

theorem Content.renumber_id : Content.renumber id = id := by
  funext content
  unfold renumber
  rw [Reference.renumber_id, List.map_id]
  rfl

theorem renumberNode_id : Node.renumber id = id := by
  funext node
  unfold Node.renumber
  rw [Content.renumber_id, Option.map_id]
  rfl

theorem NameReading.renumber_id : NameReading.renumber id = id := by
  funext reading
  unfold renumber
  rw [List.map_id]
  rfl

theorem Resolution.renumber_id : Resolution.renumber id = id := by
  funext resolution
  unfold renumber
  rw [Slot.renumber_id, List.map_id, List.map_id]
  rfl

/-! ### What the numbers do not touch -/

theorem Slot.target?_renumber (rename : NodeId → NodeId) (slot : Slot) :
    (slot.renumber rename).target? = slot.target?.map rename := by
  rcases slot with ⟨text, symbol, outcome⟩
  cases outcome with
  | known target candidates => rfl
  | undefined reason => rfl

theorem Node.references_renumber (rename : NodeId → NodeId) (node : Node) :
    (node.renumber rename).references = node.references.map (Reference.renumber rename) := by
  unfold references renumber
  cases node.content with
  | none => rfl
  | some content => rfl

theorem Node.reference?_renumber (rename : NodeId → NodeId) (node : Node) (role : String) :
    (node.renumber rename).reference? role =
      (node.reference? role).map (Reference.renumber rename) := by
  rw [reference?, references_renumber, List.find?_map]
  rfl

theorem Reference.slots_renumber (rename : NodeId → NodeId) (reference : Reference) :
    (reference.renumber rename).slots = reference.slots.map (Slot.renumber rename) := by
  unfold slots renumber
  cases reference.answer with
  | none => rfl
  | some slots => rfl

/-- What is found has a status whatever its numbers are. -/
theorem Reference.status_renumber (rename : NodeId → NodeId) (reference : Reference) :
    (reference.renumber rename).status = reference.status := by
  have known : Slot.isKnown ∘ Slot.renumber rename = Slot.isKnown := by
    funext slot
    unfold Function.comp Slot.isKnown
    rw [Slot.target?_renumber, Option.isSome_map]
  unfold status renumber
  cases reference.answer with
  | none => rfl
  | some slots =>
    show Status.ofSlots (slots.map (Slot.renumber rename)) = Status.ofSlots slots
    unfold Status.ofSlots
    rw [List.all_map, known]

end EntityModel
