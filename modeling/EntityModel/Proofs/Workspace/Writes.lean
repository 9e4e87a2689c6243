import EntityModel.Proofs.Workspace.Edits
import EntityModel.Proofs.Workspace.Lifecycle

/-
**Values written for attributes.**

* `Write` — a value for an attribute of a node; `written` — what is there once a list of values has
  been written.
* `Overwritten` — a workspace differs from another in such values and in the nodes that are being
  edited, and in nothing else.
* `overwritten_renameNode`, `overwritten_renameWithReferences` — **renaming a node writes its name,
  and the texts of the references to it, if it is asked to**; the texts are those that the workspace
  before has for them.
-/

namespace EntityModel

/-! ### Attributes -/

theorem Attributes.lookup_replace (name value key : String) (entries : List (String × String)) :
    (entries.map fun entry => if entry.1 = name then (name, value) else entry).lookup key =
      if key = name then (if name ∈ entries.map Prod.fst then some value else none)
      else entries.lookup key := by
  induction entries with
  | nil => simp
  | cons entry entries ih =>
    rcases entry with ⟨other, held⟩
    rw [List.map_cons, List.lookup_cons, List.lookup_cons, ih]
    by_cases same : key = name
    · subst same
      by_cases here : other = key
      · simp [here]
      · simp only [if_neg here, beq_eq_false_iff_ne.mpr (Ne.symm here), List.map_cons,
          List.mem_cons, Ne.symm here, false_or, if_true]
    · by_cases here : other = name
      · simp [here, same, beq_eq_false_iff_ne.mpr same]
      · simp [here, same]

theorem Attributes.get?_set (attributes : Attributes) (name value key : String) :
    (attributes.set name value).get? key = if key = name then some value else attributes.get? key := by
  unfold get? set
  split
  · rename_i present
    rw [lookup_replace, if_pos present]
  · rename_i absent
    rw [List.lookup_append]
    by_cases same : key = name
    · subst same
      have none : attributes.entries.lookup key = none := by
        rw [List.lookup_eq_none_iff]
        intro entry member
        simp only [bne_iff_ne, ne_eq]
        exact fun equal => absent (equal ▸ List.mem_map_of_mem member)
      simp [none]
    · simp [same]

/-! ### Values written -/

/-- The node with an attribute set. -/
def Node.setAttribute (key value : String) (node : Node) : Node :=
  { node with head := { node.head with attributes := node.head.attributes.set key value } }

theorem Node.attribute?_setAttribute (key value : String) (node : Node) (other : String) :
    (node.setAttribute key value).head.attribute? other =
      if other = key then some value else node.head.attribute? other :=
  Attributes.get?_set node.head.attributes key value other

/-- A value for an attribute of a node. -/
structure Write where
  node : NodeId
  key : String
  value : String

/-- The text of a reference as a value for an attribute of its owner. -/
def Write.ofText (change : ReferenceId × String) : Write :=
  ⟨change.1.owner, change.1.role, change.2⟩

/-- What an attribute holds once the values are written, one after the other. -/
def written (writes : List Write) (id : NodeId) (key : String) (held : Option String) :
    Option String :=
  writes.foldl (fun held write => if write.node = id ∧ write.key = key then some write.value else held)
    held

theorem written_append (earlier later : List Write) (id : NodeId) (key : String)
    (held : Option String) :
    written (earlier ++ later) id key held = written later id key (written earlier id key held) :=
  List.foldl_append

theorem written_of_absent {writes : List Write} {id : NodeId} {key : String}
    (absent : ∀ value, ⟨id, key, value⟩ ∉ writes) (held : Option String) :
    written writes id key held = held := by
  induction writes with
  | nil => rfl
  | cons write writes ih =>
    have other : ¬(write.node = id ∧ write.key = key) := by
      rintro ⟨rfl, rfl⟩
      exact absent write.value List.mem_cons_self
    rw [written, List.foldl_cons, if_neg other]
    exact ih fun value member => absent value (List.mem_cons_of_mem _ member)

/-- What is written last is there, so it is the only value if there is but one. -/
theorem written_of_only {writes : List Write} {id : NodeId} {key value : String}
    (member : ⟨id, key, value⟩ ∈ writes)
    (only : ∀ other, ⟨id, key, other⟩ ∈ writes → other = value) (held : Option String) :
    written writes id key held = some value := by
  induction writes generalizing held with
  | nil => exact absurd member List.not_mem_nil
  | cons write writes ih =>
    have rest := fun other inside => only other (List.mem_cons_of_mem _ inside)
    by_cases later : ⟨id, key, value⟩ ∈ writes
    · exact ih later rest _
    · obtain rfl : ⟨id, key, value⟩ = write := (List.mem_cons.mp member).resolve_right later
      rw [written, List.foldl_cons, if_pos ⟨rfl, rfl⟩]
      exact written_of_absent (fun other inside => later (rest other inside ▸ inside)) _

/-- The nodes change in the attributes that are written, and may be taken back to their written
form. -/
structure Revises (writes : List Write) (f : Node → Node) : Prop where
  rewritten : ∀ node, ∃ attributes stage,
    f node = { node with head := { node.head with attributes }, stage }
  holds : ∀ node key,
    (f node).head.attribute? key = written writes node.id key (node.head.attribute? key)
  others : ∀ node, (∀ write ∈ writes, write.node ≠ node.id) → f node = node

namespace Revises

variable {writes : List Write} {f : Node → Node} (revises : Revises writes f)

include revises

theorem sameId (node : Node) : (f node).id = node.id := by
  obtain ⟨_, _, same⟩ := revises.rewritten node
  rw [same]

theorem sameKind (node : Node) : (f node).kind = node.kind := by
  obtain ⟨_, _, same⟩ := revises.rewritten node
  rw [same]

theorem sameContent (node : Node) : (f node).content = node.content := by
  obtain ⟨_, _, same⟩ := revises.rewritten node
  rw [same]

end Revises

namespace Workspace

/-- The second workspace is the first one with the values written, and with the nodes they are
written for among those that are being edited. -/
structure Overwritten (writes : List Write) (f : Node → Node) (before after : Workspace) :
    Prop where
  revises : Revises writes f
  reworked : Catalog.Reworked f before.catalog after.catalog
  ledger : after.ledger = before.ledger
  options : after.options = before.options
  edited : ∀ id, id ∈ after.current.edited ↔
    id ∈ before.current.edited ∨ ∃ write ∈ writes, write.node = id
  inserted : after.current.inserted = before.current.inserted
  deleted : after.current.deleted = before.current.deleted
  unloaded : after.current.unloaded = before.current.unloaded

namespace Overwritten

theorem refl (workspace : Workspace) : Overwritten [] id workspace workspace :=
  ⟨⟨fun node => ⟨node.head.attributes, node.stage, rfl⟩, fun _ _ => rfl, fun _ _ => rfl⟩, .refl _, rfl, rfl, fun _ => by simp, rfl, rfl, rfl⟩

theorem trans {earlier later : List Write} {f g : Node → Node}
    {before between after : Workspace} (first : Overwritten earlier f before between)
    (second : Overwritten later g between after) :
    Overwritten (earlier ++ later) (g ∘ f) before after := by
  refine ⟨⟨?_, ?_, ?_⟩, first.reworked.trans second.reworked,
    second.ledger.trans first.ledger, second.options.trans first.options, ?_,
    second.inserted.trans first.inserted, second.deleted.trans first.deleted,
    second.unloaded.trans first.unloaded⟩
  · intro node
    obtain ⟨attributes, stage, same⟩ := first.revises.rewritten node
    obtain ⟨final, last, changed⟩ := second.revises.rewritten (f node)
    refine ⟨final, last, ?_⟩
    rw [Function.comp_apply, changed, same]
  · intro node key
    rw [Function.comp_apply, second.revises.holds, first.revises.sameId, first.revises.holds,
      written_append]
  · intro node apart
    have unchanged : f node = node := first.revises.others node fun write member =>
      apart write (List.mem_append_left _ member)
    rw [Function.comp_apply, unchanged]
    exact second.revises.others node fun write member =>
      apart write (List.mem_append_right _ member)
  · intro id
    simp only [second.edited, first.edited, List.mem_append, or_and_right, exists_or, or_assoc]

variable {writes : List Write} {f : Node → Node} {before after : Workspace}
  (overwritten : Overwritten writes f before after)

include overwritten

theorem isPendingDelete (id : NodeId) :
    after.isPendingDelete id = before.isPendingDelete id := by
  have above : ∀ catalog : Catalog, catalog.ancestors id =
      ((catalog.row? id).map fun row => row.above.map Node.id).getD [] := by
    intro catalog
    rw [Catalog.row?_eq]
    unfold Catalog.ancestors
    cases catalog.site? id with
    | none => rfl
    | some site => rfl
  have same : after.catalog.ancestors id = before.catalog.ancestors id := by
    rw [above, above, overwritten.reworked.row? overwritten.revises.sameId, Option.map_map]
    congr 2
    funext row
    show (row.above.map f).map Node.id = row.above.map Node.id
    rw [List.map_map]
    exact List.map_congr_left fun node _ => overwritten.revises.sameId node
  unfold Workspace.isPendingDelete
  rw [same, overwritten.deleted]

theorem reference? (id : ReferenceId) : after.reference? id = before.reference? id := by
  unfold Workspace.reference?
  rw [overwritten.reworked.node? overwritten.revises.sameId, Option.bind_map]
  congr 1
  funext node
  show (f node).reference? id.role = node.reference? id.role
  unfold Node.reference? Node.references
  rw [overwritten.revises.sameContent]

theorem retargetedTexts (id : NodeId) (name : String) :
    after.retargetedTexts id name = before.retargetedTexts id name := by
  unfold Workspace.retargetedTexts
  rw [overwritten.ledger, overwritten.options]
  refine List.filterMap_congr fun reference _ => ?_
  rw [overwritten.reference?]

theorem kind_of_node? (id : NodeId) :
    (after.catalog.node? id).map Node.kind = (before.catalog.node? id).map Node.kind := by
  rw [overwritten.reworked.node? overwritten.revises.sameId, Option.map_map]
  congr 1
  funext node
  exact overwritten.revises.sameKind node

end Overwritten

/-! ### Calls that go through -/

section Allowed

variable {workspace : Workspace} {id : NodeId}

/-- A node that is not there cannot be edited. -/
theorem editable_of_absent (absent : workspace.catalog.site? id = none) :
    workspace.editable id = .error (.unknownNode id) := by
  unfold editable site
  rw [absent]
  rfl

/-- A node that stays may be edited. -/
theorem beginEdit_of_live (live : workspace.catalog.contains id = true)
    (stays : workspace.isPendingDelete id = false) :
    workspace.beginEdit id = .ok (workspace.write id (Node.atStage .unparsed)) := by
  obtain ⟨site, located⟩ := Option.isSome_iff_exists.mp live
  unfold beginEdit
  rw [bind_eq_ok]
  exact ⟨site, editable_eq_ok.mpr ⟨located, stays⟩, rfl⟩

/-- The head of a node that is being edited may be changed. -/
theorem changeHead_of_editing (editing : workspace.isEditing id = true)
    (live : workspace.catalog.contains id = true) (change : Head → Head) :
    workspace.changeHead id change =
      .ok (workspace.modify id fun node => { node with head := change node.head }) := by
  obtain ⟨site, located⟩ := Option.isSome_iff_exists.mp live
  unfold changeHead
  rw [editing, site_eq_ok.mpr located]
  rfl

theorem isEditing_write (workspace : Workspace) (id : NodeId) (change : Node → Node) :
    (workspace.write id change).isEditing id = true :=
  decide_eq_true (OrderedSet.mem_insert.mpr (Or.inr rfl))

theorem contains_modify (workspace : Workspace) {change : Node → Node}
    (keeps : ∀ node, (change node).id = node.id) (id other : NodeId) :
    (workspace.modify id change).catalog.contains other = workspace.catalog.contains other :=
  (Catalog.reworked_modify workspace.catalog keeps id).contains (id_onlyAt keeps id) other

end Allowed

/-! ### Calls that write -/

section Calls

variable {workspace after : Workspace}

theorem revises_onlyAt {id : NodeId} {key value : String} {change : Node → Node}
    (changes : ∀ node, ∃ stage, change node = { node.setAttribute key value with stage }) :
    Revises [⟨id, key, value⟩] (onlyAt id change) := by
  refine ⟨fun node => ?_, fun node other => ?_, fun node apart => ?_⟩
  · rcases onlyAt_cases id change node with same | same
    · obtain ⟨stage, changed⟩ := changes node
      exact ⟨_, stage, same.trans changed⟩
    · exact ⟨node.head.attributes, node.stage, same⟩
  · by_cases here : node.id = id
    · obtain ⟨stage, changed⟩ := changes node
      rw [onlyAt_of_eq here, changed]
      refine (node.attribute?_setAttribute key value other).trans ?_
      rw [written, List.foldl_cons, List.foldl_nil]
      exact if_congr (by simp [here, eq_comm]) rfl rfl
    · rw [onlyAt_of_ne here, written_of_absent]
      exact fun held member => here (congrArg Write.node (List.mem_singleton.mp member))
  · exact onlyAt_of_ne fun here => apart _ (List.mem_singleton_self _) here.symm

theorem overwritten_setAttribute {id : NodeId} {key value : String}
    (done : workspace.setAttribute id key value = .ok after) :
    ∃ f, Overwritten [⟨id, key, value⟩] f workspace after := by
  unfold setAttribute changeHead at done
  cases editing : workspace.isEditing id with
  | false => simp [editing] at done
  | true =>
    rw [editing] at done
    obtain ⟨site, _, same⟩ := bind_eq_ok.mp done
    obtain rfl : workspace.modify id (Node.setAttribute key value) = after := Except.ok.inj same
    have member : id ∈ workspace.current.edited := of_decide_eq_true editing
    have revises : Revises [⟨id, key, value⟩] (onlyAt id (Node.setAttribute key value)) :=
      revises_onlyAt fun node => ⟨node.stage, rfl⟩
    have reworked := @Catalog.reworked_modify workspace.catalog (Node.setAttribute key value)
      (fun _ => rfl) id
    refine ⟨_, revises, reworked, rfl, rfl, fun other => ?_, rfl, rfl, rfl⟩
    constructor
    · exact Or.inl
    · rintro (inside | ⟨write, listed, rfl⟩)
      · exact inside
      · rw [List.mem_singleton.mp listed]
        exact member

/-- A node is taken back to its written form, and a value is written. -/
theorem overwritten_edit {opened : Workspace} {id : NodeId} {key value : String}
    (began : workspace.beginEdit id = .ok opened)
    (done : opened.setAttribute id key value = .ok after) :
    ∃ f, Overwritten [⟨id, key, value⟩] f workspace after := by
  unfold beginEdit at began
  obtain ⟨site, _, same⟩ := bind_eq_ok.mp began
  obtain rfl := Except.ok.inj same
  unfold setAttribute changeHead at done
  split at done
  · exact nomatch done
  · obtain ⟨site, _, same⟩ := bind_eq_ok.mp done
    obtain rfl : Workspace.modify _ id (Node.setAttribute key value) = after := Except.ok.inj same
    have revises : Revises [⟨id, key, value⟩]
        (onlyAt id (Node.setAttribute key value ∘ Node.atStage .unparsed)) :=
      revises_onlyAt fun node => ⟨.unparsed, rfl⟩
    have reworked := (@Catalog.reworked_modify workspace.catalog (Node.atStage .unparsed)
      (fun _ => rfl) id).trans
        (@Catalog.reworked_modify _ (Node.setAttribute key value) (fun _ => rfl) id)
    rw [@onlyAt_onlyAt (Node.atStage .unparsed) _ (fun _ => rfl)] at reworked
    refine ⟨_, revises, reworked, rfl, rfl, fun other => ?_, rfl, rfl, rfl⟩
    show other ∈ workspace.current.edited.insert id ↔ _
    rw [OrderedSet.mem_insert]
    refine or_congr_right ⟨fun same => ?_, ?_⟩
    · exact ⟨_, List.mem_singleton_self _, same.symm⟩
    · rintro ⟨write, listed, rfl⟩
      rw [List.mem_singleton.mp listed]

/-- **Renaming a node** writes the attribute that holds its name. -/
theorem overwritten_renameNode {id : NodeId} {name : String}
    (done : workspace.renameNode id name = .ok after) : ∃ site key f,
      workspace.editable id = .ok site ∧ site.node.kind.nameAttribute? = some key ∧
        Overwritten [⟨id, key, name⟩] f workspace after := by
  obtain ⟨site, key, opened, editable, named, began, written⟩ := renameNode_eq_ok.mp done
  obtain ⟨f, overwritten⟩ := overwritten_edit began written
  exact ⟨site, key, f, editable, named, overwritten⟩

/-- The references that stay, with the texts they get. -/
def keptTexts (workspace : Workspace) (changes : List (ReferenceId × String)) :
    List (ReferenceId × String) :=
  changes.filter fun change => !workspace.isPendingDelete change.1.owner

theorem overwritten_writeText {state next : Workspace × List ReferenceId}
    {change : ReferenceId × String} (done : writeText state change = .ok next) :
    ∃ f, Overwritten ((state.1.keptTexts [change]).map Write.ofText) f state.1 next.1 ∧
      next.2 = state.2 ++ (state.1.keptTexts [change]).map Prod.fst := by
  unfold keptTexts
  rcases writeText_cases done with ⟨pending, rfl⟩ | ⟨stays, more, set | ⟨opened, began, set⟩⟩
  · rw [List.filter_cons_of_neg (by simp [pending])]
    exact ⟨_, .refl next.1, (List.append_nil _).symm⟩
  · rw [List.filter_cons_of_pos (by simp [stays])]
    obtain ⟨f, overwritten⟩ := overwritten_setAttribute set
    exact ⟨f, overwritten, more⟩
  · rw [List.filter_cons_of_pos (by simp [stays])]
    obtain ⟨f, overwritten⟩ := overwritten_edit began set
    exact ⟨f, overwritten, more⟩

theorem Overwritten.keptTexts {writes : List Write} {f : Node → Node} {before after : Workspace}
    (overwritten : Overwritten writes f before after) (changes : List (ReferenceId × String)) :
    after.keptTexts changes = before.keptTexts changes := by
  refine List.filter_congr fun change _ => ?_
  rw [overwritten.isPendingDelete]

/-- Texts are written one after the other; what is left out is the same throughout. -/
theorem overwritten_foldlM (changes : List (ReferenceId × String)) :
    ∀ {state last : Workspace × List ReferenceId}, changes.foldlM writeText state = .ok last →
      ∃ f, Overwritten ((state.1.keptTexts changes).map Write.ofText) f state.1 last.1 ∧
        last.2 = state.2 ++ (state.1.keptTexts changes).map Prod.fst := by
  induction changes with
  | nil =>
    intro state last ran
    obtain rfl : state = last := Except.ok.inj ran
    exact ⟨id, .refl _, (List.append_nil _).symm⟩
  | cons change changes ih =>
    intro state last ran
    obtain ⟨next, taken, rest⟩ := foldlM_cons_eq_ok.mp ran
    obtain ⟨f, first, one⟩ := overwritten_writeText taken
    obtain ⟨g, others, more⟩ := ih rest
    rw [first.keptTexts] at others more
    have parts : state.1.keptTexts (change :: changes) =
        state.1.keptTexts [change] ++ state.1.keptTexts changes := by
      rw [Workspace.keptTexts, ← List.singleton_append, List.filter_append]
      rfl
    refine ⟨g ∘ f, ?_, ?_⟩
    · rw [parts, List.map_append]
      exact first.trans others
    · rw [more, one, parts, List.map_append, List.append_assoc]

/-- The values that renaming a node with the references to it writes: its name and the texts of the
references that stay. -/
def renameWrites (workspace : Workspace) (id : NodeId) (name : String) : List Write :=
  ((workspace.catalog.node? id).bind fun node => node.kind.nameAttribute?).toList.map
      (fun key => ⟨id, key, name⟩) ++
    (workspace.keptTexts (workspace.retargetedTexts id name)).map Write.ofText

theorem Overwritten.renameWrites {writes : List Write} {f : Node → Node} {before after : Workspace}
    (overwritten : Overwritten writes f before after) (id : NodeId) (name : String) :
    after.renameWrites id name = before.renameWrites id name := by
  have keys : ∀ catalog : Catalog, ((catalog.node? id).bind fun node => node.kind.nameAttribute?) =
      ((catalog.node? id).map Node.kind).bind Kind.nameAttribute? := by
    intro catalog
    rw [Option.bind_map]
    rfl
  unfold Workspace.renameWrites
  rw [keys, keys, overwritten.kind_of_node?, overwritten.retargetedTexts, overwritten.keptTexts]

/-- **Renaming a node with the references to it** writes its name and the texts of the references,
as the workspace before has them. -/
theorem overwritten_renameWithReferences {id : NodeId} {name : String} {written : List ReferenceId}
    (done : workspace.renameWithReferences id name = .ok (after, written)) :
    (∃ site, workspace.editable id = .ok site ∧ site.node.kind.nameAttribute?.isSome = true) ∧
      (∃ f, Overwritten (workspace.renameWrites id name) f workspace after) ∧
        written = (workspace.keptTexts (workspace.retargetedTexts id name)).map Prod.fst := by
  unfold renameWithReferences at done
  obtain ⟨renamed, began, rest⟩ := bind_eq_ok.mp done
  obtain ⟨site, key, f, editable, named, first⟩ := overwritten_renameNode began
  obtain ⟨g, others, more⟩ := overwritten_foldlM _ rest
  rw [first.keptTexts] at others more
  have node : workspace.catalog.node? id = some site.node := by
    rw [Catalog.node?, (editable_eq_ok.mp editable).1]
    rfl
  have writes : workspace.renameWrites id name = [⟨id, key, name⟩] ++
      (workspace.keptTexts (workspace.retargetedTexts id name)).map Write.ofText := by
    rw [renameWrites, node, Option.bind_some, named]
    rfl
  refine ⟨⟨site, editable, by rw [named]; rfl⟩, ⟨g ∘ f, ?_⟩, ?_⟩
  · rw [writes]
    exact first.trans others
  · rw [List.nil_append] at more
    exact more

end Calls

end Workspace

end EntityModel
