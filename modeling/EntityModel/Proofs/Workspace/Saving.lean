import EntityModel.Proofs.Workspace.Files
import EntityModel.Proofs.Workspace.Reload
import EntityModel.Proofs.Xml.Accepted

/-
**Documents saved and loaded again.**

A document is saved as its element alone, without the section of the file that it stood in. When it
is loaded again its layer is told by its root, and the root of a schema tells it by a provider or a
namespace only. All else comes back: the nodes with their kinds and all that they declare.

* `Layer.ToldBy` — the root tells the layer; `exists_layer?` — the layer it tells has a place for
  the root, and is the same just then.
* `mem_labels_sections`, `mem_labels_of_drafted` — what is saved of a file has heads of the file.
* `ReadsAs` — a text that is one document of a layer wherever it is loaded; `readsAs_of_read` — for
  this it has to be read as the element of one.
* `readsAs_saved` — **what is saved of a file is one document again**, with the same kinds and
  declarations; it has the same layer just when its root tells the layer.
-/

namespace EntityModel

/-! ### The layer that a root tells -/

/-- The root tells the layer: that of a schema is the storage layer if and only if the root marks
it. -/
def Layer.ToldBy (layer : Layer) (root : Head) : Prop :=
  layer.isSchema = true → (root.marksStorage = true ↔ layer = .storage)

instance (layer : Layer) (root : Head) : Decidable (layer.ToldBy root) :=
  inferInstanceAs (Decidable (_ → _))

/-- Where the layer has a place for the root, the layer that the root tells has the same one. -/
theorem exists_layer? {layer : Layer} {root : Head}
    (modelled : Kind.ofRoot layer root.tag ≠ .misplaced) :
    ∃ told, root.layer? = some told ∧ Kind.ofRoot told root.tag = .ofRoot layer root.tag ∧
      (told = layer ↔ layer.ToldBy root) := by
  unfold Head.layer? Layer.ToldBy
  cases layer with
  | conceptual | storage =>
    have tag : root.tag = "Schema" := by
      by_contra other
      exact modelled (if_neg other)
    rw [tag, if_pos rfl]
    cases marks : root.marksStorage with
    | false => exact ⟨.conceptual, rfl, rfl, by decide⟩
    | true => exact ⟨.storage, rfl, rfl, by decide⟩
  | mapping =>
    have tag : root.tag = "Mapping" := by
      by_contra other
      exact modelled (if_neg other)
    rw [tag]
    exact ⟨.mapping, rfl, rfl, iff_of_true rfl fun schema => nomatch schema⟩
  | designer =>
    have tag : root.tag = "Designer" := by
      by_contra other
      exact modelled (if_neg other)
    rw [tag]
    exact ⟨.designer, rfl, rfl, iff_of_true rfl fun schema => nomatch schema⟩

/-- A root that tells a layer is no container. -/
theorem ne_containerTag {root : Head} {layer : Layer} (told : root.layer? = some layer) :
    root.tag ≠ containerTag := by
  intro container
  unfold Head.layer? at told
  rw [container] at told
  exact nomatch told

theorem sections_of_layer? {root : Element} {layer : Layer}
    (told : root.label.layer? = some layer) : root.sections = [(layer, root)] := by
  rw [Element.sections, if_neg (show root.tag ≠ containerTag from ne_containerTag told), told]

/-- A file that is no container holds itself, in the layer that its root tells. -/
theorem of_mem_sections {root document : Element} {layer : Layer}
    (member : (layer, document) ∈ root.sections) (single : root.tag ≠ containerTag) :
    document = root ∧ root.label.layer? = some layer := by
  rw [Element.sections, if_neg single] at member
  split at member
  · rename_i told found
    obtain ⟨rfl, rfl⟩ := Prod.mk.inj (List.mem_singleton.mp member)
    exact ⟨rfl, found⟩
  · exact absurd member List.not_mem_nil

/-! ### The heads of what is saved -/

theorem mem_labels_partSections {part document : Element} {layer : Layer}
    (member : (layer, document) ∈ part.partSections) {head : Head}
    (inside : head ∈ document.labels) : head ∈ part.labels := by
  unfold Element.partSections at member
  split at member
  · obtain ⟨models, listed, found⟩ := List.mem_flatMap.mp member
    split at found
    · obtain ⟨child, below, same⟩ := List.mem_map.mp found
      obtain ⟨_, rfl⟩ := Prod.mk.inj same
      exact Tree.mem_labels_of_child listed (Tree.mem_labels_of_child below inside)
    · exact absurd found List.not_mem_nil
  · split at member
    · obtain ⟨_, rfl⟩ := Prod.mk.inj (List.mem_singleton.mp member)
      exact inside
    · exact absurd member List.not_mem_nil

/-- The documents of a file have heads of the file. -/
theorem mem_labels_sections {root document : Element} {layer : Layer}
    (member : (layer, document) ∈ root.sections) {head : Head}
    (inside : head ∈ document.labels) : head ∈ root.labels := by
  unfold Element.sections at member
  split at member
  · obtain ⟨part, listed, found⟩ := List.mem_flatMap.mp member
    exact Tree.mem_labels_of_child listed (mem_labels_partSections found inside)
  · split at member
    · obtain ⟨_, rfl⟩ := Prod.mk.inj (List.mem_singleton.mp member)
      exact inside
    · exact absurd member List.not_mem_nil

/-- The head of a draft and those of its inline children are heads of the element. -/
theorem mem_labels_draft (element : Element) : ∀ {outer : Option Kind} {kind : Kind}
    {drafted : Draft}, drafted ∈ (draft outer kind element).labels →
      drafted.head ∈ element.labels ∧
        ∀ child ∈ drafted.inline, ∀ head ∈ child.labels, head ∈ element.labels := by
  induction element using Tree.induct with
  | step top children ih =>
    intro outer kind drafted member
    have lower : ∀ {child head}, child ∈ children → head ∈ child.labels →
        head ∈ (Tree.node top children).labels := fun listed inside =>
      @Tree.mem_labels_of_child _ (.node top children) _ listed _ inside
    rw [draft, Tree.labels_node, drafts_eq] at member
    rcases List.mem_cons.mp member with rfl | below
    · refine ⟨Tree.labels_node top children ▸ List.mem_cons_self, fun child inline => ?_⟩
      exact fun head => lower (List.mem_of_mem_filter inline)
    · obtain ⟨labels, listed, inside⟩ := List.mem_flatten.mp below
      obtain ⟨tree, found, rfl⟩ := List.mem_map.mp listed
      obtain ⟨child, kept, rfl⟩ := List.mem_map.mp found
      have own := List.mem_of_mem_filter kept
      obtain ⟨head, inline⟩ := ih child own inside
      exact ⟨lower own head, fun other held head inside => lower own (inline other held head inside)⟩

/-- What a tree of nodes is written as has the heads of the nodes and of their inline children. -/
theorem exists_of_mem_labels_toElement (tree : Tree Node) : ∀ {head : Head},
    head ∈ tree.toElement.labels → ∃ node ∈ tree.labels,
      head = node.head ∨ ∃ child ∈ node.inline, head ∈ child.labels := by
  induction tree using Tree.induct with
  | step top children ih =>
    intro head member
    rw [Tree.toElement, Tree.fold_node, Tree.labels_node] at member
    have here : top ∈ (Tree.node top children).labels :=
      Tree.labels_node top children ▸ List.mem_cons_self
    rcases List.mem_cons.mp member with rfl | below
    · exact ⟨top, here, Or.inl rfl⟩
    · obtain ⟨labels, listed, inside⟩ := List.mem_flatten.mp below
      obtain ⟨child, found, rfl⟩ := List.mem_map.mp listed
      rcases List.mem_append.mp found with inline | written
      · exact ⟨top, here, Or.inr ⟨child, inline, inside⟩⟩
      · obtain ⟨lower, own, rfl⟩ := List.mem_map.mp written
        obtain ⟨node, held, either⟩ := ih lower own inside
        exact ⟨node, @Tree.mem_labels_of_child _ (.node top children) _ own _ held, either⟩

section Drafted

variable {layer : Layer} {element : Element} {root : Tree Node}
  (drafted : root.map Node.toDraft = draft none (.ofRoot layer element.label.tag) element)

include drafted

/-- Nodes that come from an element are written with heads of the element. -/
theorem mem_labels_of_drafted {head : Head} (inside : head ∈ root.toElement.labels) :
    head ∈ element.labels := by
  obtain ⟨node, held, either⟩ := exists_of_mem_labels_toElement root inside
  have member : node.toDraft ∈ (draft none (.ofRoot layer element.label.tag) element).labels := by
    rw [← drafted, Tree.labels_map]
    exact List.mem_map_of_mem held
  obtain ⟨own, inline⟩ := mem_labels_draft element member
  rcases either with rfl | ⟨child, kept, below⟩
  · exact own
  · exact inline child kept head below

theorem label_of_drafted : root.label.kind = .ofRoot layer element.label.tag ∧
    root.label.head = element.label := by
  have labels := congrArg Tree.label drafted
  rw [Tree.label_map] at labels
  rcases element with ⟨head, children⟩
  exact ⟨congrArg Draft.kind labels, congrArg Draft.head labels⟩

/-- What the nodes are written as is classified as they are. -/
theorem draft_toElement_of_drafted :
    draft none (.ofRoot layer element.label.tag) root.toElement =
      draft none (.ofRoot layer element.label.tag) element := by
  have again := draft_toElement_root (classified_of_drafted drafted)
  rw [Tree.label_toElement, (label_of_drafted drafted).2, drafted] at again
  exact again

end Drafted

/-! ### Documents that stand alone -/

/-- Wherever the text is loaded and committed it is one document, of the layer and with these
declarations. -/
def ReadsAs (text : String) (layer : Layer) (declarations : List (Kind × Option Symbol)) : Prop :=
  ∀ (options : Options) (calls : List Attempt.Call) (uri : String),
    ∃ loaded id saved report document,
      (Attempt.after (Workspace.ofOptions options) calls).loadFile uri text.toUTF8.toList =
          .ok (loaded, [id]) ∧
        loaded.commit = .ok (saved, report) ∧ saved.catalog.document? id = some document ∧
        document.layer = layer ∧ document.declarations = declarations

namespace Workspace

/-- Calls lead to coherent workspaces in which all marks are old. -/
theorem coherent_calls (options : Options) (calls : List Attempt.Call) :
    (Attempt.after (ofOptions options) calls).Coherent ∧
      (Attempt.after (ofOptions options) calls).DeletedBelow := by
  obtain ⟨commands, same⟩ := (coherent_ofOptions options).exists_commands_of_calls calls
  rw [same]
  exact ⟨coherent_after options commands, deletedBelow_after options commands⟩

theorem exists_loadFile (workspace : Workspace) (uri : String) {bytes : List UInt8}
    {root : Element} (readable : Xml.read bytes = .ok root) (nonempty : root.sections ≠ []) :
    ∃ loaded ids, workspace.loadFile uri bytes = .ok (loaded, ids) := by
  have loads : ∃ result, workspace.loadRoot uri root = .ok result :=
    ⟨_, if_neg fun empty => nonempty (List.isEmpty_iff.mp empty)⟩
  obtain ⟨⟨loaded, ids⟩, done⟩ := loads
  exact ⟨loaded, ids, bind_eq_ok.mpr ⟨root, mapError_eq_ok.mpr readable, done⟩⟩

end Workspace

/-- **A text that is read as the element of one document is that document**, wherever it is loaded. -/
theorem readsAs_of_read {text : String} {element : Element} {layer : Layer}
    (readable : Xml.read text.toUTF8.toList = .ok element)
    (alone : element.sections = [(layer, element)]) :
    ReadsAs text layer (draft none (.ofRoot layer element.label.tag) element).declarations := by
  intro options calls uri
  obtain ⟨coherent, below⟩ := Workspace.coherent_calls options calls
  obtain ⟨loaded, ids, accepted⟩ := Workspace.exists_loadFile
    (Attempt.after (Workspace.ofOptions options) calls) uri readable
    (by rw [alone]; exact List.cons_ne_nil _ _)
  obtain ⟨saved, report, done, later, all⟩ :=
    Workspace.exists_holds coherent below readable accepted
  rw [alone] at all
  obtain ⟨id, others, ⟨document, member, rfl, root, holds⟩, rest, rfl⟩ :=
    List.forall₂_cons_left_iff.mp all
  obtain rfl := List.forall₂_nil_left_iff.mp rest
  exact ⟨loaded, document.id, saved, report, document, accepted, done,
    later.numbered.document?_of_mem member, holds.inLayer, holds.declares⟩

/-! ### Saving -/

/-- A document that holds an element with proper names is written, and what is written is one
document again. -/
theorem Document.Holds.saved {saved : Workspace} (coherent : saved.Coherent) {document : Document}
    (member : document ∈ saved.catalog.documents) {layer : Layer} {element : Element}
    {root : Tree Node} (holds : document.Holds layer element root)
    (proper : ∀ head ∈ element.labels, Xml.Proper head) {told : Layer}
    (tells : element.label.layer? = some told)
    (same : Kind.ofRoot told element.label.tag = .ofRoot layer element.label.tag) :
    ∃ text, saved.saveDocument document.id = .ok text ∧
      ReadsAs text told document.declarations := by
  have found := coherent.numbered.document?_of_mem member
  have written := Catalog.toElement?_root coherent.numbered member holds.rooted
  refine ⟨Xml.write root.toElement, ?_, ?_⟩
  · unfold Workspace.saveDocument
    rw [found]
    simp only [Option.bind_eq_bind, Option.bind_some, holds.rooted, written]
  · -- What is read again differs from what is written in texts and places alone.
    obtain ⟨again, readable, becomes⟩ := map_eq_ok.mp (Xml.read_write_of_proper fun head inside =>
      proper head (mem_labels_of_drafted holds.drafted inside))
    have bare : again.map Head.bare = root.toElement.map Head.bare := by
      have bares := congrArg (Tree.map Head.bare) becomes
      unfold Xml.unplaced Xml.settled at bares
      rw [Tree.map_map, Tree.map_map, Tree.map_map] at bares
      exact bares
    have label : again.label.bare = element.label.bare := by
      have labels := congrArg Tree.label bare
      rw [Tree.label_map, Tree.label_map, Tree.label_toElement,
        (label_of_drafted holds.drafted).2] at labels
      exact labels
    have tag : again.label.bare.tag = element.label.bare.tag := congrArg Head.tag label
    have alone : again.label.bare.layer? = element.label.bare.layer? := congrArg Head.layer? label
    have reads := readsAs_of_read readable (sections_of_layer? (Eq.trans alone tells))
    rw [show again.label.tag = element.label.tag from tag, same, declarations_draft bare,
      draft_toElement_of_drafted holds.drafted, ← holds.declares] at reads
    exact reads

/-- **What is saved of a file is one document again**, wherever it is loaded: with the same kinds and
declarations of its nodes, and in the same layer just when its root tells the layer. Documents that
are files of their own always come back in their layer. -/
theorem readsAs_saved (options : Options) (calls : List Attempt.Call) {uri : String}
    {bytes : List UInt8} {root : Element} (readable : Xml.read bytes = .ok root)
    (named : ∀ head ∈ root.labels, Xml.Named head) {loaded : Workspace} {ids : List DocumentId}
    (accepted : (Attempt.after (Workspace.ofOptions options) calls).loadFile uri bytes =
      .ok (loaded, ids)) :
    ∃ saved report, loaded.commit = .ok (saved, report) ∧ ∀ id ∈ ids, ∃ document top,
      saved.catalog.document? id = some document ∧ document.root = some top ∧
      (top.label.kind ≠ .misplaced → ∃ text layer, saved.saveDocument id = .ok text ∧
        ReadsAs text layer document.declarations ∧
        (layer = document.layer ↔ document.layer.ToldBy top.label.head) ∧
        (root.tag ≠ containerTag → layer = document.layer)) := by
  obtain ⟨coherent, below⟩ := Workspace.coherent_calls options calls
  obtain ⟨saved, report, done, later, all⟩ :=
    Workspace.exists_holds coherent below readable accepted
  refine ⟨saved, report, done, fun id inside => ?_⟩
  obtain ⟨index, inIds, rfl⟩ := List.getElem_of_mem inside
  have inSections : index < root.sections.length := all.length_eq ▸ inIds
  obtain ⟨document, member, number, top, holds⟩ := all.get inSections inIds
  have part := List.getElem_mem inSections
  rw [List.get_eq_getElem] at holds number
  generalize root.sections[index] = found at holds part
  obtain ⟨layer, element⟩ := found
  refine ⟨document, top, number ▸ later.numbered.document?_of_mem member, holds.rooted, ?_⟩
  intro modelled
  rw [(label_of_drafted holds.drafted).1] at modelled
  obtain ⟨told, tells, same, here⟩ := exists_layer? modelled
  obtain ⟨text, written, reads⟩ := holds.saved later member (fun head inside =>
    Xml.proper_of_read readable named head (mem_labels_sections part inside)) tells same
  rw [holds.inLayer, (label_of_drafted holds.drafted).2]
  refine ⟨text, told, number ▸ written, reads, here, fun single => ?_⟩
  obtain ⟨rfl, own⟩ := of_mem_sections part single
  exact Option.some.inj (tells.symm.trans own)

/-- A container with a storage schema, which names its provider, and a conceptual one. -/
def container : List UInt8 :=
  Utf8.encode ("<Edmx><Runtime><StorageModels><Schema Provider=\x22P\x22/></StorageModels>" ++
    "<ConceptualModels><Schema Namespace=\x22A\x22><EntityType Name=\x22B\x22/></Schema>" ++
    "</ConceptualModels></Runtime></Edmx>")

theorem readsAs_saved_container : ∃ root loaded ids saved report,
    Xml.read container = .ok root ∧ (∀ head ∈ root.labels, Xml.Named head) ∧
      (Attempt.after (Workspace.ofOptions .standard) []).loadFile "shop.edmx" container =
        .ok (loaded, ids) ∧ ids.length = 2 ∧ loaded.commit = .ok (saved, report) ∧
      ∀ id ∈ ids, ∃ document text, saved.catalog.document? id = some document ∧
        saved.saveDocument id = .ok text ∧ ReadsAs text document.layer document.declarations := by
  have known : ∃ root, root ∈ (Xml.read container).toOption ∧
      (∀ head ∈ root.labels, Xml.Named head) ∧
      ∃ file, file ∈ ((Workspace.ofOptions .standard).loadRoot "shop.edmx" root).toOption ∧
        file.2.length = 2 ∧ ∀ after ∈ file.1.commit.toOption, ∀ id ∈ file.2,
          ∀ document ∈ after.1.catalog.document? id, ∀ top ∈ document.root,
            top.label.kind ≠ .misplaced ∧ document.layer.ToldBy top.label.head := by
    decide +kernel
  obtain ⟨root, read, named, ⟨loaded, ids⟩, loads, two, tells⟩ := known
  have readable := mem_toOption.mp read
  have accepted : (Attempt.after (Workspace.ofOptions .standard) []).loadFile "shop.edmx"
      container = .ok (loaded, ids) :=
    bind_eq_ok.mpr ⟨root, mapError_eq_ok.mpr readable, mem_toOption.mp loads⟩
  obtain ⟨saved, report, done, all⟩ := readsAs_saved .standard [] readable named accepted
  refine ⟨root, loaded, ids, saved, report, readable, named, accepted, two, done, ?_⟩
  intro id inside
  obtain ⟨document, top, found, rooted, saves⟩ := all id inside
  obtain ⟨modelled, told⟩ := tells _ (mem_toOption.mpr done) id inside document found top rooted
  obtain ⟨text, layer, written, reads, same, _⟩ := saves modelled
  exact ⟨document, text, found, written, same.mpr told ▸ reads⟩

end EntityModel
