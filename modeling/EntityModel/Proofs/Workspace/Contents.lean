import EntityModel.Proofs.Arena.Rebuilding
import EntityModel.Proofs.Workspace.Slots

/-
**Nothing is lost between a document and the model.**

A document that is loaded, and an element that is inserted, can be written out again as they came, but
for the children that kinds absorb: these come first.

* `SameKinds` — a node and the one above it have the kinds they had; `Follows.sameKinds` — they keep
  them, whatever comes next.
* `Workspace.KeepsContent` — what is loaded and inserted is built node by node, with consecutive new
  numbers, and written out as the element arranged. Loaded or inserted again in the same position,
  the arranged element is written out unchanged.
* `content_kept` — **so it is in every state.**
-/

namespace EntityModel

/-! ### Kinds stay -/

/-- The second place has the kinds of the first, its own and that of the node above. -/
structure SameKinds (first second : Site) : Prop where
  own : second.node.kind = first.node.kind
  above : second.ancestors.head?.map Node.kind = first.ancestors.head?.map Node.kind

theorem Arena.Follows.kind? {before after : Arena} (follows : before.Follows after)
    {id : NodeId} {earlier later : Cell} (known : before.cell? id = some earlier)
    (held : after.cell? id = some later) : after.kind? (some id) = before.kind? (some id) := by
  have kept := (follows.kept id earlier later known held).kind
  unfold Arena.kind?
  simp [known, held, kept]

/-- **A node and the one above it keep their kinds** as long as the node is there. -/
theorem Catalog.Numbered.sameKinds {before after : Catalog} (numbered : before.Numbered)
    (twin : after.Numbered) (follows : before.arena.Follows after.arena) {first second : Site}
    (firstMem : first ∈ before.sites) (secondMem : second ∈ after.sites)
    (same : second.id = first.id) : SameKinds first second := by
  have known := numbered.cell?_of_site firstMem
  have held := twin.cell?_of_site secondMem
  rw [same] at held
  have kept := follows.kept first.id _ _ known held
  refine ⟨kept.kind, ?_⟩
  rw [← numbered.kind?_above firstMem, ← twin.kind?_above secondMem]
  have parents : second.ancestors.head?.map Node.id = first.ancestors.head?.map Node.id :=
    kept.parent
  rw [parents]
  cases above : first.ancestors.head?.map Node.id with
  | none => rfl
  | some parent =>
    obtain ⟨earlier, there, _⟩ := numbered.cell_of_parent known above
    obtain ⟨later, here, _⟩ := twin.cell_of_parent held (parents.trans above)
    exact follows.kind? there here

/-! ### Loading and inserting -/

/-- The element arranged as the root of a document of the layer. -/
def Element.arrangedAsRoot (layer : Layer) (element : Element) : Element :=
  element.arranged none (.ofRoot layer element.label.tag)

/-- The kind that an element with the tag gets below the place. -/
def Site.kindBelow (site : Site) (tag : String) : Kind :=
  site.node.kind.ofNested (site.ancestors.head?.map Node.kind) tag

/-- The element arranged as a child of the node at the place. -/
def Element.arrangedBelow (site : Site) (element : Element) : Element :=
  element.arranged (some site.node.kind) (site.kindBelow element.label.tag)

/-- Below a node that has kept its kinds an arranged element stays as it is. -/
theorem SameKinds.arrangedBelow {first second : Site} (kinds : SameKinds first second)
    (element : Element) : (element.arrangedBelow first).arrangedBelow second =
      element.arrangedBelow first := by
  unfold Element.arrangedBelow Site.kindBelow
  rw [kinds.own, kinds.above, Element.label_arranged, Element.arranged_arranged]

/-- The root of the document with the number. -/
def Catalog.rootOf? (catalog : Catalog) (id : DocumentId) : Option NodeId :=
  (catalog.document? id).bind fun document => document.root.map fun tree => tree.label.id

namespace Workspace

/-- What is loaded and inserted is kept. -/
structure KeepsContent (workspace : Workspace) : Prop where
  /-- A document is built in the slots, from its root. -/
  loads : ∀ uri layer (element : Element) after document,
    workspace.load uri layer element = (after, document) →
      after.catalog.arena = workspace.catalog.arena.load uri layer element ∧
      after.catalog.rootOf? document = some ⟨workspace.catalog.nextNode⟩ ∧
      Catalog.Built none (.ofRoot layer element.label.tag) element workspace.catalog after.catalog
        ⟨workspace.catalog.nextNode⟩
  /-- Below a node that may be edited an element is built in the slots, at any index. -/
  inserts : ∀ parent site index (element : Element), workspace.editable parent = .ok site →
    ∃ after, workspace.insertElement parent index element =
        .ok (after, ⟨workspace.catalog.nextNode⟩) ∧
      after.catalog.arena = workspace.catalog.arena.insert parent index element ∧
      Catalog.Built (some site.node.kind) (site.kindBelow element.label.tag) element
        workspace.catalog after.catalog ⟨workspace.catalog.nextNode⟩
  /-- What has been loaded once is not changed by being loaded again, however much later. -/
  loadsAgain : ∀ uri layer (element : Element) (later : List Command) after document root,
    (workspace.after later).load uri layer (element.arrangedAsRoot layer) = (after, document) →
      after.catalog.rootOf? document = some root →
        after.catalog.toElement? root = some (element.arrangedAsRoot layer)
  /-- Nor is what has been inserted, below the same node. -/
  insertsAgain : ∀ parent site (element : Element), workspace.editable parent = .ok site →
    ∀ (later : List Command) again index, (workspace.after later).editable parent = .ok again →
      ∃ after child, (workspace.after later).insertElement parent index
          (element.arrangedBelow site) = .ok (after, child) ∧
        after.catalog.toElement? child = some (element.arrangedBelow site)

variable {workspace : Workspace} (coherent : workspace.Coherent)

include coherent

theorem Coherent.rootOf?_load (uri : String) (layer : Layer) (element : Element) :
    (workspace.load uri layer element).1.catalog.rootOf? (workspace.load uri layer element).2 =
      some ⟨workspace.catalog.nextNode⟩ := by
  have grown := Catalog.grown_addDocument workspace.catalog uri layer element
  have listed : (workspace.catalog.addDocument uri layer element).2 ∈
      (workspace.catalog.addDocument uri layer element).1.documents :=
    List.mem_append_right _ List.mem_cons_self
  have found := (grown.numbered_after coherent.numbered).document?_of_mem listed
  have root : ((workspace.catalog.addDocument uri layer element).2.root.map fun tree =>
      tree.label.id) = some ⟨workspace.catalog.nextNode⟩ :=
    congrArg some (Tree.id_label_planted _ _)
  unfold Catalog.rootOf?
  show ((workspace.catalog.addDocument uri layer element).1.document?
    (workspace.catalog.addDocument uri layer element).2.id).bind _ = _
  rw [found]
  exact root

theorem Coherent.built_load {uri : String} {layer : Layer} {element : Element} {after : Workspace}
    {document : DocumentId} (done : workspace.load uri layer element = (after, document)) :
    after.catalog.arena = workspace.catalog.arena.load uri layer element ∧
      after.catalog.rootOf? document = some ⟨workspace.catalog.nextNode⟩ ∧
      Catalog.Built none (.ofRoot layer element.label.tag) element workspace.catalog after.catalog
        ⟨workspace.catalog.nextNode⟩ := by
  rw [← show (workspace.load uri layer element).1 = after from congrArg Prod.fst done,
    ← show (workspace.load uri layer element).2 = document from congrArg Prod.snd done]
  exact ⟨coherent.numbered.arena_addDocument uri layer element,
    coherent.rootOf?_load uri layer element,
    coherent.numbered.built_addDocument uri layer element⟩

theorem Coherent.built_insert {parent : NodeId} {site : Site}
    (editable : workspace.editable parent = .ok site) (index : Option Nat) (element : Element) :
    ∃ after, workspace.insertElement parent index element =
        .ok (after, ⟨workspace.catalog.nextNode⟩) ∧
      after.catalog.arena = workspace.catalog.arena.insert parent index element ∧
      Catalog.Built (some site.node.kind) (site.kindBelow element.label.tag) element
        workspace.catalog after.catalog ⟨workspace.catalog.nextNode⟩ := by
  obtain ⟨member, rfl⟩ := Catalog.mem_sites_of_site? (editable_eq_ok.mp editable).1
  have child : (workspace.catalog.insertUnder site index element).2 =
      ⟨workspace.catalog.nextNode⟩ := Tree.id_label_planted _ _
  refine ⟨workspace.insertAtSite site index element, ?_,
    coherent.numbered.arena_insertUnder member index element,
    coherent.numbered.built_insertUnder member index element⟩
  rw [← child]
  exact bind_eq_ok.mpr ⟨site, editable, rfl⟩

theorem Coherent.keepsContent : workspace.KeepsContent := by
  refine ⟨fun _ _ _ _ _ done => coherent.built_load done,
    fun _ _ index element editable => coherent.built_insert editable index element, ?_, ?_⟩
  · intro uri layer element later after document root done rooted
    obtain ⟨_, found, built⟩ := (coherent.after later).built_load done
    obtain rfl := Option.some.inj (found.symm.trans rooted)
    have written := built.written
    unfold Element.arrangedAsRoot at written ⊢
    rw [Element.label_arranged, Element.arranged_arranged] at written
    exact written
  · rintro parent site element editable later again index stillEditable
    have other := coherent.after later
    obtain ⟨member, own⟩ := Catalog.mem_sites_of_site? (editable_eq_ok.mp editable).1
    obtain ⟨twin, same⟩ := Catalog.mem_sites_of_site? (editable_eq_ok.mp stillEditable).1
    have kinds := coherent.numbered.sameKinds other.numbered
      (slotwise_after coherent later).follows member twin (same.trans own.symm)
    obtain ⟨after, inserted, _, built⟩ :=
      other.built_insert stillEditable index (element.arrangedBelow site)
    refine ⟨after, _, inserted, built.written.trans ?_⟩
    exact congrArg some (kinds.arrangedBelow element)

end Workspace

/-- What moves when an element is arranged. -/
structure Element.Arrangement (outer : Option Kind) (kind : Kind) (element : Element) : Prop where
  /-- The element is its own arrangement exactly when absorbed children come first in it. -/
  still : element.arranged outer kind = element ↔ AbsorbedFirst outer kind element
  /-- Nothing in it is lost, changed or made up. -/
  complete : (element.arranged outer kind).labels.Perm element.labels
  again : (element.arranged outer kind).arranged outer kind = element.arranged outer kind

/-- **Nothing is lost between a document and the model**: whatever is loaded or inserted, in every
state, is written out with the children that kinds absorb before the others and otherwise as it came,
and that is not changed by loading or inserting it again. -/
theorem content_kept (options : Options) (commands : List Command) :
    ((Workspace.ofOptions options).after commands).KeepsContent ∧
      ∀ outer kind element, Element.Arrangement outer kind element :=
  ⟨(Workspace.coherent_after options commands).keepsContent, fun outer kind element =>
    ⟨Element.arranged_eq_self_iff, element.labels_arranged_perm outer kind,
      Element.arranged_arranged outer kind element⟩⟩

end EntityModel
