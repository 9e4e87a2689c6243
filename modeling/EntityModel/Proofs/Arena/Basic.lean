import EntityModel.Proofs.Catalog.Rows
import EntityModel.Proofs.Tree.Links

/-
**The arena: nodes in numbered slots that know their parents and children.**

The documents of a workspace can be kept without trees: every node has a slot of its own, under its
number, and refers by numbers to its parent and to its children. What the operations do there is
written down here, slot by slot.

* `Cell`, `Arena` — a filled slot; all slots with the documents, which know their roots by number.
* `build`, `attach`, `remove`, … — the operations. A new tree is built node by node: a node gets its
  slot first, its children are built, and then it is told of them.
* `Climb`, `Walk` — the loops that go up from a node and through the nodes below it, with what they
  come by; a derivation is a loop that ends.
* `Step` — one operation.
-/

namespace EntityModel

/-- A filled slot: a node with its document, its parent and its children. -/
structure Cell where
  node : Node
  document : DocumentId
  parent : Option NodeId
  children : List NodeId

/-- The slot with the node among the children. -/
def Cell.adopt (index : Option Nat) (id : NodeId) (cell : Cell) : Cell :=
  { cell with children := Tree.insertInto index id cell.children }

/-- The slot with the node no longer among the children. -/
def Cell.without (id : NodeId) (cell : Cell) : Cell :=
  { cell with children := cell.children.filter fun child => child ≠ id }

/-- A document that knows its root by number. -/
structure Volume where
  id : DocumentId
  uri : String
  layer : Layer
  root : Option NodeId

/-- All slots, in the order of the numbers; a slot stays empty once its node is gone. -/
structure Arena where
  volumes : List Volume
  nextDocument : Nat
  slots : List (Option Cell)

namespace Arena

/-- Nothing loaded. -/
def empty : Arena := ⟨[], 0, []⟩

/-- What is in the slot. -/
def cell? (arena : Arena) (id : NodeId) : Option Cell :=
  (arena.slots[id.number]?).join

/-- The kind of the node, if there is one. -/
def kind? (arena : Arena) (id : Option NodeId) : Option Kind :=
  (id.bind arena.cell?).map fun cell => cell.node.kind

/-! ### Changes of slots and documents -/

/-- The arena with what is in the slot changed. -/
def modify (arena : Arena) (id : NodeId) (change : Cell → Cell) : Arena :=
  { arena with slots := arena.slots.modify id.number (Option.map change) }

/-- The arena with the slot empty. -/
def vacate (arena : Arena) (id : NodeId) : Arena :=
  { arena with slots := arena.slots.set id.number none }

/-- The arena with these slots behind the others. -/
def extend (arena : Arena) (cells : List Cell) : Arena :=
  { arena with slots := arena.slots ++ cells.map some }

/-- The arena with another root for the document. -/
def setRoot (arena : Arena) (document : DocumentId) (root : Option NodeId) : Arena :=
  { arena with
    volumes := arena.volumes.map fun volume =>
      if volume.id = document then { volume with root } else volume }

/-! ### Building -/

/-- The kind of an element with the tag below the node, or of the root of the document. -/
def kindOf (arena : Arena) (document : DocumentId) (parent : Option NodeId) (tag : String) : Kind :=
  match parent.bind arena.cell? with
  | some cell => cell.node.kind.ofNested (arena.kind? cell.parent) tag
  | none =>
    let volume? := arena.volumes.find? fun volume => volume.id = document
    .ofRoot ((volume?.map Volume.layer).getD .conceptual) tag

mutual

/-- The arena with the nodes of the element, and its own number. The new root is not listed among
the children of its parent. -/
def build (document : DocumentId) (parent : Option NodeId) (arena : Arena) :
    Element → Arena × NodeId
  | .node head children =>
    let kind := arena.kindOf document parent head.tag
    let id : NodeId := ⟨arena.slots.length⟩
    let form : Draft := ⟨kind, head, children.filter fun child => kind.absorbs child.label.tag⟩
    let begun := arena.extend [⟨.ofDraft id.number form, document, parent, []⟩]
    let built := buildAll document id kind begun children
    (built.1.modify id fun cell => { cell with children := built.2 }, id)

/-- The same for the children of a node of the kind, those that it absorbs aside. -/
def buildAll (document : DocumentId) (parent : NodeId) (kind : Kind) (arena : Arena) :
    List Element → Arena × List NodeId
  | [] => (arena, [])
  | child :: children =>
    if kind.absorbs child.label.tag then buildAll document parent kind arena children
    else
      let first := build document (some parent) arena child
      let others := buildAll document parent kind first.1 children
      (others.1, first.2 :: others.2)

end

/-! ### The operations -/

/-- The arena with a new document that has no root yet. -/
def addVolume (arena : Arena) (uri : String) (layer : Layer) : Arena :=
  { arena with
    volumes := arena.volumes ++ [⟨⟨arena.nextDocument⟩, uri, layer, none⟩]
    nextDocument := arena.nextDocument + 1 }

/-- The arena with a new document. -/
def load (arena : Arena) (uri : String) (layer : Layer) (root : Element) : Arena :=
  let document : DocumentId := ⟨arena.nextDocument⟩
  let built := (arena.addVolume uri layer).build document none root
  built.1.setRoot document (some built.2)

/-- The arena with the node listed among the children of another. -/
def attach (arena : Arena) (parent : NodeId) (index : Option Nat) (child : NodeId) : Arena :=
  arena.modify parent (Cell.adopt index child)

/-- The arena with the element below a node. -/
def insert (arena : Arena) (parent : NodeId) (index : Option Nat) (element : Element) : Arena :=
  match arena.cell? parent with
  | none => arena
  | some cell =>
    let built := arena.build cell.document (some parent) element
    built.1.attach parent index built.2

/-- The node is taken off the children of its parent; a root leaves its document without one. -/
def detach (arena : Arena) (id : NodeId) (cell : Cell) : Arena :=
  match cell.parent with
  | some parent => arena.modify parent (Cell.without id)
  | none => arena.setRoot cell.document none

/-- The arena without the node and those that have been found below it. -/
def remove (arena : Arena) (id : NodeId) (found : List NodeId) : Arena :=
  match arena.cell? id with
  | none => arena
  | some cell => found.foldl vacate (arena.detach id cell)

/-- The arena without the document. -/
def dropDocument (arena : Arena) (document : DocumentId) : Arena :=
  { arena with volumes := arena.volumes.filter fun volume => volume.id ≠ document }

/-- The arena with the node changed. -/
def write (arena : Arena) (id : NodeId) (change : Node → Node) : Arena :=
  arena.modify id fun cell => { cell with node := change cell.node }

/-! ### Loops -/

/-- Going up from the node leads through these nodes, and ends. -/
inductive Climb (arena : Arena) : NodeId → List NodeId → Prop where
  | top {id : NodeId} (alone : (arena.cell? id).bind Cell.parent = none) : Climb arena id []
  | step {id parent : NodeId} {above : List NodeId}
      (below : (arena.cell? id).bind Cell.parent = some parent) (rest : Climb arena parent above) :
      Climb arena id (parent :: above)

/-- With these nodes on the stack, the first on top, going through the nodes and those below them
finds these, and ends. -/
inductive Walk (arena : Arena) : List NodeId → List NodeId → Prop where
  | done : Walk arena [] []
  | skip {id : NodeId} {stack found : List NodeId} (absent : arena.cell? id = none)
      (rest : Walk arena stack found) : Walk arena (id :: stack) found
  | visit {id : NodeId} {stack found : List NodeId} {cell : Cell} (here : arena.cell? id = some cell)
      (rest : Walk arena (cell.children ++ stack) found) : Walk arena (id :: stack) (id :: found)

/-- The nodes in document order: for each document what is found from its root. -/
def InOrder (arena : Arena) (order : List NodeId) : Prop :=
  ∃ parts, List.Forall₂ (fun root part => arena.Walk [root] part)
    (arena.volumes.filterMap Volume.root) parts ∧ order = parts.flatten

/-! ### Steps -/

/-- One operation on the arena. -/
inductive Step : Arena → Arena → Prop where
  | load {arena : Arena} (uri : String) (layer : Layer) (root : Element) :
      Step arena (arena.load uri layer root)
  | insert {arena : Arena} {parent : NodeId} {cell : Cell} (live : arena.cell? parent = some cell)
      (index : Option Nat) (element : Element) : Step arena (arena.insert parent index element)
  | remove {arena : Arena} {id : NodeId} {found : List NodeId} (walk : arena.Walk [id] found) :
      Step arena (arena.remove id found)
  /-- Only a document that has lost its root goes. -/
  | drop {arena : Arena} {document : DocumentId}
      (hollow : ∀ volume ∈ arena.volumes, volume.id = document → volume.root = none) :
      Step arena (arena.dropDocument document)
  /-- What is known of a node or written in it changes, but for its number, kind and tag. -/
  | write {arena : Arena} {id : NodeId} {change : Node → Node}
      (keeps : ∀ node, (change node).id = node.id ∧ (change node).kind = node.kind ∧
        (change node).head.tag = node.head.tag) : Step arena (arena.write id change)

/-! ### Slots after a change -/

theorem number_ne {id other : NodeId} (apart : other ≠ id) : id.number ≠ other.number := by
  intro same
  rcases id with ⟨number⟩
  rcases other with ⟨otherNumber⟩
  obtain rfl : number = otherNumber := same
  exact apart rfl

theorem cell?_modify (arena : Arena) (id : NodeId) (change : Cell → Cell) (other : NodeId) :
    (arena.modify id change).cell? other =
      if other = id then (arena.cell? other).map change else arena.cell? other := by
  unfold cell? modify
  simp only
  rw [List.getElem?_modify]
  by_cases same : other = id
  · rw [if_pos same, same]
    simp only [if_true]
    cases arena.slots[id.number]? with
    | none => rfl
    | some slot => rfl
  · rw [if_neg same]
    simp only [if_neg (number_ne same)]
    exact congrArg Option.join Option.map_id'

theorem cell?_vacate (arena : Arena) (id other : NodeId) : (arena.vacate id).cell? other =
    if other = id then none else arena.cell? other := by
  unfold cell? vacate
  simp only
  rw [List.getElem?_set]
  by_cases same : other = id
  · rw [if_pos same, same, if_pos rfl]
    split
    · rfl
    · rfl
  · rw [if_neg same, if_neg (number_ne same)]

theorem cell?_foldl_vacate (found : List NodeId) : ∀ (arena : Arena) (other : NodeId),
    (found.foldl vacate arena).cell? other = if other ∈ found then none else arena.cell? other := by
  induction found with
  | nil => exact fun _ _ => (if_neg List.not_mem_nil).symm
  | cons id found ih =>
    intro arena other
    rw [List.foldl_cons, ih, cell?_vacate]
    by_cases later : other ∈ found
    · rw [if_pos later, if_pos (List.mem_cons_of_mem _ later)]
    · by_cases same : other = id
      · rw [if_neg later, if_pos same, if_pos (List.mem_cons.mpr (Or.inl same))]
      · rw [if_neg later, if_neg same, if_neg fun inside =>
          (List.mem_cons.mp inside).elim same later]

theorem length_foldl_vacate (found : List NodeId) : ∀ arena : Arena,
    (found.foldl vacate arena).slots.length = arena.slots.length := by
  induction found with
  | nil => exact fun _ => rfl
  | cons id found ih => exact fun arena => (ih _).trans List.length_set

theorem volumes_foldl_vacate (found : List NodeId) : ∀ arena : Arena,
    (found.foldl vacate arena).volumes = arena.volumes ∧
      (found.foldl vacate arena).nextDocument = arena.nextDocument := by
  induction found with
  | nil => exact fun _ => ⟨rfl, rfl⟩
  | cons id found ih => exact fun arena => ih _

theorem cell?_extend_of_lt {arena : Arena} (cells : List Cell) {id : NodeId}
    (old : id.number < arena.slots.length) : (arena.extend cells).cell? id = arena.cell? id := by
  unfold cell? extend
  rw [List.getElem?_append_left old]

theorem cell?_extend_of_le {arena : Arena} (cells : List Cell) {id : NodeId}
    (new : arena.slots.length ≤ id.number) :
    (arena.extend cells).cell? id = cells[id.number - arena.slots.length]? := by
  unfold cell? extend
  rw [List.getElem?_append_right new, List.getElem?_map]
  cases cells[id.number - arena.slots.length]? with
  | none => rfl
  | some cell => rfl

theorem cell?_extend (arena : Arena) (cells : List Cell) (id : NodeId) :
    (arena.extend cells).cell? id = if id.number < arena.slots.length then arena.cell? id
      else cells[id.number - arena.slots.length]? := by
  split
  · rename_i old
    exact cell?_extend_of_lt cells old
  · rename_i new
    exact cell?_extend_of_le cells (Nat.le_of_not_lt new)

/-- A slot that is filled has been given out. -/
theorem lt_of_cell? {arena : Arena} {id : NodeId} {cell : Cell} (found : arena.cell? id = some cell) :
    id.number < arena.slots.length := by
  by_contra beyond
  unfold cell? at found
  rw [List.getElem?_eq_none (Nat.le_of_not_lt beyond)] at found
  exact nomatch found

theorem extend_extend (arena : Arena) (cells others : List Cell) :
    (arena.extend cells).extend others = arena.extend (cells ++ others) := by
  unfold extend
  rw [List.map_append, List.append_assoc]

theorem extend_nil (arena : Arena) : arena.extend [] = arena := by
  unfold extend
  rw [List.map_nil, List.append_nil]

theorem length_extend (arena : Arena) (cells : List Cell) :
    (arena.extend cells).slots.length = arena.slots.length + cells.length := by
  unfold extend
  rw [List.length_append, List.length_map]

theorem modify_append_cons {α : Type} (front : List α) (item : α) (rest : List α) (change : α → α) :
    (front ++ item :: rest).modify front.length change = front ++ change item :: rest := by
  induction front with
  | nil => rfl
  | cons first front ih => exact congrArg (first :: ·) ih

/-- The first of the slots behind the others is the one with the next number. -/
theorem modify_extend (arena : Arena) (cell : Cell) (cells : List Cell) (change : Cell → Cell) :
    (arena.extend (cell :: cells)).modify ⟨arena.slots.length⟩ change =
      arena.extend (change cell :: cells) := by
  unfold extend modify
  simp only [List.map_cons]
  rw [modify_append_cons]
  rfl

end Arena

end EntityModel
