import EntityModel.Proofs.Catalog.Loads
import EntityModel.Proofs.Commit.Settling
import EntityModel.Proofs.Workspace.Atomic
import EntityModel.Proofs.Workspace.Declarations
import EntityModel.Proofs.Workspace.Marked

/-
**Files loaded and committed.**

Loading a file adds a document for each of its sections. Nothing is known of their nodes before the
next commit, which spares them whatever it removes: they are newer than all that is marked.

* `Took` — the documents that have come in, at the end and with their roots in the transaction;
  `exists_took` — loading a list of sections, by induction on the list.
* `Runs.declarations_eq` — what a document declares after a commit that reads its tree.
* `Document.Holds` — a document with the nodes of an element and all that they declare.
* `exists_holds` — **after a file is loaded and committed every section of it has its document.**
-/

namespace EntityModel

open Workspace

namespace Workspace

/-! ### Documents that come in -/

/-- The document of a section: it is there, newer than all before and unread, and its root is in the
transaction. -/
structure Placed (start after : Workspace) (part : Layer × Element) (document : Document) :
    Prop where
  written : ∃ uri rank first, start.catalog.nextDocument ≤ rank ∧ start.catalog.nextNode ≤ first ∧
    document = WrittenDocument.placed ⟨uri, part.1, part.2⟩ rank first
  listed : document ∈ after.catalog.documents
  inserted : ∀ root ∈ document.root, root.label.id ∈ after.current.inserted

/-- A document for each section has come in at the end. -/
structure Took (sections : List (Layer × Element)) (start after : Workspace)
    (documents : List Document) : Prop where
  added : after.catalog.documents = start.catalog.documents ++ documents
  placed : List.Forall₂ (Placed start after) sections documents
  earlier : ∀ id ∈ start.current.inserted, id ∈ after.current.inserted
  deleted : after.current.deleted = start.current.deleted
  unloaded : after.current.unloaded = start.current.unloaded
  opened : start.inTransaction = true ∨ sections ≠ [] → after.inTransaction = true

/-- One more section of a file, with the numbers of the documents so far. -/
def loadSection (uri : Layer → String) (state : Workspace × List DocumentId)
    (part : Layer × Element) : Workspace × List DocumentId :=
  ((state.1.load (uri part.1) part.1 part.2).1,
    state.2 ++ [(state.1.load (uri part.1) part.1 part.2).2])

theorem loadSections_eq_foldl (start : Workspace) (uri : Layer → String)
    (sections : List (Layer × Element)) :
    start.loadSections uri sections = sections.foldl (loadSection uri) (start, []) :=
  rfl

theorem took_nil (start : Workspace) : Took [] start start [] where
  added := (List.append_nil _).symm
  placed := .nil
  earlier _ inside := inside
  deleted := rfl
  unloaded := rfl
  opened either := either.resolve_right (absurd rfl)

theorem took_cons {part : Layer × Element} {sections : List (Layer × Element)} {uri : String}
    {start after : Workspace} {documents : List Document}
    (took : Took sections (start.load uri part.1 part.2).1 after documents) :
    Took (part :: sections) start after
      ((start.catalog.addDocument uri part.1 part.2).2 :: documents) where
  added := took.added.trans (List.append_assoc _ [_] documents)
  placed := by
    refine .cons ⟨⟨uri, _, _, Nat.le_refl _, Nat.le_refl _, rfl⟩, ?_, fun tree rooted =>
      took.earlier _ ?_⟩ (took.placed.imp fun other document placed => ?_)
    · rw [took.added]
      exact List.mem_append_left _ (List.mem_append_right _ List.mem_cons_self)
    · obtain rfl := Option.some.inj rooted
      exact OrderedSet.mem_insertAll.mpr (Or.inr List.mem_cons_self)
    · obtain ⟨address, rank, first, newer, later, shape⟩ := placed.written
      exact ⟨⟨address, rank, first, Nat.le_trans (Nat.le_add_right _ _) newer,
        Nat.le_trans (Nat.le_add_right _ _) later, shape⟩, placed.listed, placed.inserted⟩
  earlier id inside := took.earlier id (OrderedSet.mem_insertAll.mpr (Or.inl inside))
  deleted := took.deleted
  unloaded := took.unloaded
  opened _ := took.opened (Or.inl rfl)

/-- **Each section becomes a document**, in order. -/
theorem exists_took (uri : Layer → String) (sections : List (Layer × Element)) :
    ∀ state : Workspace × List DocumentId, ∃ documents,
      Took sections state.1 (sections.foldl (loadSection uri) state).1 documents ∧
      (sections.foldl (loadSection uri) state).2 = state.2 ++ documents.map Document.id := by
  induction sections with
  | nil =>
    exact fun state => ⟨[], took_nil state.1, (List.append_nil _).symm⟩
  | cons part sections ih =>
    intro state
    obtain ⟨documents, took, listed⟩ := ih (loadSection uri state part)
    exact ⟨_, took_cons took, listed.trans (List.append_assoc state.2 [_] _)⟩

/-- What a file that is loaded brings with it. -/
theorem took_of_loadFile {start loaded : Workspace} {uri : String} {bytes : List UInt8}
    {root : Element} {ids : List DocumentId} (readable : Xml.read bytes = .ok root)
    (accepted : start.loadFile uri bytes = .ok (loaded, ids)) :
    ∃ documents, Took root.sections start loaded documents ∧ ids = documents.map Document.id ∧
      loaded.inTransaction = true := by
  unfold loadFile at accepted
  obtain ⟨other, read, accepted⟩ := bind_eq_ok.mp accepted
  obtain rfl := Except.ok.inj ((mapError_eq_ok.mp read).symm.trans readable)
  unfold loadRoot at accepted
  simp only at accepted
  split at accepted
  · exact nomatch accepted
  · rename_i some
    obtain ⟨documents, took, listed⟩ := exists_took _ other.sections (start, [])
    rw [loadSections_eq_foldl] at accepted
    obtain ⟨same, numbers⟩ := Prod.mk.inj (Except.ok.inj accepted)
    rw [same] at took
    refine ⟨documents, took, numbers.symm.trans listed, took.opened (Or.inr ?_)⟩
    exact fun empty => some (List.isEmpty_iff.mpr empty)

end Workspace

/-! ### The commit -/

namespace Course

variable {workspace : Workspace} {transaction : Transaction} {course : Course}
  (runs : course.Runs workspace.closed transaction)

include runs

/-- **A document whose tree the commit reads declares what its elements do.** -/
theorem Runs.declarations_eq {document : Document}
    (member : document ∈ course.after.workspace.catalog.documents) {root : Tree Node}
    (rooted : document.root = some root) (planted : root.label.id ∈ transaction.inserted) :
    document.declarations = (root.map Node.toDraft).declarations := by
  have busy : ∀ row ∈ document.rows, ∃ earlier ∈ course.cleared.workspace.catalog.rows,
      earlier.map course.change = row ∧ earlier.id ∈ course.reread := by
    intro row inside
    obtain ⟨earlier, live, same⟩ :=
      runs.reworked.mem_rows.mp (List.mem_flatMap.mpr ⟨document, member, inside⟩)
    refine ⟨earlier, live, same, runs.mem_reread.mpr ⟨earlier, live, rfl, Or.inr ⟨_, planted, ?_⟩⟩⟩
    rw [← Row.line_map course.inPlace_change.sameId, same]
    rw [Document.rows_of_root rooted] at inside
    obtain ⟨line, listed, rfl⟩ := List.mem_map.mp inside
    exact List.mem_map_of_mem (Tree.label_mem_whole listed)
  refine Document.declarations_eq rooted (fun row inside => ?_) fun row inside => ?_
  · obtain ⟨earlier, live, rfl, again⟩ := busy row inside
    exact runs.contentRead_of_reread live again
  · obtain ⟨earlier, live, rfl, again⟩ := busy row inside
    exact runs.symbol_of_work live (runs.work_of_reread again)

end Course

/-- The document has the nodes of the element, and they declare what the element does. -/
structure Document.Holds (document : Document) (layer : Layer) (element : Element)
    (root : Tree Node) : Prop where
  inLayer : document.layer = layer
  rooted : document.root = some root
  drafted : root.map Node.toDraft = draft none (.ofRoot layer element.label.tag) element
  declares : document.declarations =
    (draft none (.ofRoot layer element.label.tag) element).declarations

namespace Workspace

section Commit

variable {start loaded : Workspace} (coherent : start.Coherent) (below : start.DeletedBelow)

include coherent below

/-- A commit spares the documents that have come in since the marks were set. -/
theorem Placed.spared {part : Layer × Element} {document : Document}
    (placed : Placed start loaded part document) {transaction : Transaction}
    (deleted : transaction.deleted = start.current.deleted)
    (unloaded : transaction.unloaded = start.current.unloaded) :
    document ∈ (loaded.cleared transaction).workspace.catalog.documents := by
  obtain ⟨⟨uri, rank, first, newer, later, rfl⟩, member, _⟩ := placed
  refine mem_documents_cleared member (fun tree rooted node inside marked => ?_) fun dropped => ?_
  · obtain rfl := Option.some.inj rooted
    have listed : node.id ∈ ((WrittenDocument.mk uri part.1 part.2).tree first).labels.map Node.id :=
      List.mem_map_of_mem inside
    rw [WrittenDocument.ids_tree] at listed
    obtain ⟨number, inRange, same⟩ := List.mem_map.mp listed
    have old := below node.id (deleted ▸ marked)
    rw [← same] at old
    exact absurd (Nat.lt_of_lt_of_le old later) (Nat.not_lt.mpr (List.mem_range'_1.mp inRange).1)
  · have old := coherent.unloadedBelow _ (unloaded ▸ dropped)
    exact absurd (Nat.lt_of_lt_of_le old newer) (Nat.lt_irrefl rank)

/-- A document that has come in holds its element after the commit. -/
theorem Placed.holds {part : Layer × Element} {document : Document}
    (placed : Placed start loaded part document)
    (deleted : loaded.current.deleted = start.current.deleted)
    (unloaded : loaded.current.unloaded = start.current.unloaded) (later : loaded.Coherent)
    {saved : Workspace} {report : Report} (done : loaded.commit = .ok (saved, report)) :
    ∃ twin ∈ saved.catalog.documents, twin.id = document.id ∧
      ∃ root, twin.Holds part.1 part.2 root := by
  obtain ⟨transaction, course, opened, runs, rfl⟩ := later.runs_of_commit done
  rw [current_of_transaction opened] at deleted unloaded
  have inserted := placed.inserted
  rw [current_of_transaction opened] at inserted
  -- What is written of the documents that are left stays.
  have written := congrArg Catalog.documents (endures_written.commit opened done)
  have listed : document.written ∈ course.after.workspace.catalog.written.documents :=
    written ▸ List.mem_map_of_mem (placed.spared coherent below deleted unloaded)
  obtain ⟨twin, stays, same⟩ := List.mem_map.mp listed
  obtain ⟨uri, rank, first, _, _, rfl⟩ := placed.written
  have numbers : twin.written.id = _ := congrArg Document.id same
  have layers : twin.written.layer = _ := congrArg Document.layer same
  have roots := congrArg Document.root same
  obtain ⟨root, rooted, trees⟩ := Option.map_eq_some_iff.mp roots
  have drafted : root.map Node.toDraft =
      draft none (.ofRoot part.1 part.2.label.tag) part.2 := by
    have drafts := congrArg (Tree.map Node.toDraft) trees
    rw [Tree.map_map, Tree.map_map] at drafts
    exact drafts.trans (WrittenDocument.toDraft_tree ⟨uri, part.1, part.2⟩ first)
  have top : root.label.id ∈ transaction.inserted := by
    have labels := congrArg (fun tree => tree.label.id) trees
    simp only [Tree.label_map] at labels
    exact labels ▸ inserted _ rfl
  refine ⟨twin, stays, numbers, root, layers, rooted, drafted, ?_⟩
  rw [runs.declarations_eq stays rooted top, drafted]

/-- **After a file is loaded and committed every section of it has its document**, with the nodes of
its element and all that they declare. -/
theorem exists_holds {uri : String} {bytes : List UInt8} {root : Element}
    {ids : List DocumentId} (readable : Xml.read bytes = .ok root)
    (accepted : start.loadFile uri bytes = .ok (loaded, ids)) :
    ∃ saved report, loaded.commit = .ok (saved, report) ∧ saved.Coherent ∧
      List.Forall₂ (fun part id => ∃ document ∈ saved.catalog.documents, document.id = id ∧
        ∃ root, document.Holds part.1 part.2 root) root.sections ids := by
  obtain ⟨documents, took, rfl, opened⟩ := took_of_loadFile readable accepted
  have later : loaded.Coherent := by
    obtain ⟨commands, rfl⟩ := exists_commands_of_loadFile accepted
    exact coherent.after commands
  obtain ⟨transaction, opens⟩ := Option.isSome_iff_exists.mp opened
  obtain ⟨course, runs, report, done⟩ := exists_run later opens
  refine ⟨course.after.workspace, report, done, runs.coherent later opens, ?_⟩
  rw [List.forall₂_map_right_iff]
  exact took.placed.imp fun part document placed =>
    placed.holds coherent below took.deleted took.unloaded later done

end Commit

end Workspace

end EntityModel
