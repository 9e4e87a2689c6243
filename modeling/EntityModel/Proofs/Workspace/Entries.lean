import EntityModel.Proofs.Workspace.Following

/-
**The entries of a list when nodes are renamed.**

The new text of a reference is made of the text that was last read, and it is written over the one
that is there.

* `EntriesKept` — what a single renaming leaves where these two texts are the same: all entries but
  those that lead to the node. `entriesKept` proves it of every state.
* `entries_kept` — **so nothing is lost where no two renamings meet in one reference.**
-/

namespace EntityModel

namespace Workspace

/-- An attribute of a node, as it stands. -/
def attribute? (workspace : Workspace) (id : NodeId) (key : String) : Option String :=
  (workspace.catalog.node? id).bind fun node => node.head.attribute? key

/-- The entries that now stand there for a reference of the rule. -/
def entriesNow (workspace : Workspace) (id : ReferenceId) (rule : ReferenceRule) : List String :=
  (Reference.written rule (workspace.attribute? id.owner id.role)).texts
    workspace.options.listSeparator

/-- What the renaming of a node with the references to it has done to the attributes. -/
structure EntriesKept (before after : Workspace) (id : NodeId) (name : String)
    (changed : List ReferenceId) : Prop where
  /-- All references that lead to the node are changed, but for those that go with the commit. -/
  references : ∀ referencer, referencer ∈ changed ↔
    (∃ slot, before.Keeps referencer slot ∧ slot.target? = some id) ∧
      before.isPendingDelete referencer.owner = false
  /-- Where the text is the one last read, the entries that do not lead to the node stay, and the
  others get the name as their last part. -/
  entries : ∀ referencer ∈ changed, ∀ reference, before.reference? referencer = some reference →
    before.attribute? referencer.owner referencer.role = reference.text →
      ∃ texts : List String, after.attribute? referencer.owner referencer.role =
          some (before.options.listSeparator.toString.intercalate texts) ∧
        ∀ index : Nat, texts[index]? = (before.entriesNow referencer reference.rule)[index]?.map
          fun text => if reference.slots[index]?.bind Slot.target? = some id
            then replaceLastPart text name else text
  /-- Apart from the name of the node nothing else changes. -/
  others : ∀ node key, ⟨node, key⟩ ∉ changed →
    (node = id → (before.catalog.node? id).bind (fun node => node.kind.nameAttribute?) ≠ some key) →
      after.attribute? node key = before.attribute? node key

section Renamed

variable {workspace after : Workspace} (coherent : workspace.Coherent) {id : NodeId} {name : String}
  {changed : List ReferenceId}
  (done : workspace.renameWithReferences id name = .ok (after, changed))

include coherent done

theorem attribute?_renamed (node : NodeId) (key : String) : after.attribute? node key =
    (workspace.catalog.node? node).bind fun found =>
      written (workspace.renameWrites id name) node key (found.head.attribute? key) := by
  obtain ⟨_, ⟨f, overwritten⟩, _⟩ := overwritten_renameWithReferences done
  unfold attribute?
  rw [overwritten.reworked.node? overwritten.revises.sameId, Option.bind_map]
  refine Option.bind_congr fun found isNode => ?_
  obtain ⟨row, _, rfl, number⟩ := coherent.numbered.node?_eq_some_iff.mp isNode
  rw [Function.comp_apply, overwritten.revises.holds]
  exact congrArg (written _ · key _) number

/-- **A renaming changes the entries that lead to the node**, whatever the state it is done in. -/
theorem entriesKept : EntriesKept workspace after id name changed := by
  obtain ⟨_, _, rfl⟩ := overwritten_renameWithReferences done
  have texts := fun change => @mem_keptTexts workspace coherent id name change
  refine ⟨fun referencer => ?_, fun referencer kept reference found current => ?_,
    fun node key absent unnamed => ?_⟩
  · rw [← coherent.ledgerExact.referencers, coherent.mem_referencers, List.mem_map]
    constructor
    · rintro ⟨change, inside, rfl⟩
      obtain ⟨reference, found, leads, stays, _⟩ := (texts change).mp inside
      exact ⟨⟨reference, found, leads⟩, stays⟩
    · rintro ⟨⟨reference, found, leads⟩, stays⟩
      exact ⟨(referencer, _), (texts _).mpr ⟨reference, found, leads, stays, rfl⟩, rfl⟩
  · obtain ⟨change, inside, rfl⟩ := List.mem_map.mp kept
    obtain ⟨other, same, leads, stays, text⟩ := (texts change).mp inside
    obtain rfl : reference = other := Option.some.inj (found.symm.trans same)
    refine ⟨reference.retargeted workspace.options.listSeparator id name, ?_, fun index => ?_⟩
    · obtain ⟨node, isNode, _⟩ := Option.bind_eq_some_iff.mp found
      rw [attribute?_renamed coherent done, isNode, Option.bind_some, renameWrites, written_append]
      refine (written_of_only (List.mem_map.mpr ⟨change, inside, rfl⟩) ?_ _).trans
        (congrArg some text)
      -- nothing else is written for the reference after it
      intro value written
      obtain ⟨second, listed, alike⟩ := List.mem_map.mp written
      obtain ⟨third, there, _, _, last⟩ := (texts second).mp listed
      obtain ⟨owner, role, rfl⟩ := (Write.mk.injEq ..).mp alike
      rw [show second.1 = change.1 from (ReferenceId.mk.injEq ..).mpr ⟨owner, role⟩] at there
      obtain rfl : reference = third := Option.some.inj (found.symm.trans there)
      exact last.trans text.symm
    · rw [Reference.getElem?_retargeted, entriesNow, current]
      rfl
  · rw [attribute?_renamed coherent done]
    refine Option.bind_congr fun found isNode => written_of_absent (fun value written => ?_) _
    rcases List.mem_append.mp written with named | text
    · obtain ⟨own, isKey, same⟩ := List.mem_map.mp named
      obtain ⟨rfl, rfl, _⟩ := (Write.mk.injEq ..).mp same
      exact unnamed rfl (Option.mem_toList.mp isKey)
    · obtain ⟨change, inside, same⟩ := List.mem_map.mp text
      obtain ⟨rfl, rfl, _⟩ := (Write.mk.injEq ..).mp same
      exact absent (List.mem_map.mpr ⟨change, inside, rfl⟩)

end Renamed

end Workspace

/-- **Renaming nodes loses no entries where nothing meets in one text.** In every state, a renaming
leaves the entries that do not lead to the node, where the text is still the one last read. After
every history of transactions, when nodes are renamed one after the other whose kinds do not enter
into the symbols of each other and no reference leads to two of them, the commit does not fail and
every slot that led to one of them leads to it again. -/
theorem entries_kept (options : Options) :
    (∀ (commands : List Command) (id : NodeId) (name : String) (after : Workspace)
      (changed : List ReferenceId),
      ((Workspace.ofOptions options).after commands).renameWithReferences id name =
          .ok (after, changed) →
        Workspace.EntriesKept ((Workspace.ofOptions options).after commands) after id name
          changed) ∧
    ∀ commands : List Command, (∀ command ∈ commands, command.isTransactional = true) →
      ((Workspace.ofOptions options).after commands).current = .empty →
      ∀ (names : List (NodeId × String)) (renamed : Workspace), names ≠ [] →
        (∀ change ∈ names,
          ((Workspace.ofOptions options).after commands).Suits change.1 change.2) →
        ((Workspace.ofOptions options).after commands).Apart names →
        (∀ change ∈ names, ((Workspace.ofOptions options).after commands).EndsInPart change.1) →
        ((Workspace.ofOptions options).after commands).renameAll names = .ok renamed →
        ∃ after report, renamed.commit = .ok (after, report) ∧ ∀ id reference,
          ((Workspace.ofOptions options).after commands).reference? id = some reference →
            ∀ change ∈ names, change.1 ∈ reference.targets →
              ∃ later, after.reference? id = some later ∧ reference.LeadsAgain change.1 later :=
  ⟨fun commands _ _ _ _ done =>
      Workspace.entriesKept (Workspace.coherent_after options commands) done,
    fun _ plain idle _ _ nonempty suits apart ends done =>
      Workspace.exists_followed (Workspace.steady_after options plain) idle nonempty done suits apart
        ends⟩

theorem entries_kept_derivedType : ∃ renamed after report,
    ((Workspace.ofOptions .standard).after derivedType).renameAll
        [(⟨1⟩, "Article"), (⟨2⟩, "Volume")] = .ok renamed ∧
      renamed.commit = .ok (after, report) ∧ ∃ reference later,
        ((Workspace.ofOptions .standard).after derivedType).reference? ⟨⟨2⟩, "BaseType"⟩ =
            some reference ∧
          after.reference? ⟨⟨2⟩, "BaseType"⟩ = some later ∧ reference.LeadsAgain ⟨1⟩ later := by
  have plain : ∀ command ∈ derivedType, command.isTransactional = true := by decide
  have idle : ((Workspace.ofOptions .standard).after derivedType).current = .empty :=
    Workspace.current_of_closed (Option.not_isSome_iff_eq_none.mp (by decide +kernel))
  have suits : ∀ change ∈ [((⟨1⟩ : NodeId), "Article"), (⟨2⟩, "Volume")],
      ((Workspace.ofOptions .standard).after derivedType).Suits change.1 change.2 := by
    decide +kernel
  have apart : ((Workspace.ofOptions .standard).after derivedType).Apart
      [(⟨1⟩, "Article"), (⟨2⟩, "Volume")] :=
    ⟨by decide +kernel, by decide +kernel, by decide +kernel, by decide +kernel⟩
  have ends : ∀ change ∈ [((⟨1⟩ : NodeId), "Article"), (⟨2⟩, "Volume")],
      ((Workspace.ofOptions .standard).after derivedType).EndsInPart change.1 := by
    decide +kernel
  have renames : (((Workspace.ofOptions .standard).after derivedType).renameAll
      [(⟨1⟩, "Article"), (⟨2⟩, "Volume")]).isOk = true := by
    decide +kernel
  have leads : ∃ reference ∈ ((Workspace.ofOptions .standard).after derivedType).reference?
      ⟨⟨2⟩, "BaseType"⟩, ⟨1⟩ ∈ reference.targets := by
    decide +kernel
  obtain ⟨reference, found, target⟩ := leads
  cases done : ((Workspace.ofOptions .standard).after derivedType).renameAll
      [(⟨1⟩, "Article"), (⟨2⟩, "Volume")] with
  | error refused =>
    rw [done] at renames
    exact nomatch renames
  | ok renamed =>
    obtain ⟨after, report, committed, follows⟩ := (entries_kept .standard).2 derivedType plain idle
      _ renamed (List.cons_ne_nil _ _) suits apart ends done
    obtain ⟨later, there, again⟩ := follows _ reference found _ List.mem_cons_self target
    exact ⟨renamed, after, report, rfl, committed, reference, later, found, there, again⟩

end EntityModel
