import EntityModel.Proofs.Commit.Run
import EntityModel.Proofs.Workspace.Current

/-
**What a commit passes over.**

A reference that is neither evaluated again nor owned by a queued node rests on nothing that the
commit has changed, so its evaluation would give the same again.

* `line_idle` — a node that is neither read nor named again has no such node above it.
* `declaring_of_untouched` — a symbol that is not noted is declared by the same nodes as before.
* `Idle` — a reference whose slots, those aside that are left alone, have no noted symbol and whose
  evaluation consulted no node that is read again. `idle_of_not_queued` finds the owners that are not
  queued in this case.
* `lasts_of_idle` — what is kept of such a reference lasts.
-/

namespace EntityModel

open Workspace

theorem lookup_map_of_mem {α β : Type} [DecidableEq α] (f : α → β) {items : List α} {item : α}
    (member : item ∈ items) : (items.map fun each => (each, f each)).lookup item = some (f item) := by
  induction items with
  | nil => exact absurd member List.not_mem_nil
  | cons first others ih =>
    rw [List.map_cons, List.lookup_cons]
    by_cases same : item = first
    · rw [same, beq_self_eq_true]
    · rw [beq_eq_false_iff_ne.mpr same]
      exact ih ((List.mem_cons.mp member).resolve_left same)

theorem lookup_map_of_not_mem {α β : Type} [DecidableEq α] (f : α → β) {items : List α} {item : α}
    (absent : item ∉ items) : (items.map fun each => (each, f each)).lookup item = none := by
  induction items with
  | nil => rfl
  | cons first others ih =>
    rw [List.mem_cons, not_or] at absent
    rw [List.map_cons, List.lookup_cons, beq_eq_false_iff_ne.mpr absent.1]
    exact ih absent.2

theorem exists_of_forall₂ {α β : Type} {related : α → β → Prop} {items : List α} {others : List β}
    (same : List.Forall₂ related items others) {item : α} (member : item ∈ items) :
    ∃ other ∈ others, related item other := by
  induction same with
  | nil => exact absurd member List.not_mem_nil
  | cons here _ ih =>
    rcases List.mem_cons.mp member with rfl | later
    · exact ⟨_, List.mem_cons_self, here⟩
    · obtain ⟨other, inside, holds⟩ := ih later
      exact ⟨other, List.mem_cons_of_mem _ inside, holds⟩

theorem forall₂_trans_of_mem {α β γ : Type} {first : α → β → Prop} {second : β → γ → Prop}
    {whole : α → γ → Prop} {items : List α} {others : List β} {last : List γ}
    (same : List.Forall₂ first items others) (alike : List.Forall₂ second others last)
    (each : ∀ item ∈ items, ∀ other final, first item other → second other final →
      whole item final) : List.Forall₂ whole items last := by
  induction same generalizing last with
  | nil =>
    cases alike
    exact .nil
  | cons here _ ih =>
    cases alike with
    | cons there rest =>
      exact .cons (each _ List.mem_cons_self _ _ here there)
        (ih rest fun item member => each item (List.mem_cons_of_mem _ member))

namespace Course

variable {workspace : Workspace} {transaction : Transaction} {course : Course}

namespace Runs

/-! ### Nodes that are neither read nor named again -/

section Lines

variable (runs : course.Runs workspace.closed transaction)

include runs

/-- What is read or named again stands below something edited or new. -/
theorem exists_root_of_work {row : Row} (live : row ∈ course.cleared.workspace.catalog.rows)
    (member : row.id ∈ course.work) :
    ∃ root ∈ row.line, root ∈ transaction.edited ∨ root ∈ transaction.inserted := by
  have numbered := runs.removal.sound.numbered
  rcases runs.work.mp member with again | below
  · obtain ⟨other, found, same, either⟩ := runs.mem_reread.mp again
    obtain rfl := numbered.eq_of_id found live same
    rcases either with edited | ⟨root, planted, through⟩
    · exact ⟨other.id, other.id_mem_line, Or.inl edited⟩
    · exact ⟨root, through, Or.inr planted⟩
  · obtain ⟨_, _, _, _, _, root, edited, tail⟩ :=
      (mem_toRenormalize runs.reading.sound.numbered).mp below
    have inside := (Catalog.subtree_tail _).mpr (Or.inr tail)
    obtain ⟨other, found, same, through⟩ := runs.reading.sound.numbered.mem_subtree.mp inside
    have keeps := course.inPlace_reader.sameId
    obtain ⟨earlier, before, rfl, line⟩ := runs.reworked_reader.line_mem keeps found
    obtain rfl := numbered.eq_of_id before live ((keeps earlier.node).symm.trans same)
    rw [line] at through
    exact ⟨root, through, Or.inl edited⟩

/-- A node that has been read and is not named again stands below nothing edited or new. -/
theorem not_mem_line {row : Row} (live : row ∈ course.cleared.workspace.catalog.rows)
    (idle : row.id ∉ course.work) (reached : row.node.stage.reaches .parsed = true) {root : NodeId}
    (touched : root ∈ transaction.edited ∨ root ∈ transaction.inserted) : root ∉ row.line := by
  intro through
  have unread : row.id ∉ course.reread := fun member => idle (runs.work_of_reread member)
  rcases touched with edited | planted
  · have inPlace := course.inPlace_reader
    have own : course.reader row.node = row.node := onlyIn_of_not_mem unread
    have found : row.map course.reader ∈ course.read.workspace.catalog.rows :=
      runs.reworked_reader.map_mem live
    have inside : row.id ∈ course.read.workspace.catalog.subtree root := by
      refine runs.reading.sound.numbered.mem_subtree.mpr ⟨_, found, inPlace.sameId row.node, ?_⟩
      rw [Row.line_map inPlace.sameId]
      exact through
    rcases (Catalog.subtree_tail _).mp inside with ⟨same, _⟩ | tail
    · exact unread (runs.mem_reread.mpr ⟨row, live, rfl, Or.inl (same ▸ edited)⟩)
    · refine idle (runs.work.mpr (Or.inr ?_))
      refine (mem_toRenormalize runs.reading.sound.numbered).mpr ⟨_, found,
        inPlace.sameId row.node, unread, ?_, root, edited, tail⟩
      show (course.reader row.node).stage.reaches .parsed = true
      rw [own]
      exact reached
  · exact unread (runs.mem_reread.mpr ⟨row, live, rfl, Or.inr ⟨root, planted, through⟩⟩)

/-- **A node that is neither read nor named again** has none above it that is. -/
theorem line_idle {row : Row} (live : row ∈ course.cleared.workspace.catalog.rows)
    (idle : row.id ∉ course.work) (reached : row.node.stage.reaches .parsed = true) :
    row.map course.prepare = row := by
  have each : ∀ node ∈ row.node :: row.above, course.prepare node = node := by
    intro node inside
    obtain ⟨upper, found, suffix⟩ := Catalog.row_of_mem_line live inside
    refine runs.prepare_of_not_mem fun member => ?_
    obtain ⟨root, through, touched⟩ := runs.exists_root_of_work found member
    refine runs.not_mem_line live idle reached touched ?_
    rw [Row.line_eq] at through ⊢
    exact (suffix.map Node.id).subset through
  rw [@Row.map_congr course.prepare id row each, mapRow_id]

end Lines

/-! ### Symbols that are not noted -/

section Symbols

variable (runs : course.Runs workspace.closed transaction)

include runs

/-- The symbol carried along for a node that is read again is the one it had. -/
theorem symbolBefore_eq {row : Row} (live : row ∈ course.cleared.workspace.catalog.rows) :
    symbolBefore course.earlier (course.reader row.node) = row.node.symbol := by
  have carried : course.earlier = course.reread.map fun id =>
      (id, (course.cleared.workspace.catalog.node? id).bind Node.symbol) := runs.reading.earlier
  have number : (course.reader row.node).id = row.id := course.inPlace_reader.sameId row.node
  unfold symbolBefore
  rw [number, carried]
  by_cases again : row.id ∈ course.reread
  · rw [lookup_map_of_mem _ again, Option.getD_some,
      runs.removal.sound.numbered.node?_of_mem live, Option.bind_some]
  · rw [lookup_map_of_not_mem _ again, Option.getD_none,
      reader, onlyIn_of_not_mem (show row.node.id ∉ course.reread from again)]

/-- A node that is named again has the symbol it declares after the reading. -/
theorem symbol_prepare {row : Row} (live : row ∈ course.cleared.workspace.catalog.rows)
    (busy : row.id ∈ course.work) :
    (course.prepare row.node).symbol = (row.map course.reader).declaredSymbol? := by
  have found : row.map course.reader ∈ course.read.workspace.catalog.rows :=
    runs.reworked_reader.map_mem live
  have number : (course.reader row.node).id = row.id := course.inPlace_reader.sameId row.node
  have located := runs.reading.sound.numbered.row?_of_mem found
  rw [show (row.map course.reader).id = row.id from number] at located
  unfold prepare
  rw [Function.comp_apply, onlyIn_of_mem (number.symm ▸ busy), Catalog.rename, number, located]
  rfl

/-- A node declares a symbol that is not noted as it did before. -/
theorem declared_prepare {row : Row} (live : row ∈ course.cleared.workspace.catalog.rows)
    {symbol : Symbol} (untouched : symbol ∉ course.named.touched) :
    (course.prepare row.node).declared? = some symbol ↔ row.node.declared? = some symbol := by
  by_cases busy : row.id ∈ course.work
  · rw [Node.declared?_eq_some_iff, Node.declared?_eq_some_iff]
    refine and_congr_left fun real => ?_
    have found : row.map course.reader ∈ course.read.workspace.catalog.rows :=
      runs.reworked_reader.map_mem live
    have number : (row.map course.reader).id = row.id := course.inPlace_reader.sameId row.node
    have before := runs.symbolBefore_eq live
    have after := runs.symbol_prepare live busy
    by_cases same : symbolBefore course.earlier (course.reader row.node) =
        (row.map course.reader).declaredSymbol?
    · rw [after, ← same, before]
    · have noted := runs.naming.touched _ found (number.symm ▸ busy) same symbol real
      constructor
      · intro declares
        exact absurd (noted (Or.inr (after.symm.trans declares))) untouched
      · intro declares
        exact absurd (noted (Or.inl (before.trans declares))) untouched
  · rw [runs.prepare_of_not_mem (show row.node.id ∉ course.work from busy)]

/-- **A symbol that is not noted is declared by the same nodes as before.** -/
theorem declaring_of_untouched {symbol : Symbol} (untouched : symbol ∉ course.named.touched) :
    course.queued.workspace.catalog.declaring symbol =
      (workspace.catalog.declaring symbol).map (Row.map course.prepare) := by
  have unnoted : symbol ∉ course.cleared.touched := fun member =>
    untouched (runs.naming.noted (runs.reading.touched ▸ member))
  have kept : (course.cleared.workspace.catalog.rows.filter fun row =>
      decide (row.node.declared? = some symbol)) = workspace.catalog.declaring symbol := by
    rw [runs.removal.rows, List.filter_filter, Catalog.declaring]
    refine List.filter_congr fun row member => ?_
    by_cases declares : row.node.declared? = some symbol
    · cases gone : row.passes transaction.deleted.items with
      | true => exact absurd (runs.removal.touched row member gone symbol declares) unnoted
      | false => rw [decide_eq_true declares]; rfl
    · rw [decide_eq_false declares]
      rfl
  rw [Catalog.declaring, runs.reworked_prepare.rows, List.filter_map, ← kept]
  congr 1
  refine List.filter_congr fun row member => ?_
  rw [Function.comp_apply, decide_eq_decide]
  exact runs.declared_prepare member untouched

end Symbols

/-! ### Evaluations that come out as before -/

/-- The commit notes no symbol that the evaluation of a reference has met, slots that are left alone
aside, and reads no node again that the evaluation consulted. -/
structure Idle (course : Course) (workspace : Workspace) (owner : NodeId) (reference : Reference) :
    Prop where
  slots : ∀ slot ∈ reference.slots,
    workspace.options.rebindWaiting = true ∨ slot.isKnown = true → slot.symbol.isEmpty = false →
      slot.symbol ∉ course.named.touched
  lookups : ∀ symbol ∈ (workspace.evaluate owner reference).lookups,
    symbol ∉ course.named.touched
  consulted : ∀ id ∈ (workspace.evaluate owner reference).consulted, id ∉ course.reread

section Evaluation

variable (runs : course.Runs workspace.closed transaction)

include runs

/-- What rests on a node that is read again is read again or queued. -/
theorem busy_of_dependency {id : ReferenceId} {node : NodeId} (again : node ∈ course.reread)
    (depends : node ∈ (course.cleared.workspace.ledger.dependencies id).targets ∨
      node ∈ (course.cleared.workspace.ledger.dependencies id).context) :
    id.owner ∈ course.reread ∨ id.owner ∈ course.queued.queue :=
  (runs.reading.dependents node again depends).imp_right fun queued =>
    runs.queueing.queued (runs.naming.queued queued)

theorem ledger_named : course.named.workspace.ledger = course.queued.workspace.ledger := by
  rw [runs.queueing.workspace]

/-- A target that is not read again declares its symbol as before, unless what rests on it is
queued. -/
theorem declares_of_not_queued {id : ReferenceId} {row : Row}
    (live : row ∈ course.cleared.workspace.catalog.rows) (unread : id.owner ∉ course.reread)
    (unqueued : id.owner ∉ course.queued.queue)
    (depends : row.id ∈ (course.cleared.workspace.ledger.dependencies id).targets) :
    (course.prepare row.node).symbol = row.node.symbol := by
  by_cases busy : row.id ∈ course.work
  · have kept : row.id ∉ course.reread := fun again =>
      (runs.busy_of_dependency again (Or.inl depends)).elim unread unqueued
    have found : row.map course.reader ∈ course.read.workspace.catalog.rows :=
      runs.reworked_reader.map_mem live
    have number : (row.map course.reader).id = row.id := course.inPlace_reader.sameId row.node
    by_contra differs
    have changed : symbolBefore course.earlier (course.reader row.node) ≠
        (row.map course.reader).declaredSymbol? := by
      rw [runs.symbolBefore_eq live, ← runs.symbol_prepare live busy]
      exact Ne.symm differs
    have carried : course.earlier.lookup (row.map course.reader).id = none := by
      rw [number, show course.earlier = _ from runs.reading.earlier]
      exact lookup_map_of_not_mem _ kept
    refine unqueued (runs.queueing.queued
      (runs.naming.dependents _ found (number.symm ▸ busy) changed carried (Or.inl ?_)))
    rw [number, ← runs.ledger_queued, runs.dependencies_queued unread]
    exact depends
  · rw [runs.prepare_of_not_mem (show row.node.id ∉ course.work from busy)]

/-- The symbol of a recorded target is not noted, unless what rests on the target is queued. -/
theorem untouched_of_target (coherent : workspace.Coherent) {id : ReferenceId} {row : Row}
    (atStart : row ∈ workspace.catalog.rows) (unread : id.owner ∉ course.reread)
    (unqueued : id.owner ∉ course.queued.queue)
    (kept : course.cleared.workspace.ledger.dependencies id = workspace.ledger.dependencies id)
    (depends : row.id ∈ (workspace.ledger.dependencies id).targets) {symbol : Symbol}
    (declares : row.node.declared? = some symbol) : symbol ∉ course.named.touched := by
  intro noted
  rw [← kept] at depends
  -- a target is still there after the deletions
  obtain ⟨other, live, same⟩ := Catalog.contains_iff.mp (runs.removal.sound.keys (Or.inl depends))
  obtain rfl := coherent.numbered.eq_of_id (runs.removal.mem_rows.mp live).1 atStart same
  have stays := runs.declares_of_not_queued live unread unqueued depends
  have inside : other.map course.prepare ∈ course.named.workspace.catalog.rows := by
    rw [← runs.queueing.workspace]
    exact runs.reworked_prepare.map_mem live
  have declaring : (course.prepare other.node).declared? = some symbol := by
    rw [Node.declared?_eq_some_iff] at declares ⊢
    exact ⟨stays.trans declares.1, declares.2⟩
  refine unqueued (runs.queueing.declared symbol noted other.id ?_ (Or.inl ?_))
  · rw [Catalog.mem_lookup, Catalog.mem_symbols_iff runs.naming.sound.numbered
      runs.naming.sound.exact]
    exact ⟨other.map course.prepare, Catalog.mem_declaring.mpr ⟨inside, declaring⟩,
      course.inPlace_prepare.sameId other.node⟩
  · rw [runs.ledger_named, runs.dependencies_queued unread]
    exact depends

/-- **An owner that is not queued** has met nothing that the commit changes. -/
theorem idle_of_not_queued (coherent : workspace.Coherent) {owner : NodeId} {reference : Reference}
    (unread : owner ∉ course.reread) (unqueued : owner ∉ course.queued.queue)
    (lasting : workspace.Lasting owner reference)
    (recorded : Recorded (workspace.ledger.dependencies ⟨owner, reference.role⟩) reference.answer)
    (kept : course.cleared.workspace.ledger.dependencies ⟨owner, reference.role⟩ =
      workspace.ledger.dependencies ⟨owner, reference.role⟩) :
    Idle course workspace owner reference := by
  have sound := coherent.toSound
  have ledger : course.named.workspace.ledger.dependencies ⟨owner, reference.role⟩ =
      workspace.ledger.dependencies ⟨owner, reference.role⟩ := by
    rw [runs.ledger_named, @dependencies_queued _ _ _ runs ⟨owner, reference.role⟩ unread, kept]
  obtain ⟨slots, answer, same⟩ := lasting.slots
  have listed : reference.slots = slots := by
    rw [Reference.slots, answer]
    rfl
  rw [answer] at recorded
  refine ⟨?_, ?_, ?_⟩
  · rw [listed]
    intro slot member holds real
    cases outcome : slot.target? with
    | none =>
      intro noted
      have rebinds : workspace.options.rebindWaiting = true := by
        refine holds.resolve_right fun known => ?_
        rw [Slot.isKnown, outcome] at known
        exact absurd known Bool.false_ne_true
      refine unqueued (@Queueing.waiting _ _ _ runs.queueing ?_ slot.symbol noted
        ⟨owner, reference.role⟩ ?_)
      · rw [runs.naming.options, runs.reading.options, runs.removal.options]
        exact rebinds
      · rw [ledger, recorded.2]
        refine OrderedSet.mem_ofList.mpr (List.mem_map_of_mem (List.mem_filter.mpr ⟨member, ?_⟩))
        rw [Slot.isKnown, outcome, real]
        rfl
    | some target =>
      -- a slot that has found its target is the one an evaluation gives
      have known : slot.isKnown = true := by
        rw [Slot.isKnown, outcome]
        rfl
      obtain ⟨fresh, inside, lasts⟩ := exists_of_forall₂ same member
      obtain rfl := lasts.eq (Or.inr known)
      obtain ⟨_, row, declaring, rfl⟩ :=
        Catalog.target_declares sound.numbered sound.exact inside outcome
      obtain ⟨atStart, declares⟩ := Catalog.mem_declaring.mp declaring
      refine @untouched_of_target _ _ _ runs coherent ⟨owner, reference.role⟩ row atStart unread
        unqueued kept ?_ _ declares
      rw [recorded.1]
      exact OrderedSet.mem_ofList.mpr (List.mem_filterMap.mpr ⟨slot, member, outcome⟩)
  · intro symbol looked noted
    refine unqueued (@Queueing.lookups _ _ _ runs.queueing symbol noted ⟨owner, reference.role⟩ ?_)
    rw [ledger, lasting.lookups]
    exact OrderedSet.mem_ofList.mpr looked
  · intro id consulted again
    have depends : id ∈ (workspace.ledger.dependencies ⟨owner, reference.role⟩).context := by
      rw [lasting.context]
      exact OrderedSet.mem_ofList.mpr consulted
    exact (@busy_of_dependency _ _ _ runs ⟨owner, reference.role⟩ id again
      (Or.inr (kept.symm ▸ depends))).elim unread unqueued

/-- An end that an idle evaluation consults is read as before. -/
theorem consultEnd_of_idle (sound : workspace.Sound) {owner : NodeId} {reference : Reference}
    (idle : Idle course workspace owner reference) {symbol : Symbol}
    (looked : symbol ∈ (workspace.evaluate owner reference).lookups) :
    course.queued.workspace.catalog.consultEnd workspace.options.listSeparator symbol =
      (workspace.catalog.consultEnd workspace.options.listSeparator symbol).renumber id := by
  have twin := runs.sound_queued
  have declaring := runs.declaring_of_untouched (idle.lookups symbol looked)
  have found : course.queued.workspace.catalog.end? symbol =
      (workspace.catalog.end? symbol).map (Row.map course.prepare) := by
    rw [Catalog.end?, Catalog.end?, declaring, List.find?_map]
    congr 2
    funext row
    exact congrArg (fun kind => decide (kind = Kind.associationEnd))
      (course.inPlace_prepare.sameKind row.node)
  -- what is consulted is not read again, so its outline is kept
  have outlines : ∀ {node : Node}, node.id ∈ (workspace.catalog.consultEnd
      workspace.options.listSeparator symbol).consulted →
      (course.prepare node).outline id = node.outline id := by
    intro node consulted
    have unread := idle.consulted _ (Catalog.consulted_of_lookup looked consulted)
    have naming : KeepsOutline (onlyIn course.work course.read.workspace.catalog.rename) :=
      (Catalog.keepsOutline_rename _).of_cases (onlyIn_cases course.work _)
    unfold prepare reader
    rw [Function.comp_apply, onlyIn_of_not_mem unread]
    exact naming node
  rw [Catalog.consultEnd_eq sound.numbered sound.exact] at outlines ⊢
  rw [Catalog.consultEnd_eq twin.numbered twin.exact, found]
  cases ended : workspace.catalog.end? symbol with
  | none => rfl
  | some row =>
    rw [ended] at outlines
    have own : row.id ∈ (Catalog.readEnd workspace.options.listSeparator symbol
        (some row)).consulted := by
      simp only [Catalog.readEnd]
      split
      · exact List.mem_singleton_self _
      · exact List.mem_cons_self
    refine Catalog.readEnd_congr _ symbol (outlines own) fun typed => ?_
    show (nearest? (row.above.map course.prepare) .schema).map _ = _
    rw [nearest?_map_of_kind fun node _ => course.inPlace_prepare.sameKind node]
    cases schema : nearest? row.above .schema with
    | none => rfl
    | some node =>
      refine congrArg some (outlines ?_)
      obtain ⟨text, written⟩ := Option.isSome_iff_exists.mp typed
      unfold Catalog.readEnd
      simp only [written, schema]
      exact List.mem_cons_of_mem _ List.mem_cons_self

/-- A symbol that is not noted has the same candidates as before. -/
theorem candidates_of_untouched {symbol : Symbol} (untouched : symbol ∉ course.named.touched) :
    course.queued.workspace.catalog.candidates symbol =
      (workspace.catalog.candidates symbol).map (Candidate.renumber id) := by
  rw [Catalog.candidates, runs.declaring_of_untouched untouched, List.map_map, Catalog.candidates,
    List.map_map]
  refine List.map_congr_left fun other _ => ?_
  show (⟨(course.prepare other.node).id, (course.prepare other.node).kind, other.layer⟩ :
    Candidate) = _
  rw [course.inPlace_prepare.sameId, course.inPlace_prepare.sameKind]
  rfl

/-- **What is kept of an idle reference lasts.** -/
theorem lasts_of_idle (sound : workspace.Sound) {row : Row}
    (live : row ∈ course.cleared.workspace.catalog.rows) (idleRow : row.id ∉ course.work)
    (reached : row.node.stage.reaches .parsed = true) {reference : Reference}
    (lasting : workspace.Lasting row.id reference)
    (idle : Idle course workspace row.id reference) :
    (course.queued.workspace.evaluate row.id reference).Lasts workspace.options.rebindWaiting
      reference.answer (workspace.ledger.dependencies ⟨row.id, reference.role⟩) := by
  have twin := runs.sound_queued
  have options : course.queued.workspace.options = workspace.options := by
    rw [runs.queueing.workspace, runs.naming.options]
    exact runs.reading.options.trans runs.removal.options
  have inside : row ∈ course.queued.workspace.catalog.rows := by
    have mapped := runs.reworked_prepare.map_mem live
    rw [runs.line_idle live idleRow reached] at mapped
    exact mapped
  have place : (course.queued.workspace.catalog.row? row.id).map (Row.map (Node.outline id)) =
      (workspace.catalog.row? row.id).map (Row.map (Node.outline id)) := by
    rw [twin.numbered.row?_of_mem inside,
      sound.numbered.row?_of_mem (runs.removal.mem_rows.mp live).1]
  obtain ⟨follows, consulted, lookups⟩ := Catalog.evaluate_readings sound.numbered sound.exact
    twin.numbered twin.exact (Eq.refl reference.rule) (Eq.refl reference.text) place
    fun symbol looked => runs.consultEnd_of_idle sound idle looked
  obtain ⟨slots, answer, same⟩ := lasting.slots
  have listed : reference.slots = slots := by
    rw [Reference.slots, answer]
    rfl
  unfold Workspace.evaluate
  rw [options]
  refine ⟨⟨slots, answer, ?_⟩, ?_, ?_⟩
  · refine forall₂_trans_of_mem same follows fun kept member fresh later lasts follows => ?_
    refine ⟨lasts.text.trans follows.text.symm, lasts.symbol.trans follows.symbol.symm,
      fun holds => ?_⟩
    have untouched := idle.slots kept (listed.symm ▸ member) holds
    rw [lasts.symbol] at untouched
    rw [lasts.outcome holds,
      follows.outcome fun real => runs.candidates_of_untouched (untouched real),
      Outcome.renumber_id]
    rfl
  · rw [lasting.context]
    unfold Resolution.dependencies
    simp only [consulted, List.map_id]
    rfl
  · rw [lasting.lookups]
    unfold Resolution.dependencies
    simp only [lookups]
    rfl

end Evaluation

end Runs

end Course

end EntityModel
