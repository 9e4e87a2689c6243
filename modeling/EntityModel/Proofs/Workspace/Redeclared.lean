import Mathlib.Algebra.GroupWithZero.Nat
import EntityModel.Proofs.Findings.ByNode
import EntityModel.Proofs.Workspace.Reachable

/-
**What is declared more than once.**

References go to the first node that declares a symbol, and every later one is reported. The order is
that of the documents, for looking symbols up as for reporting. So no node is first that was not, once
those reported are removed, whatever goes with them.

* `Catalog.filter_code` — the findings of this kind are the late declarations, in document order;
  `mem_redeclaring` — a node is among those reported when it stands in the list of some symbol, and
  not at its head; `filter_redeclaring` — it is reported once.
* `redeclaring_perm` — the nodes reported are the tails of all these lists, so they are counted by
  symbols.
* `Workspace.exists_marking` — many nodes can be marked for removal; `lookup_sublist` — a change that
  only removes leaves parts of these lists.
* `redeclared_after` — **every declaration but the first is reported, once,** and nothing is once
  those nodes are gone.
-/

namespace EntityModel

/-- What is not first in a list has something before it. -/
theorem mem_tail_iff {α : Type} {items : List α} {item : α} :
    item ∈ items.tail ↔ ∃ other, [other, item].Sublist items := by
  cases items with
  | nil => simp
  | cons first rest =>
    constructor
    · exact fun later => ⟨first, (List.singleton_sublist.mpr later).cons_cons first⟩
    · rintro ⟨other, both⟩
      exact List.singleton_sublist.mp both.tail

namespace Catalog

/-! ### Late declarations -/

/-- The nodes that are reported for declaring what an earlier one declares. -/
def redeclaring (catalog : Catalog) (checkNames : Bool) : List NodeId :=
  ((catalog.findings checkNames).filter fun finding => finding.code = "W0004").map Finding.node

theorem filter_code (catalog : Catalog) (checkNames : Bool) :
    ((catalog.findings checkNames).filter fun finding => finding.code = "W0004") =
      catalog.sites.filterMap fun site =>
        (catalog.declarationProblem? site.node).map site.finding := by
  rw [findings_eq_sites, List.filter_flatMap, List.filterMap_eq_flatMap_toList]
  refine List.flatMap_congr fun site _ => ?_
  refine (site.filter_code .duplicateDeclaration).trans ?_
  rw [filter_redeclared, Option.toList_map]

theorem redeclaring_eq (catalog : Catalog) (checkNames : Bool) : catalog.redeclaring checkNames =
    (catalog.sites.filter fun site => (catalog.declarationProblem? site.node).isSome).map
      Site.id := by
  unfold redeclaring
  rw [filter_code, List.map_filterMap, ← List.filterMap_eq_filter, List.map_filterMap]
  refine List.filterMap_congr fun site _ => ?_
  cases found : catalog.declarationProblem? site.node with
  | none => simp [Option.guard, found]
  | some problem => simp [Option.guard, found, Site.finding]

section Exact

variable {catalog : Catalog} (numbered : catalog.Numbered) (exact : catalog.SymbolsExact)
  {checkNames : Bool}

include numbered exact

omit numbered in
/-- A node declares a symbol late when it stands in its list and not at the head. -/
theorem mem_tail_lookup {symbol : Symbol} {id : NodeId} : id ∈ (catalog.lookup symbol).tail ↔
    catalog.Declares symbol id ∧ ∃ first, catalog.declaring? symbol = some first ∧ first ≠ id := by
  have listed := (@mem_lookup catalog symbol id).trans (exact.declares symbol id)
  have distinct := catalog.nodup_lookup symbol
  rw [← listed, declaring?]
  generalize catalog.lookup symbol = found at distinct
  cases found with
  | nil => simp
  | cons first rest =>
    have new := (List.nodup_cons.mp distinct).1
    simp only [List.tail_cons, List.mem_cons, List.head?_cons, Option.some.injEq, ne_eq,
      exists_eq_left']
    constructor
    · exact fun later => ⟨Or.inr later, fun same => new (same ▸ later)⟩
    · exact fun ⟨inside, apart⟩ => inside.resolve_left fun same => apart same.symm

theorem mem_redeclaring {id : NodeId} : id ∈ catalog.redeclaring checkNames ↔
    ∃ symbol, id ∈ (catalog.lookup symbol).tail := by
  simp only [mem_tail_lookup exact, redeclaring_eq, List.mem_map, List.mem_filter,
    Option.isSome_iff_exists, declarationProblem?_eq_some_iff]
  constructor
  · rintro ⟨site, ⟨member, _, symbol, first, declares, leads, apart, rfl⟩, rfl⟩
    obtain ⟨same, real⟩ := Node.declared?_eq_some_iff.mp declares
    exact ⟨symbol, ⟨real, site.node, numbered.node?_of_mem (row_mem_rows member), same⟩, first,
      leads, apart⟩
  · rintro ⟨symbol, ⟨real, node, found, same⟩, first, leads, apart⟩
    obtain ⟨site, located, rfl⟩ := Option.map_eq_some_iff.mp found
    obtain ⟨member, rfl⟩ := mem_sites_of_site? located
    exact ⟨site, ⟨member, _, symbol, first, Node.declared?_eq_some_iff.mpr ⟨same, real⟩, leads,
      apart, rfl⟩, rfl⟩

omit exact in
theorem nodup_redeclaring : (catalog.redeclaring checkNames).Nodup := by
  rw [redeclaring_eq]
  exact numbered.documentOrder_nodup.sublist (List.filter_sublist.map Site.id)

/-- **The nodes reported** are those behind the first of each symbol. -/
theorem redeclaring_perm : (catalog.redeclaring checkNames).Perm
    (catalog.symbols.keys.items.flatMap fun symbol => (catalog.lookup symbol).tail) := by
  have listed : ∀ {symbol : Symbol} {id : NodeId}, id ∈ (catalog.lookup symbol).tail →
      (symbol, id) ∈ catalog.symbols := fun later => mem_lookup.mp (List.mem_of_mem_tail later)
  refine (List.perm_ext_iff_of_nodup (nodup_redeclaring numbered) ?_).mpr fun id => ?_
  · refine List.nodup_flatMap.mpr ⟨fun symbol _ => (catalog.nodup_lookup symbol).tail, ?_⟩
    refine catalog.symbols.keys.nodup.imp fun {first second} apart id here there => apart ?_
    -- a node declares one symbol
    have one := (exact first id).mp (listed here)
    rw [(exact second id).mp (listed there)] at one
    exact (Option.some.inj one).symm
  · rw [mem_redeclaring numbered exact, List.mem_flatMap]
    constructor
    · rintro ⟨symbol, later⟩
      exact ⟨symbol, Relation.mem_keys.mpr ⟨id, listed later⟩, later⟩
    · rintro ⟨symbol, _, later⟩
      exact ⟨symbol, later⟩

/-- **They are counted by symbols.** -/
theorem length_redeclaring : (catalog.redeclaring checkNames).length =
    (catalog.symbols.keys.items.map fun symbol => (catalog.lookup symbol).length - 1).sum := by
  rw [(redeclaring_perm numbered exact).length_eq, List.length_flatMap]
  simp only [List.length_tail]

/-- The node that a symbol leads to is the first that declares it. -/
theorem first_of_declaring? {symbol : Symbol} {first other : NodeId}
    (leads : catalog.declaring? symbol = some first) (declares : catalog.Declares symbol other) :
    other = first ∨ [first, other].Sublist catalog.documentOrder := by
  have inside := mem_lookup.mpr ((exact.declares symbol other).mpr declares)
  have part : (catalog.lookup symbol).Sublist catalog.documentOrder := by
    rw [lookup_eq_filter numbered exact]
    exact List.filter_sublist
  unfold declaring? at leads
  obtain ⟨rest, found⟩ := List.head?_eq_some_iff.mp leads
  rw [found] at inside part
  refine (List.mem_cons.mp inside).imp_right fun later => ?_
  exact ((List.singleton_sublist.mpr later).cons_cons first).trans part

/-- A node is reported when another one that has the same symbol stands before it. -/
theorem mem_redeclaring_iff {id : NodeId} : id ∈ catalog.redeclaring checkNames ↔
    ∃ symbol, catalog.Declares symbol id ∧ ∃ other, other ≠ id ∧ catalog.Declares symbol other ∧
      [other, id].Sublist catalog.documentOrder := by
  simp only [mem_redeclaring numbered exact, mem_tail_iff, lookup_eq_filter numbered exact,
    pair_sublist_filter_iff, decide_eq_true_eq, exact.declares]
  constructor
  · rintro ⟨symbol, other, earlier, own, both⟩
    have apart : other ≠ id := by
      simpa using (numbered.documentOrder_nodup.sublist both)
    exact ⟨symbol, own, other, apart, earlier, both⟩
  · rintro ⟨symbol, own, other, _, earlier, both⟩
    exact ⟨symbol, other, earlier, own, both⟩

omit exact in
/-- **A node is reported once**, with the node that its symbol leads to. -/
theorem filter_redeclaring {id : NodeId} (late : id ∈ catalog.redeclaring checkNames) :
    ∃ site ∈ catalog.sites, site.id = id ∧ ∃ symbol first, site.node.symbol = some symbol ∧
      catalog.declaring? symbol = some first ∧
      ((catalog.findings checkNames).filter fun finding =>
        decide (finding.node = id) && decide (finding.code = "W0004")) =
          [site.finding (.redeclared symbol first)] := by
  rw [redeclaring_eq, List.mem_map] at late
  obtain ⟨site, reported, rfl⟩ := late
  obtain ⟨member, found⟩ := List.mem_filter.mp reported
  obtain ⟨problem, own⟩ := Option.isSome_iff_exists.mp found
  obtain ⟨symbol, first, declares, leads, _, rfl⟩ := declarationProblem?_eq_some_iff.mp own
  refine ⟨site, member, rfl, symbol, first, (Node.declared?_eq_some_iff.mp declares).1, leads, ?_⟩
  refine (numbered.filter_code member .duplicateDeclaration).trans ?_
  rw [filter_redeclared, own]
  rfl

end Exact

/-- A change that leaves nodes out, and no symbol anew, leaves parts of what symbols lead to. -/
theorem lookup_sublist {before after : Catalog} (numberedBefore : before.Numbered)
    (exactBefore : before.SymbolsExact) (numberedAfter : after.Numbered)
    (exactAfter : after.SymbolsExact) {stays : Row → Bool} {change : Node → Node}
    (rows : after.rows = (before.rows.filter stays).map (Row.map change))
    (sameId : ∀ node, (change node).id = node.id)
    (declares : ∀ node, (change node).declared? = node.declared?) (symbol : Symbol) :
    (after.lookup symbol).Sublist (before.lookup symbol) := by
  have ids : Row.id ∘ Row.map change = Row.id := funext fun row => sameId row.node
  have tests : ((fun row : Row => decide (row.node.declared? = some symbol)) ∘ Row.map change) =
      fun row => decide (row.node.declared? = some symbol) := by
    funext row
    exact decide_eq_decide.mpr (iff_of_eq (congrArg (· = some symbol) (declares row.node)))
  rw [lookup_eq numberedAfter exactAfter, lookup_eq numberedBefore exactBefore, declaring, declaring,
    rows, List.filter_map, tests, List.map_map, ids]
  exact (List.filter_sublist.filter _).map Row.id

end Catalog

/-! ### Nodes marked for removal -/

namespace Workspace

/-- The nodes that are reported for declaring what an earlier one declares. -/
def redeclaring (workspace : Workspace) : List NodeId :=
  workspace.catalog.redeclaring workspace.options.validateIdentifiers

/-- The nodes have been marked for removal, one after the other. -/
structure Marking (workspace : Workspace) (ids : List NodeId) (marked : Workspace) : Prop where
  ran : ids.foldlM deleteNode workspace = .ok marked
  coherent : marked.Coherent
  catalog : marked.catalog = workspace.catalog
  current : marked.current =
    { workspace.current with deleted := workspace.current.deleted.insertAll ids }
  opened : ids ≠ [] ∨ workspace.transaction.isSome = true → marked.transaction.isSome = true

/-- **Marking nodes that are there never fails.** -/
theorem exists_marking (ids : List NodeId) : ∀ {workspace : Workspace}, workspace.Coherent →
    (∀ id ∈ ids, workspace.catalog.contains id = true) →
    ∃ marked, Marking workspace ids marked := by
  induction ids with
  | nil =>
    intro workspace coherent _
    exact ⟨workspace, rfl, coherent, rfl, rfl, fun either => either.resolve_left (absurd rfl)⟩
  | cons id ids ih =>
    intro workspace coherent live
    obtain ⟨here, others⟩ := List.forall_mem_cons.mp live
    obtain ⟨site, located⟩ := Option.isSome_iff_exists.mp here
    obtain ⟨member, rfl⟩ := Catalog.mem_sites_of_site? located
    have edit : Edit (fun _ _ => True) workspace (workspace.markNode site.id) := .delete member
    obtain ⟨marked, marking⟩ := ih (coherent.edit edit) others
    refine ⟨marked, ?_, marking.coherent, marking.catalog, marking.current,
      fun _ => marking.opened (Or.inr rfl)⟩
    rw [List.foldlM_cons]
    refine bind_eq_ok.mpr ⟨workspace.markNode site.id, ?_, marking.ran⟩
    exact bind_eq_ok.mpr ⟨site, site_eq_ok.mpr located, rfl⟩

/-- Where a node has been marked there is something to commit. -/
theorem Marking.commits {workspace marked : Workspace} {ids : List NodeId}
    (marking : Marking workspace ids marked) (some : ids ≠ []) :
    ∃ after report, marked.commit = .ok (after, report) := by
  obtain ⟨transaction, opened⟩ := Option.isSome_iff_exists.mp (marking.opened (Or.inl some))
  obtain ⟨course, _, report, done⟩ := exists_run marking.coherent opened
  exact ⟨_, report, done⟩

end Workspace

/-! ### Commits that only remove -/

namespace Course.Runs

variable {start : Workspace} {transaction : Transaction} {course : Course}
  (runs : course.Runs start transaction)

include runs

/-- Where nothing is edited and nothing added, nothing is read or named. -/
theorem work_eq_nil (edited : transaction.edited = .empty) (inserted : transaction.inserted = .empty) :
    course.work = [] := by
  refine List.eq_nil_iff_forall_not_mem.mpr fun id busy => ?_
  rcases runs.work.mp busy with again | below
  · obtain ⟨_, _, _, written | ⟨root, planted, _⟩⟩ := runs.mem_reread.mp again
    · rw [edited] at written
      exact absurd written List.not_mem_nil
    · rw [inserted] at planted
      exact absurd planted List.not_mem_nil
  · obtain ⟨_, _, _, _, _, root, written, _⟩ :=
      (Workspace.mem_toRenormalize runs.reading.sound.numbered).mp below
    rw [edited] at written
    exact absurd written List.not_mem_nil

theorem declared?_change (idle : course.work = []) (node : Node) :
    (course.change node).declared? = node.declared? := by
  have unnamed : node.id ∉ course.work := by simp [idle]
  unfold change
  rw [Function.comp_apply, runs.prepare_of_not_mem unnamed]
  exact keeps_of_cases Node.declared?
    (onlyIn_cases (course.work ++ course.rebound) course.queued.workspace.answer) (fun _ => rfl) node

end Course.Runs

/-! ### Every declaration but the first -/

/-- Of the nodes that declare a symbol all but the first are reported, each once. -/
structure Workspace.Redeclared (workspace : Workspace) : Prop where
  flagged : ∀ id, id ∈ workspace.redeclaring ↔
    ∃ symbol, workspace.catalog.Declares symbol id ∧ ∃ other, other ≠ id ∧
      workspace.catalog.Declares symbol other ∧
      [other, id].Sublist workspace.catalog.documentOrder
  /-- The one finding names the first of these nodes, to which references go. -/
  once : ∀ id ∈ workspace.redeclaring, ∃ site ∈ workspace.catalog.sites, site.id = id ∧
    ∃ symbol first, site.node.symbol = some symbol ∧
      workspace.catalog.declaring? symbol = some first ∧
      (∀ other, workspace.catalog.Declares symbol other →
        other = first ∨ [first, other].Sublist workspace.catalog.documentOrder) ∧
      (workspace.findings.filter fun finding =>
        decide (finding.node = id) && decide (finding.code = "W0004")) =
          [site.finding (.redeclared symbol first)]
  counted : (workspace.findings.countP fun finding => finding.code = "W0004") =
    (workspace.catalog.symbols.keys.items.map fun symbol =>
      (workspace.catalog.lookup symbol).length - 1).sum
  /-- Outside of transactions the nodes reported can be removed, in any order, and no others are
  reported then. Without any there is nothing to commit. -/
  cleared : workspace.transaction = none → ∀ ids : List NodeId,
    (∀ id, id ∈ ids ↔ id ∈ workspace.redeclaring) →
      ∃ marked, ids.foldlM Workspace.deleteNode workspace = .ok marked ∧
        (ids ≠ [] → ∃ after report, marked.commit = .ok (after, report)) ∧
        ∀ finding ∈ (marked.next .commit).findings, finding.code ≠ "W0004"

namespace Workspace.Coherent

variable {workspace : Workspace} (coherent : workspace.Coherent)

include coherent

/-- Removing the nodes reported leaves none to report. -/
theorem redeclaring_removed {marked after : Workspace} {report : Report} {ids : List NodeId}
    (closed : workspace.transaction = none) (all : ∀ id ∈ workspace.redeclaring, id ∈ ids)
    (marking : workspace.Marking ids marked) (done : marked.commit = .ok (after, report)) :
    after.redeclaring = [] := by
  obtain ⟨transaction, course, opened, runs, rfl⟩ := marking.coherent.runs_of_commit done
  have current := marking.current
  rw [current_of_transaction opened, Workspace.current, closed] at current
  have idle : course.work = [] := runs.work_eq_nil (by rw [current]; rfl) (by rw [current]; rfl)
  have after := runs.coherent marking.coherent opened
  have rows := runs.reworked.rows
  rw [runs.removal.rows] at rows
  have parts := Catalog.lookup_sublist coherent.numbered coherent.exact after.numbered after.exact
    (marking.catalog ▸ rows) course.inPlace_change.sameId (runs.declared?_change idle)
  refine List.eq_nil_iff_forall_not_mem.mpr fun id late => ?_
  obtain ⟨symbol, behind⟩ := (Catalog.mem_redeclaring after.numbered after.exact).mp late
  obtain ⟨other, both⟩ := mem_tail_iff.mp behind
  -- what is behind another node now was so before, and has been marked
  have early : id ∈ workspace.redeclaring :=
    (Catalog.mem_redeclaring coherent.numbered coherent.exact).mpr
      ⟨symbol, mem_tail_iff.mpr ⟨other, both.trans (parts symbol)⟩⟩
  have gone : id ∈ transaction.deleted := by
    rw [current]
    exact OrderedSet.mem_insertAll.mpr (Or.inr (all id early))
  obtain ⟨row, live, rfl⟩ := (Catalog.mem_symbols_iff after.numbered after.exact).mp
    (Catalog.mem_lookup.mp (List.mem_of_mem_tail behind))
  obtain ⟨earlier, stays, rfl⟩ := runs.reworked.mem_rows.mp (Catalog.mem_declaring.mp live).1
  have number : (earlier.map course.change).id = earlier.id := course.inPlace_change.sameId _
  have through : earlier.passes transaction.deleted.items = true :=
    Row.passes_iff.mpr ⟨_, gone, number ▸ List.mem_cons_self⟩
  exact absurd ((runs.removal.mem_rows.mp stays).2.symm.trans through) Bool.false_ne_true

theorem redeclaring_next {marked : Workspace} {ids : List NodeId}
    (closed : workspace.transaction = none) (all : ∀ id, id ∈ ids ↔ id ∈ workspace.redeclaring)
    (marking : workspace.Marking ids marked) : (marked.next .commit).redeclaring = [] := by
  by_cases none : ids = []
  · subst none
    obtain rfl : workspace = marked := Except.ok.inj marking.ran
    rw [next_commit_of_closed closed]
    exact List.eq_nil_iff_forall_not_mem.mpr fun id late =>
      absurd ((all id).mpr late) List.not_mem_nil
  · obtain ⟨after, report, done⟩ := marking.commits none
    rw [next_commit done]
    exact coherent.redeclaring_removed closed (fun id late => (all id).mpr late) marking done

theorem redeclared : workspace.Redeclared := by
  have numbered := coherent.numbered
  have exact := coherent.exact
  refine ⟨fun id => Catalog.mem_redeclaring_iff numbered exact, fun id late => ?_, ?_, ?_⟩
  · obtain ⟨site, member, number, symbol, first, own, leads, single⟩ :=
      Catalog.filter_redeclaring numbered late
    exact ⟨site, member, number, symbol, first, own, leads,
      fun other => Catalog.first_of_declaring? numbered exact leads, single⟩
  · rw [← Catalog.length_redeclaring numbered exact, List.countP_eq_length_filter,
      Catalog.redeclaring, List.length_map]
    rfl
  · intro closed ids same
    have live : ∀ id ∈ ids, workspace.catalog.contains id = true := by
      intro id member
      obtain ⟨site, inside, number, _⟩ := Catalog.filter_redeclaring numbered ((same id).mp member)
      exact Catalog.contains_iff.mpr ⟨site.row, Catalog.row_mem_rows inside, number⟩
    obtain ⟨marked, marking⟩ := exists_marking ids coherent live
    refine ⟨marked, marking.ran, marking.commits, fun finding member late => ?_⟩
    have reported : finding.node ∈ (marked.next .commit).redeclaring :=
      List.mem_map_of_mem (List.mem_filter.mpr ⟨member, decide_eq_true late⟩)
    rw [coherent.redeclaring_next closed same marking] at reported
    exact absurd reported List.not_mem_nil

end Workspace.Coherent

/-- **In every state each declaration but the first of its symbol is reported, and reported once.**
There are as many such findings as nodes behind the first in the lists of all symbols. Outside of
transactions the nodes reported can be removed together, and none is reported then. -/
theorem redeclared_after (options : Options) (commands : List Command) :
    ((Workspace.ofOptions options).after commands).Redeclared :=
  (Workspace.coherent_after options commands).redeclared

end EntityModel
