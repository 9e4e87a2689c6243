import Mathlib.Data.List.Dedup
import EntityModel.Proofs.Catalog.Rows

/-
**The index of declared symbols against the nodes.**

* `Catalog.SymbolsExact` — the index relates a symbol to a node exactly when it is the node's symbol
  and not empty.
* `declaring` — the rows of the nodes that declare a symbol; `lookup_eq` and `declarations_eq` say
  that looking a symbol up finds these rows in document order, `lookup_eq_filter` that it finds a part
  of this order.
* `mem_withdrawSymbol`, `mem_replaceSymbol` — what becomes of the index when a node gives up its
  symbol or takes another.
* `symbolCount_eq`, `mem_symbolEntries`, `symbolEntries_congr` — the index as a whole.
-/

namespace EntityModel

theorem Node.declared?_eq_some_iff {node : Node} {symbol : Symbol} :
    node.declared? = some symbol ↔ node.symbol = some symbol ∧ symbol.isEmpty = false := by
  unfold declared?
  rw [Option.filter_eq_some_iff, Bool.not_eq_true']

namespace Catalog

/-- The index relates symbols to the nodes that declare them, and to nothing else. -/
def SymbolsExact (catalog : Catalog) : Prop :=
  ∀ symbol id, (symbol, id) ∈ catalog.symbols ↔
    (catalog.node? id).bind Node.declared? = some symbol

theorem symbolsExact_empty : empty.SymbolsExact := by
  intro symbol id
  constructor
  · intro member
    exact absurd member List.not_mem_nil
  · intro found
    simp [node?, site?, sites, empty] at found

/-- The rows of the nodes that declare the symbol, in document order. -/
def declaring (catalog : Catalog) (symbol : Symbol) : List Row :=
  catalog.rows.filter fun row => row.node.declared? = some symbol

theorem mem_declaring {catalog : Catalog} {symbol : Symbol} {row : Row} :
    row ∈ catalog.declaring symbol ↔ row ∈ catalog.rows ∧ row.node.declared? = some symbol := by
  rw [declaring, List.mem_filter, decide_eq_true_eq]

section Looking

variable {catalog : Catalog} (numbered : catalog.Numbered) (exact : catalog.SymbolsExact)

include numbered exact

theorem mem_symbols_iff {symbol : Symbol} {id : NodeId} :
    (symbol, id) ∈ catalog.symbols ↔ ∃ row ∈ catalog.declaring symbol, row.id = id := by
  rw [exact symbol id, Option.bind_eq_some_iff]
  constructor
  · rintro ⟨node, found, declares⟩
    obtain ⟨row, member, rfl, same⟩ := numbered.node?_eq_some_iff.mp found
    exact ⟨row, mem_declaring.mpr ⟨member, declares⟩, same⟩
  · rintro ⟨row, member, rfl⟩
    obtain ⟨inside, declares⟩ := mem_declaring.mp member
    exact ⟨row.node, numbered.node?_of_mem inside, declares⟩

/-- What a symbol leads to, as a part of the document order. -/
theorem lookup_eq_filter (symbol : Symbol) : catalog.lookup symbol =
    catalog.documentOrder.filter fun id => decide ((symbol, id) ∈ catalog.symbols) := by
  have live : ∀ id ∈ catalog.symbols.image symbol, id ∈ catalog.documentOrder := by
    intro id member
    obtain ⟨row, inside, rfl⟩ :=
      (mem_symbols_iff numbered exact).mp (Relation.mem_image.mp member)
    rw [documentOrder_eq]
    exact List.mem_map_of_mem (mem_declaring.mp inside).1
  rw [lookup, sortByDocumentOrder_eq_filter numbered.documentOrder_nodup
    (Relation.nodup_image _ _) live]
  exact List.filter_congr fun id _ => decide_eq_decide.mpr Relation.mem_image

/-- **Looking a symbol up** gives the nodes that declare it, in document order. -/
theorem lookup_eq (symbol : Symbol) :
    catalog.lookup symbol = (catalog.declaring symbol).map Row.id := by
  have declares : ∀ row ∈ catalog.rows,
      decide ((symbol, row.id) ∈ catalog.symbols) = decide (row.node.declared? = some symbol) := by
    intro row member
    rw [decide_eq_decide, exact symbol row.id, numbered.node?_of_mem member]
    rfl
  rw [lookup_eq_filter numbered exact, documentOrder_eq, List.filter_map, declaring]
  exact congrArg _ (List.filter_congr declares)

omit numbered exact in
theorem mem_lookup {symbol : Symbol} {id : NodeId} :
    id ∈ catalog.lookup symbol ↔ (symbol, id) ∈ catalog.symbols := by
  rw [lookup, mem_sortByDocumentOrder, Relation.mem_image]

/-- A node is found under the symbols it declares. -/
theorem mem_lookup_row {row : Row} (member : row ∈ catalog.rows) {symbol : Symbol} :
    row.id ∈ catalog.lookup symbol ↔ row.node.declared? = some symbol := by
  rw [mem_lookup, exact, numbered.node?_of_mem member]
  rfl

/-- The places of the nodes that declare a symbol, paths and documents left out. -/
theorem declarations_eq (symbol : Symbol) :
    (catalog.declarations symbol).map Site.row = catalog.declaring symbol := by
  have rowOf : ∀ row ∈ catalog.declaring symbol, catalog.row? row.id = some row :=
    fun row member => numbered.row?_of_mem (mem_declaring.mp member).1
  rw [declarations, lookup_eq numbered exact, List.map_filterMap, List.filterMap_map]
  have each : ∀ row ∈ catalog.declaring symbol,
      ((fun id => (catalog.site? id).map Site.row) ∘ Row.id) row = some row := by
    intro row member
    rw [Function.comp_apply, ← row?_eq, rowOf row member]
  rw [List.filterMap_congr each, List.filterMap_some]

end Looking

/-! ### The index as a whole -/

instance : Std.TransOrd Symbol :=
  inferInstanceAs (Std.TransCmp (compareLex (compareOn Symbol.name) (compareOn Symbol.scope)))

instance : Std.LawfulEqOrd Symbol where
  eq_of_compare {first second} same := by
    obtain ⟨names, scopes⟩ := compareLex_eq_eq.mp same
    rcases first with ⟨name, scope⟩
    rcases second with ⟨otherName, otherScope⟩
    obtain rfl : name = otherName := Std.LawfulEqCmp.eq_of_compare names
    obtain rfl : scope = otherScope := Std.LawfulEqCmp.eq_of_compare scopes
    rfl

/-- Entries by symbol, those of one symbol by node. -/
def compareEntries : Symbol × NodeId → Symbol × NodeId → Ordering :=
  compareLex (compareOn Prod.fst) (compareOn fun entry => entry.2.number)

instance : Std.TransCmp compareEntries :=
  inferInstanceAs (Std.TransCmp (compareLex (compareOn Prod.fst)
    (compareOn fun entry : Symbol × NodeId => entry.2.number)))

/-- The entries depend on the pairs in the index alone, not on when they have got there. -/
theorem symbolEntries_congr {first second : Catalog}
    (same : ∀ symbol id, (symbol, id) ∈ second.symbols ↔ (symbol, id) ∈ first.symbols) :
    second.symbolEntries = first.symbolEntries := by
  refine sortBy_congr (fun one other third lower upper => ?_) (fun one other => ?_)
    (fun one other lower upper => ?_) ?_
  · exact @Std.TransCmp.isLE_trans _ compareEntries _ one other third lower upper
  · show ((compareEntries one other).isLE || (compareEntries other one).isLE) = true
    rw [@Std.OrientedCmp.eq_swap _ compareEntries _ one other]
    cases compareEntries other one with
    | lt => rfl
    | eq => rfl
    | gt => rfl
  · obtain ⟨symbols, numbers⟩ :=
      compareLex_eq_eq.mp (@Std.OrientedCmp.isLE_antisymm _ compareEntries _ one other lower upper)
    rcases one with ⟨symbol, ⟨number⟩⟩
    rcases other with ⟨otherSymbol, ⟨otherNumber⟩⟩
    obtain rfl : symbol = otherSymbol := Std.LawfulEqCmp.eq_of_compare symbols
    obtain rfl : number = otherNumber := Nat.compare_eq_eq.mp numbers
    rfl
  · exact (List.perm_ext_iff_of_nodup second.symbols.nodup first.symbols.nodup).mpr
      fun entry => same entry.1 entry.2

theorem nodup_lookup (catalog : Catalog) (symbol : Symbol) : (catalog.lookup symbol).Nodup :=
  nodup_sortByDocumentOrder (Relation.nodup_image _ _)

/-- As many symbols are counted as there are different ones among those declared. -/
theorem symbolCount_eq {catalog : Catalog} (numbered : catalog.Numbered)
    (exact : catalog.SymbolsExact) : catalog.symbolCount =
      (catalog.sites.filterMap fun site => site.node.declared?).dedup.length := by
  have rows : (catalog.sites.filterMap fun site => site.node.declared?) =
      catalog.rows.filterMap fun row => row.node.declared? := by
    rw [← map_row_sites, List.filterMap_map]
    rfl
  refine List.Perm.length_eq ?_
  rw [List.perm_ext_iff_of_nodup catalog.symbols.keys.nodup (List.nodup_dedup _)]
  intro symbol
  rw [List.mem_dedup, rows, List.mem_filterMap, ← OrderedSet.mem_iff, Relation.mem_keys]
  constructor
  · rintro ⟨id, member⟩
    obtain ⟨row, inside, _⟩ := (mem_symbols_iff numbered exact).mp member
    exact ⟨row, mem_declaring.mp inside⟩
  · rintro ⟨row, inside⟩
    exact ⟨row.id, (mem_symbols_iff numbered exact).mpr ⟨row, mem_declaring.mpr inside, rfl⟩⟩

/-! ### Changes of the index -/

theorem symbolsExact_modify {catalog : Catalog} (exact : catalog.SymbolsExact) {id : NodeId}
    {change : Node → Node} (keeps : ∀ node, (change node).id = node.id)
    (symbols : ∀ node, (change node).symbol = node.symbol) :
    (catalog.modify id change).SymbolsExact := by
  intro symbol other
  show (symbol, other) ∈ catalog.symbols ↔ _
  rw [exact symbol other, node?_modify catalog keeps]
  split
  · rw [Option.bind_map]
    have same : Node.declared? ∘ change = Node.declared? := by
      funext node
      rw [Function.comp_apply, Node.declared?, symbols]
      rfl
    rw [same]
  · rfl

section Replacing

variable {catalog : Catalog} {id : NodeId}

/-- A node gives up its symbol: the index does not relate it to anything any more. -/
theorem mem_withdrawSymbol {node : Node}
    (only : ∀ symbol, (symbol, node.id) ∈ catalog.symbols → node.symbol = some symbol)
    {symbol : Symbol} {other : NodeId} :
    (symbol, other) ∈ (Workspace.withdrawSymbol catalog node).symbols ↔
      (symbol, other) ∈ catalog.symbols ∧ other ≠ node.id := by
  unfold Workspace.withdrawSymbol
  cases earlier : node.symbol with
  | none =>
    refine ⟨fun member => ⟨member, ?_⟩, And.left⟩
    rintro rfl
    have held := only symbol member
    rw [earlier] at held
    exact nomatch held
  | some own =>
    show (symbol, other) ∈ catalog.symbols.erase (own, node.id) ↔ _
    rw [OrderedSet.mem_erase]
    refine and_congr_right fun member => not_congr ?_
    rw [Prod.mk.injEq]
    refine ⟨And.right, fun same => ⟨?_, same⟩⟩
    rw [same] at member
    have held := only symbol member
    rw [earlier] at held
    exact (Option.some.inj held).symm

theorem mem_register {symbol added : Symbol} {other : NodeId} :
    (symbol, other) ∈ (catalog.register added id).symbols ↔
      (symbol, other) ∈ catalog.symbols ∨
        (symbol = added ∧ other = id ∧ added.isEmpty = false) := by
  unfold register
  cases blank : added.isEmpty with
  | true => simp
  | false =>
    show (symbol, other) ∈ catalog.symbols.insert (added, id) ↔ _
    rw [OrderedSet.mem_insert, Prod.mk.injEq]
    simp

/-- The index without the symbol a node had, if it gets another. -/
def withoutEarlier (catalog : Catalog) (id : NodeId) (earlier later : Option Symbol) : Catalog :=
  match earlier with
  | some own => if later = some own then catalog else catalog.unregister own id
  | none => catalog

section Taking

variable {earlier later : Option Symbol}
  (only : ∀ symbol, (symbol, id) ∈ catalog.symbols ↔ earlier = some symbol ∧ symbol.isEmpty = false)

include only

theorem mem_withoutEarlier {symbol : Symbol} {other : NodeId} :
    (symbol, other) ∈ (withoutEarlier catalog id earlier later).symbols ↔
      (symbol, other) ∈ catalog.symbols ∧ (other = id → later = earlier) := by
  unfold withoutEarlier
  cases held : earlier with
  | none =>
    refine ⟨fun member => ⟨member, ?_⟩, And.left⟩
    rintro rfl
    have own := ((only symbol).mp member).1
    rw [held] at own
    exact nomatch own
  | some own =>
    by_cases same : later = some own
    · simp [same]
    · simp only [if_neg same]
      show (symbol, other) ∈ catalog.symbols.erase (own, id) ↔ _
      rw [OrderedSet.mem_erase, ne_eq, Prod.mk.injEq]
      refine and_congr_right fun member => ?_
      constructor
      · rintro apart rfl
        have its := ((only symbol).mp member).1
        rw [held] at its
        exact absurd ⟨(Option.some.inj its).symm, rfl⟩ apart
      · rintro kept ⟨_, here⟩
        exact same (kept here)

/-- A node takes another symbol: the index relates it to this one, unless it is empty. -/
theorem mem_replaceSymbol {symbol : Symbol} {other : NodeId} :
    (symbol, other) ∈ (Workspace.replaceSymbol catalog id earlier later).symbols ↔
      if other = id then later = some symbol ∧ symbol.isEmpty = false
      else (symbol, other) ∈ catalog.symbols := by
  have withdrawn := @mem_withoutEarlier catalog id earlier later only
  show (symbol, other) ∈ (match later with
    | some added => (withoutEarlier catalog id earlier later).register added id
    | none => withoutEarlier catalog id earlier later).symbols ↔ _
  by_cases here : other = id
  · subst here
    rw [if_pos rfl]
    cases given : later with
    | none =>
      simp only [reduceCtorEq, false_and, iff_false]
      intro member
      rw [← given, withdrawn] at member
      have own := ((only symbol).mp member.1).1
      rw [← member.2 rfl, given] at own
      exact nomatch own
    | some added =>
      simp only
      rw [mem_register, ← given, withdrawn, only symbol]
      constructor
      · rintro (⟨⟨own, real⟩, same⟩ | ⟨rfl, _, real⟩)
        · exact ⟨(same rfl).trans own, real⟩
        · exact ⟨given, real⟩
      · rintro ⟨own, real⟩
        obtain rfl : added = symbol := Option.some.inj (given.symm.trans own)
        exact Or.inr ⟨rfl, rfl, real⟩
  · rw [if_neg here]
    cases given : later with
    | none =>
      simp only
      rw [← given, withdrawn]
      exact ⟨And.left, fun member => ⟨member, fun same => absurd same here⟩⟩
    | some added =>
      simp only
      rw [mem_register, ← given, withdrawn]
      constructor
      · rintro (⟨member, _⟩ | ⟨_, same, _⟩)
        · exact member
        · exact absurd same here
      · exact fun member => Or.inl ⟨member, fun same => absurd same here⟩

end Taking

end Replacing

end Catalog

end EntityModel
