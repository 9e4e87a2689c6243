import Mathlib.Data.Prod.Lex
import EntityModel.Proofs.Arena.Paths

/-
**Sort keys, read off the slots.**

The key of a node is computed from below: going up, its position among the children of each node
above it is noted, and in front comes the place of its document. The document order is written from
the roots down, with a stack. Both are one order.

* `Arena.Rises`, `Arena.HasKey` — the loop that notes the positions, and the key; a derivation is a
  loop that ends.
* `Numbered.hasKey_iff` — **the key is the place of the document and the path to the node.**
* `Walk.unique`, `Numbered.subtree_eq_flatMap`, `Numbered.documentOrder_eq_flatMap` — going down with
  a stack can find one list only, and it is that of the recursion over the children.
* `keyLess_iff` — keys are ordered as pairs and lists are; `Numbered.keyLess_iff_sublist` — **the
  smaller key is the one that comes first in document order.**
-/

namespace EntityModel

/-- In a list in a strict order the smaller of two items comes first. -/
theorem pair_sublist_iff {α : Type} {less : α → α → Prop} {items : List α}
    (ordered : items.Pairwise less) (asymm : ∀ {first second}, less first second →
      ¬ less second first) {first second : α} (firstMem : first ∈ items) (secondMem : second ∈ items) :
    [first, second].Sublist items ↔ less first second := by
  refine ⟨fun both => List.pairwise_iff_forall_sublist.mp ordered both, fun before => ?_⟩
  obtain ⟨front, back, rfl⟩ := List.append_of_mem firstMem
  have behind := List.pairwise_append.mp ordered
  rcases List.mem_append.mp secondMem with earlier | later
  · exact absurd (behind.2.2 second earlier first List.mem_cons_self) (asymm before)
  · rcases List.mem_cons.mp later with rfl | after
    · exact absurd before (asymm before)
    · refine List.Sublist.trans ?_ (List.sublist_append_right front _)
      exact (List.singleton_sublist.mpr after).cons_cons first

/-- Leaving items out does not change the order of the others. -/
theorem pair_sublist_filter_iff {α : Type} {items : List α} {keeps : α → Bool} {first second : α} :
    [first, second].Sublist (items.filter keeps) ↔
      keeps first = true ∧ keeps second = true ∧ [first, second].Sublist items := by
  constructor
  · intro both
    have inside : ∀ item ∈ [first, second], keeps item = true := fun item member =>
      (List.mem_filter.mp (both.subset member)).2
    exact ⟨inside first (by simp), inside second (by simp), both.trans List.filter_sublist⟩
  · rintro ⟨here, there, both⟩
    have pair := both.filter keeps
    rwa [List.filter_cons_of_pos here, List.filter_cons_of_pos there, List.filter_nil] at pair

/-! ### Going up in a tree -/

namespace Tree

variable {α : Type}

/-- **Right above a place** is the place of the parent, and the last position of the path says which
of its children stands here. -/
theorem spot_above (tree : Tree α) : ∀ {above : List α} {path : List Nat} {spot : Spot α},
    spot ∈ spotsFrom above path tree → spot = ⟨above, path, tree⟩ ∨
      ∃ upper ∈ spotsFrom above path tree, ∃ index, spot.above = upper.label :: upper.above ∧
        spot.path = upper.path ++ [index] ∧ upper.tree.children[index]? = some spot.tree := by
  induction tree using induct with
  | step label children ih =>
    intro above path spot member
    rcases List.mem_cons.mp member with here | below
    · exact Or.inl here
    · obtain ⟨index, child, listed, inside⟩ := mem_spotsFromAll.mp below
      right
      rcases ih child (List.mem_of_getElem? listed) inside with rfl | ⟨upper, within, rest⟩
      · exact ⟨_, List.mem_cons_self, 0 + index, rfl, rfl, by rw [Nat.zero_add]; exact listed⟩
      · exact ⟨upper, List.mem_cons_of_mem _ (mem_spotsFromAll.mpr ⟨_, _, listed, within⟩), rest⟩

end Tree

/-! ### Keys -/

namespace Arena

/-- Going up from the node, these are its position and those of the nodes above it among their
siblings, its own first. -/
inductive Rises (arena : Arena) : NodeId → List Nat → Prop where
  | top {id : NodeId} {cell : Cell} (here : arena.cell? id = some cell)
      (alone : cell.parent = none) : Rises arena id []
  | step {id parent : NodeId} {cell upper : Cell} {position : Nat} {positions : List Nat}
      (here : arena.cell? id = some cell) (below : cell.parent = some parent)
      (there : arena.cell? parent = some upper)
      (listed : upper.children.findIdx? (fun child => child = id) = some position)
      (rest : Rises arena parent positions) : Rises arena id (position :: positions)

/-- The place of the document of the node among all, and the positions on the way up in reverse. -/
def HasKey (arena : Arena) (id : NodeId) (key : Nat × List Nat) : Prop :=
  (∃ cell, arena.cell? id = some cell ∧
    arena.volumes.findIdx? (fun volume => volume.id = cell.document) = some key.1) ∧
  arena.Rises id key.2.reverse

/-- Going up comes by one list of positions only. -/
theorem Rises.unique {arena : Arena} {id : NodeId} {positions others : List Nat}
    (first : arena.Rises id positions) (second : arena.Rises id others) : positions = others := by
  induction first generalizing others with
  | top here alone =>
    cases second with
    | top => rfl
    | step there below =>
      rw [here] at there
      rw [← Option.some.inj there, alone] at below
      exact nomatch below
  | step here below there listed rest ih =>
    cases second with
    | top found alone =>
      rw [here] at found
      rw [← Option.some.inj found, below] at alone
      exact nomatch alone
    | step found above known position after =>
      rw [here] at found
      rw [← Option.some.inj found, below] at above
      obtain rfl := Option.some.inj above
      rw [there] at known
      rw [← Option.some.inj known, listed] at position
      rw [Option.some.inj position, ih after]

theorem HasKey.unique {arena : Arena} {id : NodeId} {key other : Nat × List Nat}
    (first : arena.HasKey id key) (second : arena.HasKey id other) : key = other := by
  obtain ⟨⟨cell, found, place⟩, rises⟩ := first
  obtain ⟨⟨twin, there, elsewhere⟩, climbs⟩ := second
  rw [found] at there
  rw [← Option.some.inj there, place] at elsewhere
  exact Prod.ext (Option.some.inj elsewhere) (List.reverse_injective (rises.unique climbs))

/-- Going down from the same stack finds one list only. -/
theorem Walk.unique {arena : Arena} {stack found others : List NodeId}
    (first : arena.Walk stack found) (second : arena.Walk stack others) : found = others := by
  induction first generalizing others with
  | done =>
    cases second with
    | done => rfl
  | skip absent rest ih =>
    cases second with
    | skip _ after => exact ih after
    | visit here after =>
      rw [absent] at here
      exact nomatch here
  | visit here rest ih =>
    cases second with
    | skip absent after =>
      rw [absent] at here
      exact nomatch here
    | visit there after =>
      rw [here] at there
      obtain rfl := Option.some.inj there
      rw [ih after]

/-- What is found from one stack and then from another is found from both together. -/
theorem Walk.append {arena : Arena} {stack found under others : List NodeId}
    (first : arena.Walk stack found) (second : arena.Walk under others) :
    arena.Walk (stack ++ under) (found ++ others) := by
  induction first with
  | done => exact second
  | skip absent _ ih => exact .skip absent ih
  | visit here _ ih =>
    rw [List.append_assoc] at ih
    exact .visit here ih

end Arena

namespace Catalog

/-- The places are those of the trees of the documents, each with the position of its document. -/
theorem mem_sites_iff {catalog : Catalog} {site : Site} : site ∈ catalog.sites ↔
    catalog.documents[site.rank]? = some site.document ∧
      ∃ tree, site.document.root = some tree ∧ site.spot ∈ tree.spots := by
  unfold sites
  rw [List.mem_flatten]
  constructor
  · rintro ⟨list, listed, inside⟩
    obtain ⟨⟨document, rank⟩, ranked, rfl⟩ := List.mem_map.mp listed
    replace inside : site ∈ sitesOf rank document := inside
    unfold sitesOf at inside
    cases root : document.root with
    | none =>
      rw [root] at inside
      exact absurd inside List.not_mem_nil
    | some tree =>
      rw [root] at inside
      obtain ⟨spot, within, rfl⟩ := List.mem_map.mp inside
      exact ⟨List.mem_zipIdx_iff_getElem?.mp ranked, tree, root, within⟩
  · rintro ⟨ranked, tree, root, within⟩
    have pair : (site.document, site.rank) ∈ catalog.documents.zipIdx :=
      List.mem_zipIdx_iff_getElem?.mpr ranked
    refine ⟨_, List.mem_map_of_mem pair, ?_⟩
    show site ∈ sitesOf site.rank site.document
    unfold sitesOf
    rw [root]
    exact List.mem_map_of_mem within

section Keys

variable {catalog : Catalog} (numbered : catalog.Numbered)

include numbered

/-- The documents are told by their numbers, so a document is found at its place. -/
theorem Numbered.findIdx?_volumes {rank : Nat} {document : Document}
    (ranked : catalog.documents[rank]? = some document) :
    catalog.arena.volumes.findIdx? (fun volume => volume.id = document.id) = some rank := by
  have unique : (catalog.arena.volumes.map Volume.id).Nodup := by
    show ((catalog.documents.map Document.volume).map Volume.id).Nodup
    rw [List.map_map]
    exact numbered.documentsUnique
  have placed : catalog.arena.volumes[rank]? = some document.volume := by
    show (catalog.documents.map Document.volume)[rank]? = _
    rw [List.getElem?_map, ranked]
    rfl
  obtain ⟨low, same⟩ := List.getElem?_eq_some_iff.mp placed
  refine List.findIdx?_eq_some_iff_getElem.mpr ⟨low, ?_, fun earlier before found => ?_⟩
  · rw [same]
    exact decide_eq_true rfl
  · have equal : (catalog.arena.volumes[earlier]).id = document.volume.id := of_decide_eq_true found
    rw [← same] at equal
    rw [← List.getElem_map Volume.id, ← List.getElem_map Volume.id] at equal
    · exact absurd (unique.getElem_inj_iff.mp equal) (Nat.ne_of_lt before)
    · rw [List.length_map]
      exact low
    · rw [List.length_map]
      exact Nat.lt_trans before low

/-- **Going up from a node** comes by its path, from the last position to the first. -/
theorem Numbered.rises_site {above : List Node} : ∀ {site : Site}, site ∈ catalog.sites →
    site.spot.above = above → catalog.arena.Rises site.id site.spot.path.reverse := by
  induction above with
  | nil =>
    intro site member top
    obtain ⟨_, tree, root, within⟩ := mem_sites_iff.mp member
    rcases Tree.spot_above tree within with here | ⟨upper, _, index, line, _⟩
    · rw [here]
      refine .top (numbered.cell?_of_site member) ?_
      show site.spot.above.head?.map Node.id = none
      rw [top]
      rfl
    · rw [top] at line
      exact nomatch line
  | cons parent rest ih =>
    intro site member line
    obtain ⟨ranked, tree, root, within⟩ := mem_sites_iff.mp member
    rcases Tree.spot_above tree within with here | ⟨upper, higher, index, above, path, listed⟩
    · rw [here] at line
      exact nomatch line
    · have there : (⟨site.rank, site.document, upper⟩ : Site) ∈ catalog.sites :=
        mem_sites_iff.mpr ⟨ranked, tree, root, higher⟩
      rw [line] at above
      have climbs := ih there (List.cons.inj above).2.symm
      have found := numbered.cell?_of_site there
      rw [path, List.reverse_append]
      refine .step (numbered.cell?_of_site member) ?_ found ?_ climbs
      · show site.spot.above.head?.map Node.id = _
        rw [line, (List.cons.inj above).1]
        rfl
      · have once := numbered.nodup_children found
        generalize same : Cell.children _ = siblings at once ⊢
        have own : siblings[index]? = some site.id := by
          rw [← same]
          show ((upper.tree.children.map Tree.label).map Node.id)[index]? = _
          rw [List.getElem?_map, List.getElem?_map, listed]
          rfl
        obtain ⟨low, here⟩ := List.getElem?_eq_some_iff.mp own
        refine List.findIdx?_eq_some_iff_getElem.mpr ⟨low, decide_eq_true here,
          fun earlier before found => ?_⟩
        have equal : siblings[earlier] = siblings[index] :=
          (of_decide_eq_true found).trans here.symm
        exact absurd ((List.Nodup.getElem_inj_iff once).mp equal) (Nat.ne_of_lt before)

/-- **The key of a node** is the place of its document and the path to the node. -/
theorem Numbered.hasKey_iff {id : NodeId} {key : Nat × List Nat} :
    catalog.arena.HasKey id key ↔ catalog.orderKey? id = some key := by
  have own : ∀ {site : Site}, catalog.site? id = some site →
      catalog.arena.HasKey id (siteKey site) := by
    intro site located
    obtain ⟨member, rfl⟩ := mem_sites_of_site? located
    refine ⟨⟨_, numbered.cell?_of_site member, ?_⟩, numbered.rises_site member rfl⟩
    exact numbered.findIdx?_volumes (mem_sites_iff.mp member).1
  unfold orderKey?
  rw [Option.map_eq_some_iff]
  constructor
  · intro has
    obtain ⟨cell, found, _⟩ := has.1
    have there : (catalog.site? id).isSome = true := by
      rw [← show catalog.contains id = (catalog.site? id).isSome from rfl, ← numbered.isSome_cell?,
        found]
      rfl
    obtain ⟨site, located⟩ := Option.isSome_iff_exists.mp there
    exact ⟨site, located, (own located).unique has⟩
  · rintro ⟨site, located, rfl⟩
    exact own located

/-! ### Going down -/

theorem Numbered.walk_iff {id : NodeId} {found : List NodeId} :
    catalog.arena.Walk [id] found ↔ found = catalog.subtree id :=
  ⟨fun walk => walk.unique (numbered.walk_subtree id), fun same => same ▸ numbered.walk_subtree id⟩

theorem Numbered.walk_flatMap (stack : List NodeId) :
    catalog.arena.Walk stack (stack.flatMap catalog.subtree) := by
  induction stack with
  | nil => exact .done
  | cons id stack ih =>
    rw [List.flatMap_cons]
    exact (numbered.walk_subtree id).append ih

/-- **The subtree is the recursion over the children**: the node, and then the subtrees of its
children one after the other. -/
theorem Numbered.subtree_eq_flatMap {id : NodeId} {cell : Cell}
    (found : catalog.arena.cell? id = some cell) :
    catalog.subtree id = id :: cell.children.flatMap catalog.subtree := by
  refine (numbered.walk_iff.mp (.visit found ?_)).symm
  rw [List.append_nil]
  exact numbered.walk_flatMap cell.children

/-- The document order goes through the subtrees of the roots. -/
theorem Numbered.documentOrder_eq_flatMap : catalog.documentOrder =
    (catalog.arena.volumes.filterMap Volume.root).flatMap catalog.subtree := by
  obtain ⟨parts, walks, same⟩ := numbered.inOrder_documentOrder
  have each : parts = (catalog.arena.volumes.filterMap Volume.root).map catalog.subtree := by
    clear same
    generalize catalog.arena.volumes.filterMap Volume.root = roots at walks
    induction walks with
    | nil => rfl
    | cons walk _ ih => rw [List.map_cons, ← ih, numbered.walk_iff.mp walk]
  rw [same, each, List.flatMap_def]

/-! ### One order -/

omit numbered in
/-- Paths are ordered as lists are. -/
theorem pathLess_iff {first second : List Nat} : Tree.PathLess first second ↔ first < second := by
  unfold Tree.PathLess
  induction first generalizing second with
  | nil =>
    cases second with
    | nil => simp
    | cons other under => simp [pathBefore]
  | cons position below ih =>
    cases second with
    | nil => simp [pathBefore]
    | cons other under =>
      rw [List.cons_lt_cons_iff, ← ih]
      simp only [pathBefore, Bool.or_eq_true, decide_eq_true_eq, Bool.and_eq_true, beq_iff_eq,
        ne_eq, List.cons.injEq]
      by_cases same : position = other
      · subst same
        simp
      · simp [same]

omit numbered in
/-- Keys are ordered as pairs of a number and a list are. -/
theorem keyLess_iff {first second : Nat × List Nat} :
    KeyLess first second ↔ Prod.Lex (· < ·) (· < ·) first second := by
  rw [Prod.lex_def, ← pathLess_iff]
  unfold KeyLess Tree.PathLess
  simp only [keyBefore, Bool.or_eq_true, decide_eq_true_eq, Bool.and_eq_true, beq_iff_eq, ne_eq,
    Prod.ext_iff]
  by_cases same : first.1 = second.1
  · simp [same]
  · simp [same]

/-- The first node has a smaller key than the second. -/
def Precedes (catalog : Catalog) (first second : NodeId) : Prop :=
  ∃ firstKey secondKey, catalog.orderKey? first = some firstKey ∧
    catalog.orderKey? second = some secondKey ∧ KeyLess firstKey secondKey

omit numbered in
theorem Precedes.asymm {first second : NodeId} (before : catalog.Precedes first second) :
    ¬ catalog.Precedes second first := by
  rintro ⟨key, twin, secondIs, firstIs, more⟩
  obtain ⟨_, _, here, there, less⟩ := before
  rw [firstIs] at here
  rw [secondIs] at there
  rw [← Option.some.inj here, ← Option.some.inj there] at less
  exact less.2 (Option.some.inj (keyBefore_antisymm less.1 more.1))

theorem Numbered.pairwise_documentOrder : catalog.documentOrder.Pairwise catalog.Precedes := by
  have unique := numbered.documentOrder_nodup
  unfold documentOrder
  rw [List.pairwise_map]
  refine (pairwise_sites catalog).imp_of_mem fun first second less => ?_
  exact ⟨_, _, orderKey?_of_mem unique first, orderKey?_of_mem unique second, less⟩

/-- **The smaller key comes first in document order**, and what comes first has the smaller key. -/
theorem Numbered.keyLess_iff_sublist {first second : NodeId} {firstKey secondKey : Nat × List Nat}
    (firstIs : catalog.orderKey? first = some firstKey)
    (secondIs : catalog.orderKey? second = some secondKey) :
    KeyLess firstKey secondKey ↔ [first, second].Sublist catalog.documentOrder := by
  have listed : ∀ {id : NodeId} {key : Nat × List Nat}, catalog.orderKey? id = some key →
      id ∈ catalog.documentOrder := by
    intro id key keyed
    obtain ⟨site, located, _⟩ := Option.map_eq_some_iff.mp keyed
    obtain ⟨member, rfl⟩ := mem_sites_of_site? located
    exact List.mem_map_of_mem member
  rw [pair_sublist_iff numbered.pairwise_documentOrder Precedes.asymm (listed firstIs)
    (listed secondIs)]
  unfold Precedes
  simp [firstIs, secondIs]

end Keys

end Catalog

end EntityModel
