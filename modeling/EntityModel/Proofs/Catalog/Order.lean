import Mathlib.Data.List.Nodup
import EntityModel.Catalog

/-
**Document order.**

Nodes are sorted by keys that are computed from the places; the list of all places is written from
the top down. Both are the same order.

* `pathBefore_trans`, `pathBefore_total`, `pathBefore_antisymm` — paths are ordered lexicographically,
  a path before its extensions.
* `pairwise_spots` — the places of a tree stand in the order of their paths; `pairwise_sites` — those
  of a catalog in the order of their keys.
* `eq_of_sublist_documentOrder` — nodes in the order of their keys, each once, are a part of the document
  order; `sortByDocumentOrder_eq_filter` — so a list of nodes without repeats, when it is sorted.
-/

namespace EntityModel

namespace Catalog

/-! ### Paths -/

theorem pathBefore_total (first second : List Nat) :
    pathBefore first second = true ∨ pathBefore second first = true := by
  induction first generalizing second with
  | nil => exact Or.inl rfl
  | cons head tail ih =>
    cases second with
    | nil => exact Or.inr rfl
    | cons other rest =>
      simp only [pathBefore, Bool.or_eq_true, decide_eq_true_eq, Bool.and_eq_true, beq_iff_eq]
      rcases Nat.lt_trichotomy head other with less | same | greater
      · exact Or.inl (Or.inl less)
      · exact (ih rest).imp (fun below => Or.inr ⟨same, below⟩)
          (fun below => Or.inr ⟨same.symm, below⟩)
      · exact Or.inr (Or.inl greater)

theorem pathBefore_trans {first second third : List Nat} (lower : pathBefore first second = true)
    (upper : pathBefore second third = true) : pathBefore first third = true := by
  induction first generalizing second third with
  | nil => rfl
  | cons a as ih =>
    cases second with
    | nil => cases lower
    | cons b bs =>
      cases third with
      | nil => cases upper
      | cons c cs =>
        simp only [pathBefore, Bool.or_eq_true, decide_eq_true_eq, Bool.and_eq_true,
          beq_iff_eq] at lower upper ⊢
        rcases lower with less | ⟨rfl, below⟩
        · rcases upper with more | ⟨rfl, _⟩
          · exact Or.inl (Nat.lt_trans less more)
          · exact Or.inl less
        · rcases upper with more | ⟨rfl, under⟩
          · exact Or.inl more
          · exact Or.inr ⟨rfl, ih below under⟩

theorem pathBefore_antisymm {first second : List Nat} (lower : pathBefore first second = true)
    (upper : pathBefore second first = true) : first = second := by
  induction first generalizing second with
  | nil =>
    cases second with
    | nil => rfl
    | cons _ _ => cases upper
  | cons a as ih =>
    cases second with
    | nil => cases lower
    | cons b bs =>
      simp only [pathBefore, Bool.or_eq_true, decide_eq_true_eq, Bool.and_eq_true,
        beq_iff_eq] at lower upper
      rcases lower with less | ⟨rfl, below⟩
      · rcases upper with more | ⟨rfl, _⟩
        · exact absurd (Nat.lt_trans less more) (Nat.lt_irrefl a)
        · exact absurd less (Nat.lt_irrefl _)
      · rcases upper with more | ⟨_, under⟩
        · exact absurd more (Nat.lt_irrefl a)
        · rw [ih below under]

theorem pathBefore_append (stem first second : List Nat) :
    pathBefore (stem ++ first) (stem ++ second) = pathBefore first second := by
  induction stem with
  | nil => rfl
  | cons head tail ih => simp [pathBefore, ih]

/-! ### Keys -/

/-- A key is a path below the number of the document. -/
theorem keyBefore_some (first second : Nat × List Nat) : keyBefore (some first) (some second) =
    pathBefore (first.1 :: first.2) (second.1 :: second.2) := rfl

theorem keyBefore_total (first second : Option (Nat × List Nat)) :
    keyBefore first second = true ∨ keyBefore second first = true := by
  cases first with
  | none => cases second <;> simp [keyBefore]
  | some key =>
    cases second with
    | none => exact Or.inl rfl
    | some other => exact pathBefore_total (key.1 :: key.2) (other.1 :: other.2)

theorem keyBefore_trans {first second third : Option (Nat × List Nat)}
    (lower : keyBefore first second = true) (upper : keyBefore second third = true) :
    keyBefore first third = true := by
  cases third with
  | none => cases first <;> rfl
  | some top =>
    cases second with
    | none => cases upper
    | some middle =>
      cases first with
      | none => cases lower
      | some bottom =>
        rw [keyBefore_some] at lower upper ⊢
        exact pathBefore_trans lower upper

theorem keyBefore_antisymm {first second : Option (Nat × List Nat)}
    (lower : keyBefore first second = true) (upper : keyBefore second first = true) :
    first = second := by
  cases first with
  | none =>
    cases second with
    | none => rfl
    | some _ => cases lower
  | some key =>
    cases second with
    | none => cases upper
    | some other =>
      rw [keyBefore_some] at lower upper
      obtain ⟨rank, path⟩ := List.cons.inj (pathBefore_antisymm lower upper)
      exact congrArg some (Prod.ext rank path)

end Catalog

/-! ### Places in order -/

namespace Tree

variable {α : Type}

theorem path_of_mem_spotsFrom (tree : Tree α) : ∀ {above : List α} {path : List Nat}
    {spot : Spot α}, spot ∈ spotsFrom above path tree → ∃ rest, spot.path = path ++ rest := by
  induction tree using induct with
  | step label children ih =>
    intro above path spot member
    rcases List.mem_cons.mp member with rfl | below
    · exact ⟨[], (List.append_nil _).symm⟩
    · obtain ⟨index, child, listed, inside⟩ := mem_spotsFromAll.mp below
      obtain ⟨rest, same⟩ := ih child (List.mem_of_getElem? listed) inside
      exact ⟨[0 + index] ++ rest, by rw [same, List.append_assoc]⟩

theorem path_of_mem_spotsFromAll {above : List α} {path : List Nat} {spot : Spot α}
    {trees : List (Tree α)} {position : Nat}
    (member : spot ∈ spotsFromAll above path position trees) :
    ∃ index rest, position ≤ index ∧ spot.path = path ++ index :: rest := by
  obtain ⟨index, child, _, inside⟩ := mem_spotsFromAll.mp member
  obtain ⟨rest, same⟩ := path_of_mem_spotsFrom child inside
  exact ⟨position + index, rest, Nat.le_add_right .., by rw [same, List.append_assoc]; rfl⟩

/-- The first path leads to a place before that of the second. -/
def PathLess (first second : List Nat) : Prop :=
  Catalog.pathBefore first second = true ∧ first ≠ second

theorem pathLess_extension (path : List Nat) (index : Nat) (rest : List Nat) :
    PathLess path (path ++ index :: rest) := by
  refine ⟨?_, fun same => ?_⟩
  · have := Catalog.pathBefore_append path [] (index :: rest)
    rwa [List.append_nil] at this
  · have lengths := congrArg List.length same
    rw [List.length_append, List.length_cons] at lengths
    omega

theorem pathLess_siblings (path : List Nat) {first second : Nat} (less : first < second)
    (below under : List Nat) : PathLess (path ++ first :: below) (path ++ second :: under) := by
  refine ⟨?_, fun same => ?_⟩
  · rw [Catalog.pathBefore_append]
    simp [Catalog.pathBefore, less]
  · have heads := List.append_cancel_left same
    injection heads with equal
    omega

theorem pairwise_spotsFrom (tree : Tree α) : ∀ (above : List α) (path : List Nat),
    (spotsFrom above path tree).Pairwise fun first second => PathLess first.path second.path := by
  induction tree using induct with
  | step label children ih =>
    intro above path
    have siblings : ∀ (trees : List (Tree α)) (position : Nat),
        (∀ child ∈ trees, child ∈ children) →
        (spotsFromAll (label :: above) path position trees).Pairwise
          fun first second => PathLess first.path second.path := by
      intro trees
      induction trees with
      | nil => intro position _; exact List.Pairwise.nil
      | cons tree trees later =>
        intro position each
        rw [spotsFromAll, List.pairwise_append]
        refine ⟨ih tree (each tree List.mem_cons_self) _ _,
          later _ fun child inside => each child (List.mem_cons_of_mem _ inside), ?_⟩
        intro first here second there
        obtain ⟨below, firstPath⟩ := path_of_mem_spotsFrom tree here
        obtain ⟨index, under, beyond, secondPath⟩ := path_of_mem_spotsFromAll there
        rw [firstPath, secondPath, List.append_assoc]
        exact pathLess_siblings path beyond below under
    rw [spotsFrom, List.pairwise_cons]
    refine ⟨fun spot member => ?_, siblings children 0 fun _ inside => inside⟩
    obtain ⟨index, rest, _, same⟩ := path_of_mem_spotsFromAll member
    rw [same]
    exact pathLess_extension path index rest

/-- **The places of a tree stand in the order of their paths.** -/
theorem pairwise_spots (tree : Tree α) :
    tree.spots.Pairwise fun first second => PathLess first.path second.path :=
  pairwise_spotsFrom tree [] []

end Tree

namespace Catalog

/-- The key of a place. -/
def siteKey (site : Site) : Nat × List Nat :=
  (site.rank, site.spot.path)

theorem rank_of_mem_sitesOf {rank : Nat} {document : Document} {site : Site}
    (member : site ∈ sitesOf rank document) : site.rank = rank := by
  unfold sitesOf at member
  split at member
  · exact absurd member List.not_mem_nil
  · obtain ⟨spot, _, rfl⟩ := List.mem_map.mp member
    rfl

/-- The first key stands before the second, and they differ. -/
def KeyLess (first second : Nat × List Nat) : Prop :=
  keyBefore (some first) (some second) = true ∧ first ≠ second

theorem pairwise_sitesOf (rank : Nat) (document : Document) :
    (sitesOf rank document).Pairwise fun first second =>
      KeyLess (siteKey first) (siteKey second) := by
  unfold sitesOf
  split
  · exact List.Pairwise.nil
  · rename_i root _
    rw [List.pairwise_map]
    refine (Tree.pairwise_spots root).imp fun less => ?_
    refine ⟨?_, fun same => less.2 (congrArg Prod.snd same)⟩
    simp [keyBefore, siteKey, less.1]

theorem pairwise_sitesFrom (documents : List Document) : ∀ start : Nat,
    ((documents.zipIdx start).map fun (document, rank) => sitesOf rank document).flatten.Pairwise
      fun first second => KeyLess (siteKey first) (siteKey second) := by
  induction documents with
  | nil => intro start; exact List.Pairwise.nil
  | cons document documents ih =>
    intro start
    rw [List.zipIdx_cons, List.map_cons, List.flatten_cons, List.pairwise_append]
    refine ⟨pairwise_sitesOf start document, ih (start + 1), ?_⟩
    intro first here second there
    obtain ⟨sites, sitesMem, inside⟩ := List.mem_flatten.mp there
    obtain ⟨⟨later, rank⟩, pairMem, rfl⟩ := List.mem_map.mp sitesMem
    have beyond : start + 1 ≤ rank := List.le_snd_of_mem_zipIdx pairMem
    have less : (siteKey first).1 < (siteKey second).1 := by
      show first.rank < second.rank
      rw [rank_of_mem_sitesOf here, rank_of_mem_sitesOf inside]
      exact beyond
    refine ⟨?_, fun same => ?_⟩
    · simp [keyBefore, less]
    · exact absurd (congrArg Prod.fst same) (Nat.ne_of_lt less)

/-- **The places of a catalog stand in the order of their keys**, and no two keys are equal. -/
theorem pairwise_sites (catalog : Catalog) :
    catalog.sites.Pairwise fun first second => KeyLess (siteKey first) (siteKey second) :=
  pairwise_sitesFrom catalog.documents 0

theorem eq_of_siteKey {catalog : Catalog} {first second : Site} (firstMem : first ∈ catalog.sites)
    (secondMem : second ∈ catalog.sites) (same : siteKey first = siteKey second) :
    first = second := by
  have keys : (catalog.sites.map siteKey).Nodup :=
    List.pairwise_map.mpr ((pairwise_sites catalog).imp And.right)
  exact List.inj_on_of_nodup_map keys firstMem secondMem same

/-! ### Sorting -/

theorem mem_sortByDocumentOrder {catalog : Catalog} {ids : List NodeId} {id : NodeId} :
    id ∈ catalog.sortByDocumentOrder ids ↔ id ∈ ids := by
  unfold sortByDocumentOrder
  rw [List.mem_map]
  constructor
  · rintro ⟨pair, member, rfl⟩
    obtain ⟨id, inside, rfl⟩ := List.mem_map.mp (mem_sortBy.mp member)
    exact inside
  · intro member
    exact ⟨(catalog.orderKey? id, id), mem_sortBy.mpr (List.mem_map_of_mem member), rfl⟩

theorem nodup_sortByDocumentOrder {catalog : Catalog} {ids : List NodeId} (distinct : ids.Nodup) :
    (catalog.sortByDocumentOrder ids).Nodup := by
  have keyed : (ids.map fun id => (catalog.orderKey? id, id)).Nodup :=
    distinct.map fun _ _ same => congrArg Prod.snd same
  unfold sortByDocumentOrder
  refine List.Nodup.map_on ?_ ((perm_sortBy _ _).nodup_iff.mpr keyed)
  intro first firstMem second secondMem same
  obtain ⟨one, _, rfl⟩ := List.mem_map.mp (mem_sortBy.mp firstMem)
  obtain ⟨other, _, rfl⟩ := List.mem_map.mp (mem_sortBy.mp secondMem)
  obtain rfl : one = other := same
  rfl

theorem site?_eq_some_of_mem {catalog : Catalog} (unique : catalog.documentOrder.Nodup)
    {site : Site} (member : site ∈ catalog.sites) : catalog.site? site.id = some site := by
  unfold site?
  rw [List.find?_eq_some_iff_append]
  obtain ⟨earlier, later, split⟩ := List.append_of_mem member
  refine ⟨by simp, earlier, later, split, fun other inside => ?_⟩
  unfold documentOrder at unique
  rw [split, List.map_append, List.map_cons] at unique
  have apart := (List.nodup_append.mp unique).2.2 other.id (List.mem_map_of_mem inside) site.id
    List.mem_cons_self
  simpa using apart

theorem mem_sites_of_site? {catalog : Catalog} {id : NodeId} {site : Site}
    (found : catalog.site? id = some site) : site ∈ catalog.sites ∧ site.id = id :=
  ⟨List.mem_of_find?_eq_some found, by simpa using List.find?_some found⟩

/-- What is sorted stands in the order of its keys. -/
theorem pairwise_sortByDocumentOrder (catalog : Catalog) (ids : List NodeId) :
    (catalog.sortByDocumentOrder ids).Pairwise fun first second =>
      keyBefore (catalog.orderKey? first) (catalog.orderKey? second) = true := by
  let keyed : NodeId → Option (Nat × List Nat) × NodeId := fun id => (catalog.orderKey? id, id)
  let before : Option (Nat × List Nat) × NodeId → Option (Nat × List Nat) × NodeId → Bool :=
    fun first second => keyBefore first.1 second.1
  have transitive : ∀ first second third, before first second = true →
      before second third = true → before first third = true :=
    fun _ _ _ => keyBefore_trans
  have total : ∀ first second, (before first second || before second first) = true := by
    intro first second
    rw [Bool.or_eq_true]
    exact keyBefore_total first.1 second.1
  show ((sortBy before (ids.map keyed)).map Prod.snd).Pairwise _
  rw [List.pairwise_map]
  refine List.Pairwise.imp_of_mem ?_ (pairwise_sortBy transitive total _)
  intro first second firstMem secondMem less
  obtain ⟨one, _, rfl⟩ := List.mem_map.mp (mem_sortBy.mp firstMem)
  obtain ⟨other, _, rfl⟩ := List.mem_map.mp (mem_sortBy.mp secondMem)
  exact less

section Listed

variable {catalog : Catalog} (unique : catalog.documentOrder.Nodup)

include unique

theorem orderKey?_of_mem {site : Site} (member : site ∈ catalog.sites) :
    catalog.orderKey? site.id = some (siteKey site) := by
  rw [orderKey?, site?_eq_some_of_mem unique member]
  rfl

theorem pairwise_documentOrder : catalog.documentOrder.Pairwise fun first second =>
    keyBefore (catalog.orderKey? first) (catalog.orderKey? second) = true := by
  rw [documentOrder, List.pairwise_map]
  refine List.Pairwise.imp_of_mem ?_ (pairwise_sites catalog)
  intro first second firstMem secondMem less
  rw [orderKey?_of_mem unique firstMem, orderKey?_of_mem unique secondMem]
  exact less.1

/-- Different nodes have different keys. -/
theorem eq_of_orderKey? {first second : NodeId} (firstMem : first ∈ catalog.documentOrder)
    (secondMem : second ∈ catalog.documentOrder)
    (same : catalog.orderKey? first = catalog.orderKey? second) : first = second := by
  obtain ⟨oneSite, oneIn, rfl⟩ := List.mem_map.mp firstMem
  obtain ⟨otherSite, otherIn, rfl⟩ := List.mem_map.mp secondMem
  rw [orderKey?_of_mem unique oneIn, orderKey?_of_mem unique otherIn] at same
  rw [eq_of_siteKey oneIn otherIn (Option.some.inj same)]

/-- **Nodes in the order of their keys, each once, are the part of the document order** made of
them. -/
theorem eq_of_sublist_documentOrder {ids part : List NodeId} (distinct : ids.Nodup)
    (sorted : ids.Pairwise fun first second =>
      keyBefore (catalog.orderKey? first) (catalog.orderKey? second) = true)
    (listed : part.Sublist catalog.documentOrder) (same : ∀ id, id ∈ ids ↔ id ∈ part) :
    ids = part := by
  have members : ids.Perm part :=
    (List.perm_ext_iff_of_nodup distinct (unique.sublist listed)).mpr same
  -- different nodes have different keys, so two sorted lists of the same nodes are equal
  refine List.Perm.eq_of_pairwise ?_ sorted ((pairwise_documentOrder unique).sublist listed) members
  intro first second firstMem secondMem lower upper
  exact eq_of_orderKey? unique (listed.subset ((same first).mp firstMem))
    (listed.subset secondMem) (keyBefore_antisymm lower upper)

/-- **Sorting picks from the document order**: a list of nodes without repeats, sorted by keys, is
the part of the document order that is in the list. -/
theorem sortByDocumentOrder_eq_filter {ids : List NodeId} (distinct : ids.Nodup)
    (live : ∀ id ∈ ids, id ∈ catalog.documentOrder) :
    catalog.sortByDocumentOrder ids =
      catalog.documentOrder.filter fun id => decide (id ∈ ids) := by
  refine eq_of_sublist_documentOrder unique (nodup_sortByDocumentOrder distinct)
    (catalog.pairwise_sortByDocumentOrder ids) List.filter_sublist fun id => ?_
  rw [mem_sortByDocumentOrder, List.mem_filter, decide_eq_true_eq]
  exact ⟨fun member => ⟨live id member, member⟩, And.right⟩

end Listed

end Catalog

end EntityModel
