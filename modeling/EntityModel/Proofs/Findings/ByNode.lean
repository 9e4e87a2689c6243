import EntityModel.Findings
import EntityModel.Proofs.Arena.Keys

/-
**The findings of one node, and those of one cause.**

* `Category.code` — the code that a problem has by its category; different categories have different
  codes.
* `Site.finding` — a problem of the node at a place, as it is reported. `Numbered.filter_findings` —
  the findings of a node are the problems found at its place; `pairwise_findings` — **findings follow
  the document order of their nodes.**
* `filter_problems` — the problems of a node by category: a category is found in one part of the list
  only, so that `filter_defects` and `filter_redeclared` read off what is reported of each.
* `filter_role` — the problems of a node with one reference are told by its role, and so are the
  findings (`Numbered.filter_reference`).
-/

namespace EntityModel

/-- Of parts put together, those with the key of an item are the parts of this item. -/
theorem filter_flatMap_key {α β κ : Type} [DecidableEq κ] {key : α → κ} {tag : β → κ}
    {parts : α → List β} {item : α} : ∀ {items : List α}, (items.map key).Nodup →
      (∀ each ∈ items, ∀ part ∈ parts each, tag part = key each) → item ∈ items →
      (items.flatMap parts).filter (fun part => decide (tag part = key item)) = parts item := by
  have own : ∀ {each : α}, (∀ part ∈ parts each, tag part = key each) → key each = key item →
      (parts each).filter (fun part => decide (tag part = key item)) = parts each :=
    fun tagged same => List.filter_eq_self.mpr fun part inside => by simp [tagged part inside, same]
  have others : ∀ {each : α}, (∀ part ∈ parts each, tag part = key each) → key each ≠ key item →
      (parts each).filter (fun part => decide (tag part = key item)) = [] :=
    fun tagged apart => List.filter_eq_nil_iff.mpr fun part inside => by
      simp [tagged part inside, apart]
  intro items
  induction items with
  | nil => exact fun _ _ member => absurd member List.not_mem_nil
  | cons first items ih =>
    intro distinct tagged member
    obtain ⟨taggedFirst, taggedRest⟩ := List.forall_mem_cons.mp tagged
    obtain ⟨new, distinctRest⟩ := List.nodup_cons.mp distinct
    rw [List.flatMap_cons, List.filter_append]
    rcases List.mem_cons.mp member with rfl | later
    · rw [own taggedFirst rfl, List.filter_flatMap, List.flatMap_eq_nil_iff.mpr, List.append_nil]
      exact fun each inside =>
        others (taggedRest each inside) fun same => new (same ▸ List.mem_map_of_mem inside)
    · rw [others taggedFirst fun same => new (same ▸ List.mem_map_of_mem later), List.nil_append,
        ih distinctRest taggedRest later]

/-! ### Codes -/

/-- The code of the problems of the category. -/
def Category.code : Category → String
  | .structuralParseError => "E0100"
  | .unresolvedReference => "E0001"
  | .ambiguousReference => "W0002"
  | .invalidName => "W0003"
  | .duplicateDeclaration => "W0004"
  | .duplicateListEntry => "W0010"

theorem Category.code_injective : Function.Injective Category.code := by
  intro first second same
  cases first <;> cases second <;> first | rfl | exact absurd same (by decide)

theorem Problem.code_eq_iff {problem : Problem} {category : Category} :
    problem.code = category.code ↔ problem.category = category := by
  have own : problem.code = problem.category.code := by
    unfold Problem.code
    cases problem.category <;> rfl
  rw [own]
  exact Category.code_injective.eq_iff

/-! ### The findings of a node -/

/-- A problem of the node at the place, as it is reported. -/
def Site.finding (site : Site) (problem : Problem) : Finding :=
  ⟨site.id, problem, site.node.head.span⟩

/-- The code of the problem that is reported. -/
def Finding.code (finding : Finding) : String :=
  finding.problem.code

/-- The findings with a code are the problems of its category. -/
theorem Site.filter_code (site : Site) (category : Category) {problems : List Problem} :
    ((problems.map site.finding).filter fun finding => decide (finding.code = category.code)) =
      (problems.filter fun problem => decide (problem.category = category)).map site.finding := by
  rw [List.filter_map]
  exact congrArg _ (List.filter_congr fun problem _ => decide_eq_decide.mpr Problem.code_eq_iff)

namespace Catalog

section Reported

variable {catalog : Catalog} {checkNames : Bool}

theorem findings_eq_sites (catalog : Catalog) (checkNames : Bool) :
    catalog.findings checkNames = catalog.sites.flatMap fun site =>
      (catalog.problems checkNames site.node).map site.finding := rfl

theorem mem_findings {finding : Finding} : finding ∈ catalog.findings checkNames ↔
    ∃ site ∈ catalog.sites, ∃ problem ∈ catalog.problems checkNames site.node,
      site.finding problem = finding := by
  rw [findings_eq_sites, List.mem_flatMap]
  simp only [List.mem_map]

/-- **The findings of a node** are the problems found at its place. -/
theorem Numbered.filter_findings (numbered : catalog.Numbered) {site : Site}
    (member : site ∈ catalog.sites) : ((catalog.findings checkNames).filter fun finding =>
      decide (finding.node = site.id)) =
        (catalog.problems checkNames site.node).map site.finding := by
  refine filter_flatMap_key numbered.documentOrder_nodup (fun other _ finding inside => ?_) member
  obtain ⟨problem, _, rfl⟩ := List.mem_map.mp inside
  rfl

/-- The findings of a node with a code are its problems of the category. -/
theorem Numbered.filter_code (numbered : catalog.Numbered) {site : Site}
    (member : site ∈ catalog.sites) (category : Category) :
    ((catalog.findings checkNames).filter fun finding =>
      decide (finding.node = site.id) && decide (finding.code = category.code)) =
        ((catalog.problems checkNames site.node).filter fun problem =>
          decide (problem.category = category)).map site.finding := by
  rw [← site.filter_code, ← numbered.filter_findings member, List.filter_filter]
  exact List.filter_congr fun finding _ => Bool.and_comm _ _

/-- **Findings follow the document order** of their nodes. -/
theorem pairwise_findings (catalog : Catalog) (checkNames : Bool) :
    (catalog.findings checkNames).Pairwise fun first second =>
      first.node = second.node ∨ [first.node, second.node].Sublist catalog.documentOrder := by
  rw [findings_eq_sites, List.pairwise_flatMap]
  constructor
  · intro site _
    rw [List.pairwise_map]
    exact List.pairwise_of_forall fun _ _ => Or.inl rfl
  · refine List.pairwise_iff_forall_sublist.mpr fun {first second} both found listed other there => ?_
    obtain ⟨_, _, rfl⟩ := List.mem_map.mp listed
    obtain ⟨_, _, rfl⟩ := List.mem_map.mp there
    exact Or.inr (both.map Site.id)

end Reported

end Catalog

/-! ### The problems of one cause -/

/-- The category is that of a problem with a reference. -/
def Category.ofReference : Category → Bool
  | .unresolvedReference | .ambiguousReference | .duplicateListEntry => true
  | .structuralParseError | .duplicateDeclaration | .invalidName => false

theorem Problem.isSome_role? (problem : Problem) :
    problem.role?.isSome = problem.category.ofReference := by
  cases problem <;> rfl

/-- The problem of a slot is one with its reference. -/
theorem role?_slotProblem? {rule : ReferenceRule} {seen : List NodeId} {slot : Slot}
    {problem : Problem} (found : slotProblem? rule seen slot = some problem) :
    problem.role? = some rule.role := by
  unfold slotProblem? at found
  split at found
  · rw [← Option.some.inj found]
    rfl
  · rw [← Option.some.inj found]
    rfl
  · split at found
    · rw [← Option.some.inj found]
      rfl
    · split at found
      · rw [← Option.some.inj found]
        rfl
      · exact nomatch found

theorem role?_slotProblems {rule : ReferenceRule} {slots : List Slot} {problem : Problem} :
    ∀ {seen : List NodeId}, problem ∈ slotProblems rule seen slots →
      problem.role? = some rule.role := by
  induction slots with
  | nil => exact fun found => absurd found List.not_mem_nil
  | cons slot slots ih =>
    intro seen found
    rcases List.mem_append.mp found with here | later
    · exact role?_slotProblem? (Option.mem_toList.mp here)
    · exact ih later

theorem Reference.role?_problems {reference : Reference} {kind : Kind} {problem : Problem}
    (found : problem ∈ reference.problems kind) : problem.role? = some reference.role := by
  unfold Reference.problems at found
  split at found
  · exact absurd found List.not_mem_nil
  · split at found
    · split at found
      · exact absurd found List.not_mem_nil
      · rw [List.mem_singleton.mp found]
        rfl
    · exact role?_slotProblems found

theorem Reference.ofReference_problems {reference : Reference} {kind : Kind} {problem : Problem}
    (found : problem ∈ reference.problems kind) : problem.category.ofReference = true := by
  rw [← problem.isSome_role?, role?_problems found]
  rfl

theorem Node.category_nameProblem? {node : Node} {problem : Problem}
    (found : node.nameProblem? = some problem) : problem.category = .invalidName := by
  unfold Node.nameProblem? at found
  split at found
  · obtain ⟨name, _, cause⟩ := Option.bind_eq_some_iff.mp found
    split at cause
    · rw [← Option.some.inj cause]
      rfl
    · split at cause
      · exact nomatch cause
      · rw [← Option.some.inj cause]
        rfl
  · exact nomatch found

namespace Catalog

variable {catalog : Catalog} {checkNames : Bool} {node : Node}

theorem declarationProblem?_eq_some_iff {problem : Problem} :
    catalog.declarationProblem? node = some problem ↔ ∃ symbol first,
      node.declared? = some symbol ∧ catalog.declaring? symbol = some first ∧ first ≠ node.id ∧
        problem = .redeclared symbol first := by
  unfold declarationProblem?
  simp only [Option.bind_eq_some_iff]
  constructor
  · rintro ⟨symbol, declares, first, leads, own⟩
    by_cases same : first = node.id
    · simp [same] at own
    · rw [if_neg same] at own
      exact ⟨symbol, first, declares, leads, same, (Option.some.inj own).symm⟩
  · rintro ⟨symbol, first, declares, leads, apart, rfl⟩
    exact ⟨symbol, declares, first, leads, if_neg apart⟩

/-- **The problems of a node by category.** Defects, a late declaration, the name and the references
have categories of their own. -/
theorem filter_problems (keeps : Category → Bool) :
    ((catalog.problems checkNames node).filter fun problem => keeps problem.category) =
      (if keeps .structuralParseError then node.defects.map .defect else []) ++
      (if keeps .duplicateDeclaration then (catalog.declarationProblem? node).toList else []) ++
      (if keeps .invalidName && checkNames then node.nameProblem?.toList else []) ++
      node.references.flatMap fun reference =>
        (reference.problems node.kind).filter fun problem => keeps problem.category := by
  -- a part of one category stays or goes as a whole
  have part : ∀ {problems : List Problem} (category : Category),
      (∀ problem ∈ problems, problem.category = category) →
      (problems.filter fun problem => keeps problem.category) =
        if keeps category then problems else [] := by
    intro problems category own
    split
    next kept => exact List.filter_eq_self.mpr fun problem inside => by simp [own problem inside, kept]
    next left => exact List.filter_eq_nil_iff.mpr fun problem inside => by simp [own problem inside, left]
  have names : ((if checkNames then node.nameProblem?.toList else []).filter fun problem =>
      keeps problem.category) =
        if keeps .invalidName && checkNames then node.nameProblem?.toList else [] := by
    cases checkNames with
    | false => simp
    | true =>
      rw [if_pos rfl, part .invalidName fun problem inside =>
        Node.category_nameProblem? (Option.mem_toList.mp inside), Bool.and_true]
  unfold problems
  rw [List.filter_append, List.filter_append, List.filter_append, names, List.filter_flatMap,
    part .structuralParseError, part .duplicateDeclaration]
  · intro problem inside
    obtain ⟨_, _, _, _, _, rfl⟩ := declarationProblem?_eq_some_iff.mp (Option.mem_toList.mp inside)
    rfl
  · intro problem inside
    obtain ⟨_, _, rfl⟩ := List.mem_map.mp inside
    rfl

/-- No reference has a problem of the other categories. -/
theorem filter_references (keeps : Category → Bool)
    (other : ∀ category, keeps category = true → category.ofReference = false) :
    (node.references.flatMap fun reference =>
      (reference.problems node.kind).filter fun problem => keeps problem.category) = [] := by
  refine List.flatMap_eq_nil_iff.mpr fun reference _ => List.filter_eq_nil_iff.mpr ?_
  intro problem inside kept
  exact nomatch (Reference.ofReference_problems inside).symm.trans (other problem.category kept)

/-- The defects of a node are reported one by one, in order. -/
theorem filter_defects : ((catalog.problems checkNames node).filter fun problem =>
    decide (problem.category = .structuralParseError)) = node.defects.map .defect := by
  have elsewhere := @filter_references node (fun category => decide (category = .structuralParseError))
    fun category own => by rw [of_decide_eq_true own]; rfl
  rw [filter_problems fun category => decide (category = .structuralParseError), elsewhere]
  simp

/-- A node is reported at most once for a declaration that came too late. -/
theorem filter_redeclared : ((catalog.problems checkNames node).filter fun problem =>
    decide (problem.category = .duplicateDeclaration)) =
      (catalog.declarationProblem? node).toList := by
  have elsewhere := @filter_references node (fun category => decide (category = .duplicateDeclaration))
    fun category own => by rw [of_decide_eq_true own]; rfl
  rw [filter_problems fun category => decide (category = .duplicateDeclaration), elsewhere]
  simp

/-- The problems of a node with one of its references. -/
theorem filter_role (roles : (node.references.map Reference.role).Nodup) {reference : Reference}
    (member : reference ∈ node.references) :
    ((catalog.problems checkNames node).filter fun problem =>
      decide (problem.role? = some reference.role)) = reference.problems node.kind := by
  -- a problem with a role is one with a reference
  have twice : ∀ problem : Problem, decide (problem.role? = some reference.role) =
      (decide (problem.role? = some reference.role) && problem.category.ofReference) := by
    intro problem
    rw [← problem.isSome_role?]
    cases problem.role? <;> simp
  have whole : ∀ other ∈ node.references, ((other.problems node.kind).filter fun problem =>
      problem.category.ofReference) = other.problems node.kind :=
    fun other _ => List.filter_eq_self.mpr fun problem inside =>
      Reference.ofReference_problems inside
  rw [List.filter_congr fun problem _ => twice problem, ← List.filter_filter,
    filter_problems Category.ofReference, List.flatMap_congr whole]
  simp only [Category.ofReference, Bool.false_eq_true, if_false, Bool.false_and, List.nil_append]
  have distinct : (node.references.map fun other => some other.role).Nodup := by
    have named := roles.map fun _ _ same => Option.some.inj same
    rw [List.map_map] at named
    exact named
  exact filter_flatMap_key distinct (fun other _ problem inside => Reference.role?_problems inside)
    member

/-- **The findings with a reference** are its problems. -/
theorem Numbered.filter_reference (numbered : catalog.Numbered) {site : Site}
    (member : site ∈ catalog.sites) (roles : (site.node.references.map Reference.role).Nodup)
    {reference : Reference} (inside : reference ∈ site.node.references) :
    ((catalog.findings checkNames).filter fun finding =>
      decide (finding.reference? = some ⟨site.id, reference.role⟩)) =
        (reference.problems site.node.kind).map site.finding := by
  have both : ∀ finding : Finding, decide (finding.reference? = some ⟨site.id, reference.role⟩) =
      (decide (finding.problem.role? = some reference.role) && decide (finding.node = site.id)) := by
    intro finding
    unfold Finding.reference?
    rw [Bool.eq_iff_iff]
    cases finding.problem.role? <;> simp [and_comm]
  rw [List.filter_congr fun finding _ => both finding, ← List.filter_filter,
    numbered.filter_findings member, List.filter_map]
  exact congrArg _ (filter_role roles inside)

end Catalog

end EntityModel
