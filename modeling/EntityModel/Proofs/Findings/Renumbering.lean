import EntityModel.Proofs.Resolution.Congruence

/-
**Findings under other numbers.**

* `slotProblems_renumber`, `problems_renumber` — the problems of references, as long as the renaming
  keeps the targets apart.
* `Catalog.findings_renumber` — **the same nodes under other numbers have the same findings**, under
  these numbers.
-/

namespace EntityModel

theorem Problem.renumber_id : Problem.renumber id = id := by
  funext problem
  cases problem <;> rfl

theorem Finding.renumber_id : Finding.renumber id = id := by
  funext finding
  unfold renumber
  rw [Problem.renumber_id]
  rfl

theorem Node.nameProblem?_renumber (rename : NodeId → NodeId) (node : Node) :
    (node.renumber rename).nameProblem? = node.nameProblem?.map (Problem.renumber rename) := by
  have name : (node.renumber rename).name = node.name := by
    unfold Node.name Node.renumber
    cases node.content with
    | none => rfl
    | some content => rfl
  have kind : (node.renumber rename).kind = node.kind := rfl
  unfold nameProblem?
  rw [name, kind]
  by_cases named : node.kind.hasIdentifierName = true
  · rw [if_pos named]
    cases node.name with
    | none => rfl
    | some text =>
      rw [Option.bind_some]
      split_ifs
      · rfl
      · rfl
      · rfl
  · rw [if_neg named]
    rfl

/-- The renaming keeps the nodes apart. -/
def ApartOn (rename : NodeId → NodeId) (ids : List NodeId) : Prop :=
  ∀ first ∈ ids, ∀ second ∈ ids, rename first = rename second → first = second

section References

variable {rename : NodeId → NodeId} {ids : List NodeId} (apart : ApartOn rename ids)

include apart

theorem contains_renumber {seen : List NodeId} (inside : seen ⊆ ids) {target : NodeId}
    (live : target ∈ ids) : (seen.map rename).contains (rename target) = seen.contains target := by
  rw [Bool.eq_iff_iff, List.contains_iff_mem, List.contains_iff_mem, List.mem_map]
  constructor
  · rintro ⟨other, member, same⟩
    exact apart other (inside member) target live same ▸ member
  · exact fun member => ⟨target, member, rfl⟩

theorem slotProblem?_renumber (rule : ReferenceRule) {seen : List NodeId} (inside : seen ⊆ ids)
    {slot : Slot} (live : slot.target?.toList ⊆ ids) :
    slotProblem? rule (seen.map rename) (slot.renumber rename) =
      (slotProblem? rule seen slot).map (Problem.renumber rename) := by
  rcases slot with ⟨text, symbol, outcome⟩
  cases outcome with
  | undefined reason =>
    cases reason with
    | empty => rfl
    | notFound => rfl
    | wrongKind kind => rfl
  | known target candidates =>
    have known : target ∈ ids := live (List.mem_singleton.mpr rfl)
    show (if (seen.map rename).contains (rename target) then some (Problem.repeated text rule.role)
      else if 1 < candidates then
        some (.ambiguous text rule.role candidates (rename target)) else none) =
      Option.map (Problem.renumber rename) (if seen.contains target then
        some (.repeated text rule.role)
      else if 1 < candidates then some (.ambiguous text rule.role candidates target) else none)
    rw [contains_renumber apart inside known]
    by_cases again : seen.contains target = true
    · rw [if_pos again, if_pos again]
      rfl
    · rw [if_neg again, if_neg again]
      by_cases several : 1 < candidates
      · rw [if_pos several, if_pos several]
        rfl
      · rw [if_neg several, if_neg several]
        rfl

theorem slotProblems_renumber (rule : ReferenceRule) {slots : List Slot} :
    ∀ {seen : List NodeId}, seen ⊆ ids → slots.filterMap Slot.target? ⊆ ids →
    slotProblems rule (seen.map rename) (slots.map (Slot.renumber rename)) =
      (slotProblems rule seen slots).map (Problem.renumber rename) := by
  induction slots with
  | nil => exact fun _ _ => rfl
  | cons slot slots ih =>
    intro seen inside live
    have own : slot.target?.toList ⊆ ids := by
      intro target known
      refine live (List.mem_filterMap.mpr ⟨slot, List.mem_cons_self, ?_⟩)
      exact Option.mem_toList.mp known
    have others : slots.filterMap Slot.target? ⊆ ids := by
      intro target known
      obtain ⟨other, later, leads⟩ := List.mem_filterMap.mp known
      exact live (List.mem_filterMap.mpr ⟨other, List.mem_cons_of_mem _ later, leads⟩)
    have longer : seen.map rename ++ (slot.renumber rename).target?.toList =
        (seen ++ slot.target?.toList).map rename := by
      rw [Slot.target?_renumber, List.map_append, Option.toList_map]
    show (slotProblem? rule (seen.map rename) (slot.renumber rename)).toList ++
        slotProblems rule (seen.map rename ++ (slot.renumber rename).target?.toList)
          (slots.map (Slot.renumber rename)) =
      ((slotProblem? rule seen slot).toList ++
        slotProblems rule (seen ++ slot.target?.toList) slots).map (Problem.renumber rename)
    rw [slotProblem?_renumber apart rule inside own, longer,
      ih (List.append_subset.mpr ⟨inside, own⟩) others, List.map_append, Option.toList_map]

theorem problems_renumber {reference : Reference} (kind : Kind)
    (live : reference.targets ⊆ ids) :
    (reference.renumber rename).problems kind =
      (reference.problems kind).map (Problem.renumber rename) := by
  rcases reference with ⟨rule, text, answer⟩
  cases answer with
  | none => rfl
  | some slots =>
    have listed := @slotProblems_renumber rename ids apart rule slots [] (List.nil_subset _) live
    show (if Reference.isAbsent ⟨rule, text, some slots⟩ then
        (if rule.optional then [] else [Problem.unspecified kind rule.role])
      else slotProblems rule [] (slots.map (Slot.renumber rename))) =
      (if Reference.isAbsent ⟨rule, text, some slots⟩ then
        (if rule.optional then [] else [Problem.unspecified kind rule.role])
      else slotProblems rule [] slots).map (Problem.renumber rename)
    by_cases absent : Reference.isAbsent ⟨rule, text, some slots⟩ = true
    · rw [if_pos absent, if_pos absent]
      by_cases free : rule.optional = true
      · rw [if_pos free]
        rfl
      · rw [if_neg free]
        rfl
    · rw [if_neg absent, if_neg absent]
      exact listed

end References

namespace Catalog

/-- The findings are those of the rows, one after the other. -/
theorem findings_eq (catalog : Catalog) (checkNames : Bool) :
    catalog.findings checkNames = catalog.rows.flatMap fun row =>
      (catalog.problems checkNames row.node).map fun problem =>
        ⟨row.id, problem, row.node.head.span⟩ := by
  rw [← map_row_sites, List.flatMap_map]
  rfl

section Findings

variable {rename : NodeId → NodeId} {first second : Catalog} (numbered : first.Numbered)
  (exact : first.SymbolsExact) (twinNumbered : second.Numbered) (twinExact : second.SymbolsExact)
  (rows : second.rows = first.rows.map (Row.map (Node.renumber rename)))

include rows

theorem documentOrder_renumber : second.documentOrder = first.documentOrder.map rename := by
  rw [documentOrder_eq, documentOrder_eq, rows, List.map_map, List.map_map]
  rfl

include twinNumbered

/-- Numbers are unique on both sides, so the renaming keeps nodes apart. -/
theorem apartOn_renumber : ApartOn rename first.documentOrder := by
  have distinct := twinNumbered.documentOrder_nodup
  rw [documentOrder_renumber rows] at distinct
  exact fun one oneLive other otherLive same =>
    List.inj_on_of_nodup_map distinct oneLive otherLive same

include numbered exact twinExact

theorem declaring?_renumber (symbol : Symbol) :
    second.declaring? symbol = (first.declaring? symbol).map rename := by
  have declaring : second.declaring symbol =
      (first.declaring symbol).map (Row.map (Node.renumber rename)) :=
    declaring_renamed rows (fun _ _ => rfl) symbol
  rw [declaring?, declaring?, lookup_eq numbered exact, lookup_eq twinNumbered twinExact, declaring,
    List.head?_map, List.head?_map, List.head?_map, Option.map_map, Option.map_map]
  rfl

theorem declarationProblem?_renumber {row : Row} (member : row ∈ first.rows) :
    second.declarationProblem? (row.node.renumber rename) =
      (first.declarationProblem? row.node).map (Problem.renumber rename) := by
  have declared : (row.node.renumber rename).declared? = row.node.declared? := rfl
  unfold declarationProblem?
  rw [declared]
  cases row.node.declared? with
  | none => rfl
  | some symbol =>
    rw [Option.bind_some, Option.bind_some,
      declaring?_renumber numbered exact twinNumbered twinExact rows]
    cases found : first.declaring? symbol with
    | none => rfl
    | some holder =>
      have live : holder ∈ first.documentOrder := by
        have listed : holder ∈ first.lookup symbol := List.mem_of_head? found
        rw [lookup_eq numbered exact] at listed
        obtain ⟨other, declares, rfl⟩ := List.mem_map.mp listed
        rw [documentOrder_eq]
        exact List.mem_map_of_mem (mem_declaring.mp declares).1
      have own : row.node.id ∈ first.documentOrder := by
        rw [documentOrder_eq]
        exact List.mem_map_of_mem member
      show (if rename holder = rename row.node.id then none
          else some (Problem.redeclared symbol (rename holder))) =
        Option.map (Problem.renumber rename)
          (if holder = row.node.id then none else some (.redeclared symbol holder))
      by_cases same : holder = row.node.id
      · rw [if_pos same, if_pos (congrArg rename same)]
        rfl
      · rw [if_neg same, if_neg fun equal =>
          same (apartOn_renumber twinNumbered rows holder live row.node.id own equal)]
        rfl

theorem nodeProblems_renumber (checkNames : Bool) {row : Row} (member : row ∈ first.rows)
    (targets : ∀ reference ∈ row.node.references,
      reference.targets ⊆ first.documentOrder) :
    second.problems checkNames (row.node.renumber rename) =
      (first.problems checkNames row.node).map (Problem.renumber rename) := by
  have apart := apartOn_renumber twinNumbered rows
  have defects : (row.node.renumber rename).defects.map Problem.defect =
      (row.node.defects.map .defect).map (Problem.renumber rename) := by
    rw [List.map_map]
    rfl
  have names : (if checkNames then (row.node.renumber rename).nameProblem?.toList else []) =
      (if checkNames then row.node.nameProblem?.toList else []).map (Problem.renumber rename) := by
    rw [Node.nameProblem?_renumber]
    by_cases checked : checkNames = true
    · rw [if_pos checked, if_pos checked, Option.toList_map]
    · rw [if_neg checked, if_neg checked]
      rfl
  have references : (row.node.renumber rename).references.flatMap
      (fun reference => reference.problems (row.node.renumber rename).kind) =
      (row.node.references.flatMap fun reference => reference.problems row.node.kind).map
        (Problem.renumber rename) := by
    rw [Node.references_renumber, List.flatMap_map, List.map_flatMap]
    exact List.flatMap_congr fun reference inside =>
      problems_renumber apart row.node.kind (targets reference inside)
  unfold problems
  rw [defects, names, references,
    declarationProblem?_renumber numbered exact twinNumbered twinExact rows member]
  simp only [List.map_append, Option.toList_map]

/-- **The same nodes under other numbers have the same findings**, under these numbers. -/
theorem findings_renumber (checkNames : Bool)
    (targets : ∀ row ∈ first.rows, ∀ reference ∈ row.node.references,
      reference.targets ⊆ first.documentOrder) :
    second.findings checkNames = (first.findings checkNames).map (Finding.renumber rename) := by
  rw [findings_eq, findings_eq, rows, List.flatMap_map, List.map_flatMap]
  refine List.flatMap_congr fun row member => ?_
  show (second.problems checkNames (row.node.renumber rename)).map _ = _
  rw [nodeProblems_renumber numbered exact twinNumbered twinExact rows checkNames member
    (targets row member), List.map_map, List.map_map]
  rfl

end Findings

end Catalog

end EntityModel
