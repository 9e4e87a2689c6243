import EntityModel.Findings.Walk
import EntityModel.Proofs.Findings.ByNode
import EntityModel.Proofs.Resolution.Targets

/-
**What has to be reported of references, and how findings are given out.**

* `Slot.mark?` — what is due for a slot, by the slots before it; `slotProblems_eq_marks` — problems
  gathered with a list of targets seen are these marks.
* `Reference.errors` — the errors due for a reference; `filter_unresolved` — **they are the errors
  among its problems**, once it has been evaluated (`Reference.Evaluated`).
* `Node.errors` — the errors due for a node; `Catalog.filter_error` — they are the errors among its
  problems.
* `Walk.rest` — what a walk has still to give out; `take_eq_rest` — asked for one by one, it comes in
  this order. `Numbered.take_walk` — **so a walk gives out the findings.**
-/

namespace EntityModel

/-! ### Slots -/

namespace Slot

/-- The error for a slot that has found nothing. -/
def failure (rule : ReferenceRule) (slot : Slot) : Problem :=
  match slot.reason? with
  | some (.wrongKind found) => .wrongKind slot.text rule.role found rule.expected
  | _ => .unresolved slot.text rule.role rule.expected

/-- What is due for a slot after the earlier ones of its reference: an error where nothing is found,
else a warning where one of them has found the same, else one where several nodes fit. -/
def mark? (rule : ReferenceRule) (earlier : List Slot) (slot : Slot) : Option Problem :=
  match slot.outcome with
  | .undefined _ => some (slot.failure rule)
  | .known target candidates =>
    if ∃ other ∈ earlier, other.target? = some target then some (.repeated slot.text rule.role)
    else if 1 < candidates then some (.ambiguous slot.text rule.role candidates target)
    else none

/-- What is due for the slots of a reference. -/
def marks (rule : ReferenceRule) (slots : List Slot) : List Problem :=
  slots.zipIdx.filterMap fun entry => entry.1.mark? rule (slots.take entry.2)

end Slot

theorem slotProblem?_eq_mark? (rule : ReferenceRule) (earlier : List Slot) (slot : Slot) :
    slotProblem? rule (earlier.filterMap Slot.target?) slot = slot.mark? rule earlier := by
  unfold slotProblem? Slot.mark?
  cases outcome : slot.outcome with
  | undefined reason => cases reason <;> simp [Slot.failure, Slot.reason?, outcome]
  | known target candidates => simp

/-- Slots that follow others are marked by all that stand before them. -/
theorem slotProblems_eq (rule : ReferenceRule) (later : List Slot) : ∀ earlier : List Slot,
    slotProblems rule (earlier.filterMap Slot.target?) later =
      (later.zipIdx earlier.length).filterMap fun entry =>
        entry.1.mark? rule ((earlier ++ later).take entry.2) := by
  induction later with
  | nil => exact fun _ => rfl
  | cons slot later ih =>
    intro earlier
    have next := ih (earlier ++ [slot])
    have found : (earlier ++ [slot]).filterMap Slot.target? =
        earlier.filterMap Slot.target? ++ slot.target?.toList := by
      cases target : slot.target? <;> simp [target]
    rw [found, List.length_append, List.length_singleton, List.append_assoc,
      List.singleton_append] at next
    rw [slotProblems, next, slotProblem?_eq_mark?, List.zipIdx_cons, List.filterMap_cons,
      List.take_left]
    cases slot.mark? rule earlier <;> rfl

theorem slotProblems_eq_marks (rule : ReferenceRule) (slots : List Slot) :
    slotProblems rule [] slots = Slot.marks rule slots :=
  slotProblems_eq rule slots []

/-- A slot has an error when it has found nothing. -/
theorem filter_slotProblem? (rule : ReferenceRule) (seen : List NodeId) (slot : Slot) :
    ((slotProblem? rule seen slot).toList.filter fun problem =>
      decide (problem.category = .unresolvedReference)) =
        if slot.isKnown then [] else [slot.failure rule] := by
  unfold slotProblem? Slot.isKnown Slot.target?
  cases outcome : slot.outcome with
  | undefined reason =>
    cases reason <;> simp [Slot.failure, Slot.reason?, outcome, Problem.category]
  | known target candidates =>
    by_cases listed : target ∈ seen
    · simp [listed, Problem.category]
    · by_cases several : 1 < candidates
      · simp [listed, several, Problem.category]
      · simp [listed, several]

theorem filter_slotProblems (rule : ReferenceRule) (slots : List Slot) : ∀ seen : List NodeId,
    ((slotProblems rule seen slots).filter fun problem =>
      decide (problem.category = .unresolvedReference)) =
        (slots.filter fun slot => !slot.isKnown).map (Slot.failure rule) := by
  induction slots with
  | nil => exact fun _ => rfl
  | cons slot slots ih =>
    intro seen
    rw [slotProblems, List.filter_append, filter_slotProblem?, ih]
    cases known : slot.isKnown <;> simp [known]

/-! ### References -/

namespace Reference

/-- The errors due for a reference of a node of the kind. There is none where all targets are found;
where nothing is written there is one, unless the reference may be left out; otherwise there is one
for each slot that has found nothing, in order. -/
def errors (reference : Reference) (kind : Kind) : List Problem :=
  if reference.status = .known then []
  else if reference.isAbsent then
    if reference.rule.optional then [] else [.unspecified kind reference.role]
  else (reference.slots.filter fun slot => !slot.isKnown).map (Slot.failure reference.rule)

/-- The reference has been evaluated. Where nothing is written, nothing was found. -/
structure Evaluated (reference : Reference) : Prop where
  answered : reference.status ≠ .unknown
  slotted : reference.slots ≠ []
  bare : reference.isAbsent = true → ∀ slot ∈ reference.slots, slot.isKnown = false

variable {reference : Reference} {kind : Kind}

theorem exists_answer (answered : reference.status ≠ .unknown) :
    ∃ slots, reference.answer = some slots ∧ reference.slots = slots := by
  cases answer : reference.answer with
  | none => exact absurd (by rw [status, answer]) answered
  | some slots => exact ⟨slots, rfl, by rw [Reference.slots, answer, Option.getD_some]⟩

namespace Evaluated

variable (evaluated : reference.Evaluated)

include evaluated

/-- A reference for which nothing is written is not known. -/
theorem status_ne_known (absent : reference.isAbsent = true) : reference.status ≠ .known := by
  intro known
  obtain ⟨slot, member⟩ := List.exists_mem_of_ne_nil _ evaluated.slotted
  have found := (status_eq_known_iff.mp known).2 slot member
  rw [evaluated.bare absent slot member] at found
  exact nomatch found

theorem known_iff : reference.status = .known ↔
    (reference.slots.filter fun slot => !slot.isKnown) = [] := by
  obtain ⟨slots, answer, same⟩ := exists_answer evaluated.answered
  rw [status_eq_known_iff, answer]
  simp

/-- The problems of a reference: its error where nothing is written, and else the marks of its
slots. -/
theorem problems_eq : reference.problems kind =
    if reference.isAbsent then reference.errors kind
    else Slot.marks reference.rule reference.slots := by
  obtain ⟨slots, answer, same⟩ := exists_answer evaluated.answered
  unfold problems errors
  cases absent : reference.isAbsent with
  | true => simp [answer, evaluated.status_ne_known absent]
  | false => simp [answer, same, slotProblems_eq_marks]

/-- **The errors among the problems** of a reference are those that are due. -/
theorem filter_unresolved : ((reference.problems kind).filter fun problem =>
    decide (problem.category = .unresolvedReference)) = reference.errors kind := by
  rw [evaluated.problems_eq]
  unfold errors
  cases absent : reference.isAbsent with
  | true =>
    cases reference.rule.optional <;>
      simp [evaluated.status_ne_known absent, Problem.category]
  | false =>
    simp only [Bool.false_eq_true, if_false]
    rw [← slotProblems_eq_marks, filter_slotProblems]
    by_cases known : reference.status = .known
    · rw [if_pos known, evaluated.known_iff.mp known]
      rfl
    · rw [if_neg known]

/-- No error is due where all targets are found, and where a reference is left out that may be. -/
theorem errors_eq_nil_iff : reference.errors kind = [] ↔ reference.status = .known ∨
    (reference.rule.optional = true ∧ reference.isAbsent = true) := by
  unfold errors
  by_cases known : reference.status = .known
  · simp [known]
  · have failed := mt evaluated.known_iff.mpr known
    cases reference.isAbsent with
    | true => cases reference.rule.optional <;> simp [known]
    | false => simpa [known] using failed

end Evaluated

end Reference

/-! ### The errors of a node -/

/-- The errors due for a node: one for each of its defects, then those of its references. -/
def Node.errors (node : Node) : List Problem :=
  node.defects.map .defect ++ node.references.flatMap fun reference => reference.errors node.kind

theorem Problem.severity_eq_error_iff {problem : Problem} : problem.severity = .error ↔
    problem.category = .structuralParseError ∨ problem.category = .unresolvedReference := by
  unfold severity
  cases problem.category <;> simp

namespace Catalog

variable {catalog : Catalog} {checkNames : Bool} {node : Node}

/-- **The errors of a node** are those that are due, and no others. -/
theorem filter_error (evaluated : ∀ reference ∈ node.references, reference.Evaluated) :
    ((catalog.problems checkNames node).filter fun problem =>
      decide (problem.severity = .error)) = node.errors := by
  have each : ∀ reference ∈ node.references,
      ((reference.problems node.kind).filter fun problem => decide
        (problem.category = .structuralParseError ∨ problem.category = .unresolvedReference)) =
          reference.errors node.kind := by
    intro reference member
    rw [← (evaluated reference member).filter_unresolved]
    refine List.filter_congr fun problem inside => decide_eq_decide.mpr (or_iff_right fun own => ?_)
    have cause := Reference.ofReference_problems inside
    rw [own] at cause
    exact nomatch cause
  simp only [Problem.severity_eq_error_iff]
  rw [filter_problems fun category => decide
    (category = .structuralParseError ∨ category = .unresolvedReference), List.flatMap_congr each]
  simp [Node.errors]

end Catalog

/-! ### Walks -/

namespace Walk

variable {catalog : Catalog} {checkNames : Bool}

/-- All that a walk has still to give out. -/
def rest (walk : Walk) (catalog : Catalog) (checkNames : Bool) : List Finding :=
  walk.pending ++ walk.order.flatMap (catalog.findingsOf checkNames)

/-- **One step of a walk** takes the first of what is left, and nothing else. -/
theorem rest_of_next? {pending : List Finding} {order : List NodeId} :
    match (⟨pending, order⟩ : Walk).next? catalog checkNames with
    | none => rest ⟨pending, order⟩ catalog checkNames = []
    | some (finding, later) =>
      rest ⟨pending, order⟩ catalog checkNames = finding :: later.rest catalog checkNames := by
  unfold next?
  induction order generalizing pending with
  | nil => cases pending <;> simp [Catalog.nextFinding?, rest]
  | cons id order ih =>
    cases pending with
    | cons finding pending => simp [Catalog.nextFinding?, rest]
    | nil =>
      have visited := @ih (catalog.findingsOf checkNames id)
      rw [Catalog.nextFinding?]
      exact visited

/-- **Asked for one by one, findings come in the order of what is left.** -/
theorem take_eq_rest (count : Nat) : ∀ walk : Walk,
    walk.take catalog checkNames count = (walk.rest catalog checkNames).take count := by
  induction count with
  | zero => exact fun _ => rfl
  | succ count ih =>
    intro walk
    have step := @rest_of_next? catalog checkNames walk.pending walk.order
    rw [take]
    cases next : walk.next? catalog checkNames with
    | none =>
      rw [next] at step
      rw [step]
      rfl
    | some taken =>
      rw [next] at step
      rw [step, List.take_succ_cons]
      exact congrArg (taken.1 :: ·) (ih taken.2)

end Walk

/-- **A walk gives out the findings**, in their order and as many as one asks for. -/
theorem Catalog.Numbered.take_walk {catalog : Catalog} (numbered : catalog.Numbered)
    (checkNames : Bool) (count : Nat) : catalog.walk.take catalog checkNames count =
      (catalog.findings checkNames).take count := by
  have each : ∀ site ∈ catalog.sites, catalog.findingsOf checkNames site.id =
      (catalog.problems checkNames site.node).map site.finding := by
    intro site member
    unfold findingsOf
    rw [show catalog.node? site.id = some site.node from
      numbered.node?_of_mem (row_mem_rows member)]
    rfl
  rw [Walk.take_eq_rest, findings_eq_sites, ← List.flatMap_congr each]
  show (catalog.documentOrder.flatMap _).take count = _
  rw [documentOrder, List.flatMap_map]

end EntityModel
